import Mathlib
import Smalltalk.ObjectFile.Text

/-!
# Object files determine classes

The text of an object file can be read back in one way only. Everything that is written in it ends where
it can be seen to end: a string at its quote, a number before the first character that is part of no
number, a list or an object at its bracket. So a value and all that follows it are known from the whole
text, level by level, and with the values the class.
-/

namespace Smalltalk

namespace JsonValue

/-! ## Characters and strings -/

/-- The value of a hexadecimal digit. -/
def hexValue (c : Char) : Nat :=
  if c.isDigit then c.toNat - '0'.toNat else c.toNat - 'a'.toNat + 10

/-- What a backslash and the character after it stand for. -/
def shortEscape (c : Char) : Char :=
  match c with
  | 'b' => '\x08'
  | 't' => '\t'
  | 'n' => '\n'
  | 'f' => '\x0c'
  | 'r' => '\r'
  | c => c

/-- The character that a text inside quotes starts with, and the text after it. -/
def unescape : List Char → Option (Char × List Char)
  | '\\' :: 'u' :: _ :: _ :: high :: low :: rest =>
    some (Char.ofNat (16 * hexValue high + hexValue low), rest)
  | '\\' :: c :: rest => some (shortEscape c, rest)
  | c :: rest => some (c, rest)
  | [] => none

theorem hexValue_digitChar : ∀ n < 16, hexValue (Nat.digitChar n) = n := by
  decide

theorem unescape_escape (c : Char) (rest : List Char) : unescape (escape c ++ rest) = some (c, rest) := by
  rw [escape]
  split_ifs with hquote hbackslash hb ht hn hf hr hcontrol
  · rw [hquote]
    rfl
  · rw [hbackslash]
    rfl
  · rw [← Char.ofNat_toNat c, hb]
    rfl
  · rw [ht]
    rfl
  · rw [hn]
    rfl
  · rw [← Char.ofNat_toNat c, hf]
    rfl
  · rw [hr]
    rfl
  · have hhigh := hexValue_digitChar (c.toNat / 16) (by omega)
    have hlow := hexValue_digitChar (c.toNat % 16) (by omega)
    have hcode : 16 * (c.toNat / 16) + c.toNat % 16 = c.toNat := by omega
    simp only [List.cons_append, List.nil_append, unescape, hhigh, hlow, hcode, Char.ofNat_toNat]
  · simp [unescape, hbackslash]

theorem escape_unique {c c' : Char} {rest rest' : List Char}
    (h : escape c ++ rest = escape c' ++ rest') : c = c' ∧ rest = rest' := by
  have hread := congrArg unescape h
  rw [unescape_escape, unescape_escape] at hread
  exact Prod.mk.inj (Option.some.inj hread)

/-- A quote inside a string never stands alone. -/
theorem escape_append_ne_quote (c : Char) (rest rest' : List Char) : escape c ++ rest ≠ '"' :: rest' := by
  rw [escape]
  split_ifs with hquote
  all_goals simp [hquote]

theorem flatMap_escape_unique {cs cs' rest rest' : List Char}
    (h : cs.flatMap escape ++ '"' :: rest = cs'.flatMap escape ++ '"' :: rest') :
    cs = cs' ∧ rest = rest' := by
  induction cs generalizing cs' with
  | nil =>
    cases cs' with
    | nil => exact ⟨rfl, List.tail_eq_of_cons_eq h⟩
    | cons c' cs' =>
      rw [List.flatMap_cons, List.append_assoc] at h
      exact absurd h.symm (escape_append_ne_quote _ _ _)
  | cons c cs ih =>
    cases cs' with
    | nil =>
      rw [List.flatMap_cons, List.append_assoc] at h
      exact absurd h (escape_append_ne_quote _ _ _)
    | cons c' cs' =>
      rw [List.flatMap_cons, List.flatMap_cons, List.append_assoc, List.append_assoc] at h
      obtain ⟨rfl, htail⟩ := escape_unique h
      obtain ⟨rfl, hrest⟩ := ih htail
      exact ⟨rfl, hrest⟩

theorem quoted_unique {s s' : String} {rest rest' : List Char}
    (h : quoted s ++ rest = quoted s' ++ rest') : s = s' ∧ rest = rest' := by
  simp only [quoted, List.cons_append, List.append_assoc, List.nil_append] at h
  obtain ⟨hs, hrest⟩ := flatMap_escape_unique (List.tail_eq_of_cons_eq h)
  exact ⟨String.toList_inj.mp hs, hrest⟩

/-! ## Numbers -/

/-- Whether a character can be part of a number. -/
def isNumeric (c : Char) : Bool := c.isDigit || c == '-'

/-- A text that does not continue a number. -/
def IsBoundary (rest : List Char) : Prop := ∀ c ∈ rest.head?, ¬ isNumeric c

theorem isNumeric_of_mem_toString {n : Int} {c : Char} (h : c ∈ (toString n).toList) : isNumeric c := by
  have hdigit : ∀ {m : Nat}, c ∈ m.repr.toList → isNumeric c := by
    intro m hm
    rw [Nat.toList_repr] at hm
    rw [isNumeric, Nat.isDigit_of_mem_toDigits (by decide) (by decide) hm, Bool.true_or]
  rw [Int.toString_eq_repr, Int.repr_eq_if] at h
  split_ifs at h
  · exact hdigit h
  · rw [String.toList_append, List.mem_append] at h
    rcases h with hsign | hm
    · rw [List.mem_singleton.mp hsign]
      rfl
    · exact hdigit hm

theorem toString_ne_nil (n : Int) : (toString n).toList ≠ [] := by
  rw [Int.toString_eq_repr, Int.repr_eq_if]
  split_ifs
  · rw [Nat.toList_repr]
    exact Nat.toDigits_ne_nil
  · rw [String.toList_append]
    exact List.cons_ne_nil _ _

theorem takeWhile_toString_append (n : Int) {rest : List Char} (hrest : IsBoundary rest) :
    ((toString n).toList ++ rest).takeWhile isNumeric = (toString n).toList := by
  rw [List.takeWhile_append_of_pos fun c hc => isNumeric_of_mem_toString hc]
  cases rest with
  | nil => rw [List.takeWhile_nil, List.append_nil]
  | cons c rest => rw [List.takeWhile_cons_of_neg (hrest c rfl), List.append_nil]

theorem toString_unique {n n' : Int} {rest rest' : List Char} (hrest : IsBoundary rest)
    (hrest' : IsBoundary rest') (h : (toString n).toList ++ rest = (toString n').toList ++ rest') :
    n = n' ∧ rest = rest' := by
  have htext : (toString n).toList = (toString n').toList := by
    rw [← takeWhile_toString_append n hrest, h, takeWhile_toString_append n' hrest']
  refine ⟨Int.repr_inj.mp ?_, List.append_cancel_left (htext ▸ h)⟩
  rw [← Int.toString_eq_repr, ← Int.toString_eq_repr]
  exact String.toList_inj.mp htext

/-! ## Lists and objects -/

/-- Whether something written by `w` can be told from what is written after it. -/
def Readable {α : Type} (w : α → List Char) (a : α) : Prop :=
  ∀ a' rest rest', IsBoundary rest → IsBoundary rest' → w a ++ rest = w a' ++ rest' → a = a' ∧ rest = rest'

/-- The elements of a list or object after the first, each on a line of its own. -/
def followers {α : Type} (w : α → List Char) (depth : Nat) (as : List α) : List Char :=
  as.flatMap fun a => ',' :: newline depth ++ w a

/-- Elements between two brackets, each on a line of its own. -/
def bracketed {α : Type} (opening closing : Char) (w : α → List Char) (depth : Nat) : List α → List Char
  | [] => [opening, closing]
  | a :: as =>
    opening :: newline (depth + 1) ++ w a ++ followers w (depth + 1) as ++ newline depth ++ [closing]

/-- A member of an object. -/
def memberText (depth : Nat) (m : String × JsonValue) : List Char :=
  quoted m.1 ++ ':' :: ' ' :: pretty depth m.2

theorem prettyItems_eq_followers (depth : Nat) (vs : List JsonValue) :
    prettyItems depth vs = followers (pretty depth) depth vs := by
  induction vs with
  | nil => rw [prettyItems, followers, List.flatMap_nil]
  | cons v vs ih => rw [prettyItems, ih, followers, followers, List.flatMap_cons]

theorem prettyMembers_eq_followers (depth : Nat) (ms : List (String × JsonValue)) :
    prettyMembers depth ms = followers (memberText depth) depth ms := by
  induction ms with
  | nil => rw [prettyMembers, followers, List.flatMap_nil]
  | cons m ms ih =>
    rw [prettyMembers, ih, followers, followers, List.flatMap_cons]
    simp only [memberText, List.cons_append, List.append_assoc]

theorem pretty_list (depth : Nat) (vs : List JsonValue) :
    pretty depth (.list vs) = bracketed '[' ']' (pretty (depth + 1)) depth vs := by
  cases vs with
  | nil => rw [pretty, bracketed]
  | cons v vs => rw [pretty, bracketed, prettyItems_eq_followers]

theorem pretty_object (depth : Nat) (ms : List (String × JsonValue)) :
    pretty depth (.object ms) = bracketed '\x7b' '\x7d' (memberText (depth + 1)) depth ms := by
  cases ms with
  | nil => rw [pretty, bracketed]
  | cons m ms =>
    rw [pretty, bracketed, prettyMembers_eq_followers]
    simp only [memberText, List.cons_append, List.append_assoc]

section Brackets

variable {α : Type} {w : α → List Char} {depth : Nat}

theorem isBoundary_newline (d : Nat) (rest : List Char) : IsBoundary (newline d ++ rest) := by
  intro c hc
  cases hc
  decide

theorem isBoundary_followers (as : List α) (d : Nat) (rest : List Char) :
    IsBoundary (followers w depth as ++ (newline d ++ rest)) := by
  cases as with
  | nil => exact isBoundary_newline d rest
  | cons a as =>
    intro c hc
    cases hc
    decide

theorem followers_cons (a : α) (as : List α) (rest : List Char) :
    followers w depth (a :: as) ++ rest
      = ',' :: newline depth ++ (w a ++ (followers w depth as ++ rest)) := by
  simp only [followers, List.flatMap_cons, List.cons_append, List.append_assoc]

theorem followers_unique {as as' : List α} {d : Nat} {rest rest' : List Char}
    (has : ∀ a ∈ as, Readable w a)
    (h : followers w depth as ++ (newline d ++ rest) = followers w depth as' ++ (newline d ++ rest')) :
    as = as' ∧ rest = rest' := by
  induction as generalizing as' with
  | nil =>
    cases as' with
    | nil => exact ⟨rfl, List.append_cancel_left h⟩
    | cons a' as' =>
      rw [followers_cons] at h
      exact absurd (List.head_eq_of_cons_eq h) (by decide)
  | cons a as ih =>
    cases as' with
    | nil =>
      rw [followers_cons] at h
      exact absurd (List.head_eq_of_cons_eq h) (by decide)
    | cons a' as' =>
      rw [followers_cons, followers_cons] at h
      obtain ⟨ha, has⟩ := List.forall_mem_cons.mp has
      obtain ⟨rfl, htail⟩ := ha a' _ _ (isBoundary_followers as d rest) (isBoundary_followers as' d rest')
        (List.append_cancel_left h)
      obtain ⟨rfl, hrest⟩ := ih has htail
      exact ⟨rfl, hrest⟩

theorem bracketed_cons (opening closing : Char) (a : α) (as : List α) (rest : List Char) :
    bracketed opening closing w depth (a :: as) ++ rest
      = opening :: (newline (depth + 1)
        ++ (w a ++ (followers w (depth + 1) as ++ (newline depth ++ (closing :: rest))))) := by
  simp only [bracketed, List.cons_append, List.append_assoc, List.nil_append]

/-- What stands between brackets can be read if its elements can. -/
theorem readable_bracketed {opening closing : Char} (hclosing : closing ≠ '\n') {as : List α}
    (has : ∀ a ∈ as, Readable w a) : Readable (bracketed opening closing w depth) as := by
  intro as' rest rest' _ _ h
  cases as with
  | nil =>
    cases as' with
    | nil => exact ⟨rfl, List.append_cancel_left h⟩
    | cons a' as' =>
      rw [bracketed_cons] at h
      exact absurd (List.head_eq_of_cons_eq (List.tail_eq_of_cons_eq h)) hclosing
  | cons a as =>
    cases as' with
    | nil =>
      rw [bracketed_cons] at h
      exact absurd (List.head_eq_of_cons_eq (List.tail_eq_of_cons_eq h)).symm hclosing
    | cons a' as' =>
      rw [bracketed_cons, bracketed_cons] at h
      obtain ⟨ha, has⟩ := List.forall_mem_cons.mp has
      obtain ⟨rfl, htail⟩ := ha a' _ _ (isBoundary_followers as depth _) (isBoundary_followers as' depth _)
        (List.append_cancel_left (List.tail_eq_of_cons_eq h))
      obtain ⟨rfl, hrest⟩ := followers_unique has htail
      exact ⟨rfl, List.tail_eq_of_cons_eq hrest⟩

theorem readable_memberText {m : String × JsonValue} (hm : Readable (pretty depth) m.2) :
    Readable (memberText depth) m := by
  intro m' rest rest' hrest hrest' h
  simp only [memberText, List.append_assoc, List.cons_append] at h
  obtain ⟨hkey, h⟩ := quoted_unique h
  have htail := List.tail_eq_of_cons_eq (List.tail_eq_of_cons_eq h)
  obtain ⟨hvalue, hrest⟩ := hm m'.2 rest rest' hrest hrest' htail
  exact ⟨Prod.ext hkey hvalue, hrest⟩

end Brackets

/-! ## Values -/

/-- Induction over a value, where a statement about a list or an object may use the statements about its
elements. -/
theorem value_induction {P : JsonValue → Prop} (string : ∀ s, P (.string s)) (integer : ∀ n, P (.integer n))
    (boolean : ∀ b, P (.boolean b)) (list : ∀ vs, (∀ v ∈ vs, P v) → P (.list vs))
    (object : ∀ ms, (∀ m ∈ ms, P m.2) → P (.object ms)) (v : JsonValue) : P v :=
  @JsonValue.rec P (fun vs => ∀ v ∈ vs, P v) (fun ms => ∀ m ∈ ms, P m.2) (fun m => P m.2)
    string integer boolean list object
    (fun _ h => absurd h List.not_mem_nil) (fun _ _ head tail => List.forall_mem_cons.mpr ⟨head, tail⟩)
    (fun _ h => absurd h List.not_mem_nil) (fun _ _ head tail => List.forall_mem_cons.mpr ⟨head, tail⟩)
    (fun _ _ h => h) v

/-- The kinds of values. -/
inductive Kind where
  | string
  | integer
  | boolean
  | list
  | object
  deriving DecidableEq

/-- What kind a value is of. -/
def kind : JsonValue → Kind
  | string _ => .string
  | integer _ => .integer
  | boolean _ => .boolean
  | list _ => .list
  | object _ => .object

/-- What kind of value starts with a character. -/
def kindOfInitial (c : Char) : Kind :=
  if c = '"' then .string
  else if c = '[' then .list
  else if c = '\x7b' then .object
  else if c = 't' ∨ c = 'f' then .boolean
  else .integer

theorem kindOfInitial_of_isNumeric {c : Char} (h : isNumeric c) : kindOfInitial c = .integer := by
  have hne : ∀ d, ¬ isNumeric d → c ≠ d := by
    rintro d hd rfl
    exact hd h
  simp only [kindOfInitial, hne '"' (by decide), hne '[' (by decide), hne '\x7b' (by decide),
    hne 't' (by decide), hne 'f' (by decide), or_self, if_false]

theorem exists_bracketed_eq_cons {α : Type} (opening closing : Char) (w : α → List Char) (depth : Nat)
    (as : List α) (rest : List Char) : ∃ t, bracketed opening closing w depth as ++ rest = opening :: t := by
  cases as with
  | nil => exact ⟨_, rfl⟩
  | cons a as => exact ⟨_, bracketed_cons opening closing a as rest⟩

theorem kindOfInitial_pretty (depth : Nat) (v : JsonValue) (rest : List Char) :
    (pretty depth v ++ rest).head?.map kindOfInitial = some v.kind := by
  cases v with
  | string s =>
    rw [pretty]
    rfl
  | integer n =>
    rw [pretty]
    obtain ⟨c, t, htext⟩ := List.exists_cons_of_ne_nil (toString_ne_nil n)
    have hc : isNumeric c := isNumeric_of_mem_toString (htext ▸ List.mem_cons_self)
    rw [htext]
    exact congrArg some (kindOfInitial_of_isNumeric hc)
  | boolean b =>
    rw [pretty]
    cases b <;> rfl
  | list vs =>
    obtain ⟨t, htext⟩ := exists_bracketed_eq_cons '[' ']' (pretty (depth + 1)) depth vs rest
    rw [pretty_list, htext]
    rfl
  | object ms =>
    obtain ⟨t, htext⟩ := exists_bracketed_eq_cons '\x7b' '\x7d' (memberText (depth + 1)) depth ms rest
    rw [pretty_object, htext]
    rfl

theorem kind_eq_of_pretty_append {depth : Nat} {v v' : JsonValue} {rest rest' : List Char}
    (h : pretty depth v ++ rest = pretty depth v' ++ rest') : v.kind = v'.kind := by
  refine Option.some.inj ?_
  rw [← kindOfInitial_pretty depth v rest, h, kindOfInitial_pretty]

theorem boolText_unique {b b' : Bool} {rest rest' : List Char}
    (h : boolText b ++ rest = boolText b' ++ rest') : b = b' ∧ rest = rest' := by
  cases b <;> cases b'
  · exact ⟨rfl, List.append_cancel_left h⟩
  · exact absurd (List.head_eq_of_cons_eq h) (by decide)
  · exact absurd (List.head_eq_of_cons_eq h) (by decide)
  · exact ⟨rfl, List.append_cancel_left h⟩

/-- Every value can be told from what is written after it. -/
theorem readable_pretty (v : JsonValue) : ∀ depth, Readable (pretty depth) v := by
  -- The first character gives the kind of the other value, and with it the reading that applies.
  induction v using value_induction with
  | string s =>
    intro depth v' rest rest' _ _ h
    cases v' <;> cases kind_eq_of_pretty_append h
    rw [pretty, pretty] at h
    obtain ⟨rfl, hrest⟩ := quoted_unique h
    exact ⟨rfl, hrest⟩
  | integer n =>
    intro depth v' rest rest' hrest hrest' h
    cases v' <;> cases kind_eq_of_pretty_append h
    rw [pretty, pretty] at h
    obtain ⟨rfl, hrest⟩ := toString_unique hrest hrest' h
    exact ⟨rfl, hrest⟩
  | boolean b =>
    intro depth v' rest rest' _ _ h
    cases v' <;> cases kind_eq_of_pretty_append h
    rw [pretty, pretty] at h
    obtain ⟨rfl, hrest⟩ := boolText_unique h
    exact ⟨rfl, hrest⟩
  | list vs ih =>
    intro depth v' rest rest' hrest hrest' h
    cases v' <;> cases kind_eq_of_pretty_append h
    rw [pretty_list, pretty_list] at h
    obtain ⟨rfl, hrest⟩ := readable_bracketed (by decide) (fun v hv => ih v hv (depth + 1)) _ _ _ hrest hrest' h
    exact ⟨rfl, hrest⟩
  | object ms ih =>
    intro depth v' rest rest' hrest hrest' h
    cases v' <;> cases kind_eq_of_pretty_append h
    rw [pretty_object, pretty_object] at h
    obtain ⟨rfl, hrest⟩ := readable_bracketed (by decide)
      (fun m hm => readable_memberText (ih m hm (depth + 1))) _ _ _ hrest hrest' h
    exact ⟨rfl, hrest⟩

theorem pretty_injective (depth : Nat) : Function.Injective (pretty depth) := by
  intro v v' h
  have hend : IsBoundary [] := fun c hc => absurd hc (Option.not_mem_none c)
  exact (readable_pretty v depth v' [] [] hend hend (congrArg (· ++ []) h)).1

end JsonValue

/-! ## Classes -/

theorem signedByte_injective : Function.Injective signedByte := by
  intro b b' h
  have hb := b.toNat_lt
  have hb' := b'.toNat_lt
  refine UInt8.toNat_inj.mp ?_
  rw [signedByte, signedByte] at h
  split_ifs at h
  all_goals omega

theorem stringList_injective : Function.Injective stringList := by
  intro ss ss' h
  exact List.map_injective_iff.mpr (fun _ _ => JsonValue.string.inj) (JsonValue.list.inj h)

/-- Whether a member is absent can be seen from the key of the next one. -/
theorem optionalMember_unique {key k : String} (hkey : key ≠ k) {o o' : Option String} {v v' : JsonValue}
    {ms ms' : List (String × JsonValue)}
    (h : optionalMember key o ++ (k, v) :: ms = optionalMember key o' ++ (k, v') :: ms') :
    o = o' ∧ v = v' ∧ ms = ms' := by
  cases o with
  | none =>
    cases o' with
    | none =>
      obtain ⟨hmember, hms⟩ := List.cons.inj h
      exact ⟨rfl, (Prod.mk.inj hmember).2, hms⟩
    | some s' => exact absurd (Prod.mk.inj (List.cons.inj h).1).1.symm hkey
  | some s =>
    cases o' with
    | none => exact absurd (Prod.mk.inj (List.cons.inj h).1).1 hkey
    | some s' =>
      obtain ⟨hoption, hrest⟩ := List.cons.inj h
      obtain ⟨hmember, hms⟩ := List.cons.inj hrest
      exact ⟨congrArg some (JsonValue.string.inj (Prod.mk.inj hoption).2), (Prod.mk.inj hmember).2, hms⟩

namespace CompiledBlock

/-- Induction over a method or block, where a statement about it may use the statements about the blocks
in it. -/
theorem block_induction {P : CompiledBlock → Prop} (step : ∀ b, (∀ d ∈ b.blocks, P d) → P b)
    (b : CompiledBlock) : P b :=
  @CompiledBlock.rec P (fun bs => ∀ d ∈ bs, P d) (fun _ _ _ _ _ _ _ _ ih => step _ ih)
    (fun _ h => absurd h List.not_mem_nil) (fun _ _ head tail => List.forall_mem_cons.mpr ⟨head, tail⟩) b

theorem toJson_eq (b : CompiledBlock) : b.toJson = .object (
    ("name", .string b.name) :: ("isClassMethod", .boolean b.classSide)
      :: ("qualifiedName", .string b.qualifiedName)
      :: (optionalMember "primitiveName" b.primitive
        ++ ("nargs", .integer b.argumentCount) :: ("nlocals", .integer b.localCount)
          :: ("bytecode", .list (b.code.map fun byte => .integer (signedByte byte)))
          :: ("blocks", .list (toJsonAll b.blocks)) :: [])) := by
  cases b
  rw [toJson]
  rfl

theorem toJsonAll_unique {bs bs' : List CompiledBlock} (hbs : ∀ b ∈ bs, ∀ b', b.toJson = b'.toJson → b = b')
    (h : toJsonAll bs = toJsonAll bs') : bs = bs' := by
  induction bs generalizing bs' with
  | nil =>
    cases bs' with
    | nil => rfl
    | cons b' bs' =>
      rw [toJsonAll, toJsonAll] at h
      cases h
  | cons b bs ih =>
    cases bs' with
    | nil =>
      rw [toJsonAll, toJsonAll] at h
      cases h
    | cons b' bs' =>
      rw [toJsonAll, toJsonAll] at h
      obtain ⟨hhead, htail⟩ := List.cons.inj h
      obtain ⟨hb, hbs⟩ := List.forall_mem_cons.mp hbs
      rw [hb b' hhead, ih hbs htail]

theorem toJson_injective : Function.Injective toJson := by
  intro b
  induction b using block_induction with
  | step b ih =>
    intro b' h
    rw [toJson_eq, toJson_eq] at h
    simp only [JsonValue.object.injEq, List.cons.injEq, Prod.mk.injEq, JsonValue.string.injEq,
      JsonValue.boolean.injEq, true_and] at h
    obtain ⟨hname, hside, hqualified, h⟩ := h
    obtain ⟨hprimitive, harguments, h⟩ := optionalMember_unique (by decide) h
    simp only [List.cons.injEq, Prod.mk.injEq, JsonValue.integer.injEq, JsonValue.list.injEq, true_and,
      and_true, Nat.cast_inj] at harguments h
    obtain ⟨hlocals, hcode, hblocks⟩ := h
    have hcode : b.code = b'.code := List.map_injective_iff.mpr
      (fun _ _ h => signedByte_injective (JsonValue.integer.inj h)) hcode
    have hblocks : b.blocks = b'.blocks := toJsonAll_unique ih hblocks
    cases b
    cases b'
    simp_all only

end CompiledBlock

namespace CompiledClass

theorem toJson_injective : Function.Injective toJson := by
  intro c c' h
  simp only [toJson, JsonValue.object.injEq, List.cons_append, List.nil_append, List.cons.injEq, Prod.mk.injEq,
    JsonValue.string.injEq, true_and] at h
  obtain ⟨hname, h⟩ := h
  obtain ⟨hsuperclass, hliterals, h⟩ := optionalMember_unique (by decide) h
  simp only [List.cons.injEq, Prod.mk.injEq, JsonValue.list.injEq, true_and, and_true] at h
  obtain ⟨hfields, hmethods⟩ := h
  have hliterals : c.literals = c'.literals := Array.toList_inj.mp (stringList_injective hliterals)
  have hfields : c.fields = c'.fields := stringList_injective hfields
  have hmethods : c.methods = c'.methods :=
    CompiledBlock.toJsonAll_unique (fun _ _ _ h => CompiledBlock.toJson_injective h) hmethods
  cases c
  cases c'
  simp_all only

/-- The object file determines the class. Two classes whose object files hold the same text are equal: in
their names, their superclasses, their literals by number, their fields, and in all that their methods
hold, down to the bytes of the innermost block. -/
theorem objectText_inj (c c' : CompiledClass) : c.objectText = c'.objectText ↔ c = c' := by
  constructor
  · intro h
    exact toJson_injective (JsonValue.pretty_injective 0 (String.ofList_injective h))
  · rintro rfl
    rfl

end CompiledClass

end Smalltalk
