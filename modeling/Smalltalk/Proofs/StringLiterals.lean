import Mathlib
import Smalltalk.Proofs.Arity
import Smalltalk.Proofs.Scanning

/-!
# Strings in a text

A string is written between quotes, and a quote inside of it is written twice. Scanning takes this back, and
where the closing quote is missing, everything up to the end of the text is in error. What a text that can be
read has strings for are the leaves of its trees: in the order of the text, these are the strings of its tokens.
-/

namespace Smalltalk

open Grammar Text

/-! ## Quotes -/

/-- A text with every quote written twice. -/
def doubled (cs : List Char) : List Char := cs.flatMap fun c => if c = '\'' then ['\'', '\''] else [c]

/-- A string as it is written in a text. -/
def inQuotes (s : String) : String := String.ofList ('\'' :: (doubled s.toList ++ ['\'']))

@[simp]
theorem doubled_nil : doubled [] = [] := rfl

@[simp]
theorem doubled_quote_cons (cs : List Char) : doubled ('\'' :: cs) = '\'' :: '\'' :: doubled cs := rfl

theorem doubled_cons {c : Char} (hc : c ≠ '\'') (cs : List Char) : doubled (c :: cs) = c :: doubled cs := by
  rw [doubled, List.flatMap_cons, if_neg hc]
  rfl

theorem toList_inQuotes (s : String) : (inQuotes s).toList = '\'' :: (doubled s.toList ++ ['\'']) :=
  String.toList_ofList

namespace Scanned

theorem stringFrom_cons {c : Char} (hc : c ≠ '\'') (value text cs : List Char) :
    stringFrom value text (c :: cs) = stringFrom (c :: value) (c :: text) cs := by
  rw [stringFrom]
  · rintro cs rfl
    exact absurd rfl hc
  · rintro rfl
    exact absurd rfl hc

/-- A string ends at a quote that no other one follows. -/
theorem stringFrom_doubled {rest : List Char} (hrest : ∀ d ∈ rest.head?, d ≠ '\'') (inside value text : List Char) :
    stringFrom value text (doubled inside ++ '\'' :: rest)
      = ⟨.string (String.ofList (value.reverse ++ inside)), text.reverse ++ (doubled inside ++ ['\'']), rest⟩ := by
  induction inside generalizing value text with
  | nil =>
    rw [doubled_nil, List.nil_append, stringFrom]
    · simp
    · rintro cs rfl
      exact hrest '\'' rfl rfl
  | cons c inside ih =>
    by_cases hc : c = '\''
    · subst hc
      rw [doubled_quote_cons, List.cons_append, List.cons_append, stringFrom, ih]
      simp
    · rw [doubled_cons hc, List.cons_append, stringFrom_cons hc, ih]
      simp

/-- A string that no quote ends goes on to the end of the text. -/
theorem stringFrom_cases (value text cs : List Char) :
    (∃ inside rest, cs = doubled inside ++ '\'' :: rest ∧ ∀ d ∈ rest.head?, d ≠ '\'') ∨
      stringFrom value text cs = ⟨.ofError .unterminatedString, text.reverse ++ cs, []⟩ := by
  fun_induction stringFrom value text cs with
  | case1 value text cs ih =>
    rcases ih with ⟨inside, rest, rfl, hrest⟩ | herror
    · exact .inl ⟨'\'' :: inside, rest, rfl, hrest⟩
    · right
      rw [herror]
      simp
  | case2 value text cs hcs =>
    refine .inl ⟨[], cs, rfl, fun d hd hquote => ?_⟩
    subst hquote
    cases cs with
    | nil => cases hd
    | cons c cs =>
      cases hd
      exact hcs cs rfl
  | case3 value text c cs _ hc ih =>
    have hne : c ≠ '\'' := fun hquote => hc hquote
    rcases ih with ⟨inside, rest, rfl, hrest⟩ | herror
    · exact .inl ⟨c :: inside, rest, by rw [doubled_cons hne]; rfl, hrest⟩
    · right
      rw [herror]
      simp
  | case4 value text =>
    right
    simp

end Scanned

/-! ## Tokens of strings -/

/-- A character that is no blank starts the next token. -/
theorem tokensFrom_cons {c : Char} (hc : isBlank c = false) (done : Array Token) (p : Position) (cs : List Char) :
    tokensFrom done p (c :: cs)
      = tokensFrom (done.push ⟨(scan c cs).kind, ⟨p, p.advance (scan c cs).text⟩, String.ofList (scan c cs).text⟩)
          (p.advance (scan c cs).text) (scan c cs).rest := by
  have hdrop : (c :: cs).dropWhile isBlank = c :: cs := by rw [List.dropWhile_cons, hc]; rfl
  have htake : (c :: cs).takeWhile isBlank = [] := by rw [List.takeWhile_cons, hc]; rfl
  rw [tokensFrom]
  split
  · next hnil => rw [hdrop] at hnil; cases hnil
  · next hcons =>
    rw [hdrop] at hcons
    cases hcons
    simp only [htake, Position.advance_nil]

theorem tokensFrom_nil (done : Array Token) (p : Position) : tokensFrom done p [] = done.push (.finish p) := by
  rw [tokensFrom]
  rfl

/-- Tokens that have been read do not change what follows. -/
theorem toList_tokensFrom (done : Array Token) (p : Position) (cs : List Char) :
    (tokensFrom done p cs).toList = done.toList ++ (tokensFrom #[] p cs).toList := by
  cases hrest : cs.dropWhile isBlank with
  | nil =>
    unfold tokensFrom
    split
    · simp
    · next hcons => rw [hrest] at hcons; cases hcons
  | cons c rest =>
    have hlt := scan_rest_length_lt_of_dropWhile hrest
    unfold tokensFrom
    split
    · next hnil => rw [hrest] at hnil; cases hnil
    · next hcons =>
      rw [hrest] at hcons
      cases hcons
      simp only
      rw [toList_tokensFrom, toList_tokensFrom (#[].push _)]
      simp
termination_by cs.length

theorem scan_quote (cs : List Char) : scan '\'' cs = .string cs := rfl

/-- A string in quotes is the next token, wherever it stands. -/
theorem tokensFrom_inQuotes {rest : List Char} (hrest : ∀ d ∈ rest.head?, d ≠ '\'') (s : String)
    (done : Array Token) (p : Position) :
    tokensFrom done p ((inQuotes s).toList ++ rest)
      = tokensFrom (done.push ⟨.string s, ⟨p, p.advance (inQuotes s).toList⟩, inQuotes s⟩)
          (p.advance (inQuotes s).toList) rest := by
  have hscan : scan '\'' (doubled s.toList ++ '\'' :: rest) = ⟨.string s, (inQuotes s).toList, rest⟩ := by
    rw [scan_quote, Scanned.string, Scanned.stringFrom_doubled hrest, toList_inQuotes]
    simp
  have hsplit : (inQuotes s).toList ++ rest = '\'' :: (doubled s.toList ++ '\'' :: rest) := by
    rw [toList_inQuotes]
    simp
  rw [hsplit, tokensFrom_cons (by decide), hscan, String.ofList_toList]

/-- A text that starts with a quote, from which no string can be cut off, is in error as a whole. -/
theorem tokensFrom_unterminated {cs : List Char}
    (hcs : ¬ ∃ inside rest, cs = doubled inside ++ '\'' :: rest ∧ ∀ d ∈ rest.head?, d ≠ '\'')
    (done : Array Token) (p : Position) :
    tokensFrom done p ('\'' :: cs)
      = (done.push ⟨.ofError .unterminatedString, ⟨p, p.advance ('\'' :: cs)⟩, String.ofList ('\'' :: cs)⟩).push
          (.finish (p.advance ('\'' :: cs))) := by
  have hscan : scan '\'' cs = ⟨.ofError .unterminatedString, '\'' :: cs, []⟩ := by
    rw [scan_quote, Scanned.string]
    rcases Scanned.stringFrom_cases [] ['\''] cs with hsplit | herror
    · exact absurd hsplit hcs
    · exact herror
  rw [tokensFrom_cons (by decide), hscan, tokensFrom_nil]

/-- The tokens of a text that stands after another one. -/
def tokensAfter (before source : String) : List Token :=
  (tokensFrom #[] (Position.advance {} before.toList) source.toList).toList

/-- Where a text stands does not matter but for the places of its tokens. -/
theorem map_unplaced_tokensAfter (before source : String) :
    (tokensAfter before source).map Token.unplaced = (tokens source).map Token.unplaced := by
  rw [tokensAfter, map_unplaced_tokensFrom (scans_iff.mpr rfl)]
  rfl

theorem tokens_inQuotes_append {s rest : String} (hrest : rest.toList.head? ≠ some '\'') :
    tokens (inQuotes s ++ rest)
      = ⟨.string s, ⟨{}, Position.advance {} (inQuotes s).toList⟩, inQuotes s⟩
        :: tokensAfter (inQuotes s) rest := by
  have hhead : ∀ d ∈ rest.toList.head?, d ≠ '\'' := by
    rintro d hd rfl
    exact hrest hd
  rw [tokens, String.toList_append, tokensFrom_inQuotes hhead, toList_tokensFrom]
  rfl

theorem tokens_unterminated {source : String} (hquote : source.toList.head? = some '\'')
    (hsource : ¬ ∃ s rest, source = inQuotes s ++ rest ∧ rest.toList.head? ≠ some '\'') :
    tokens source = [⟨.error "unterminated string", ⟨{}, Position.advance {} source.toList⟩, source⟩,
      .finish (Position.advance {} source.toList)] := by
  obtain ⟨cs, hcs⟩ := List.head?_eq_some_iff.mp hquote
  have hsplit : ¬ ∃ inside rest, cs = doubled inside ++ '\'' :: rest ∧ ∀ d ∈ rest.head?, d ≠ '\'' := by
    rintro ⟨inside, rest, rfl, hrest⟩
    refine hsource ⟨String.ofList inside, String.ofList rest, ?_, ?_⟩
    · rw [← String.toList_inj, hcs, String.toList_append, toList_inQuotes, String.toList_ofList,
        String.toList_ofList]
      simp
    · rw [String.toList_ofList]
      exact fun hhead => hrest '\'' hhead rfl
  rw [tokens, hcs, tokensFrom_unterminated hsplit, ← hcs, String.ofList_toList]
  rfl

/-- The string that a token stands for. -/
def TokenKind.string? : TokenKind → Option String
  | string s => some s
  | _ => none

namespace Scanned

theorem string?_decimal (whole cs : List Char) : (decimal whole cs).kind.string? = none := by
  simp only [decimal]
  split
  · dsimp only
    split <;> rfl
  · rfl

theorem string?_number (c : Char) (cs : List Char) : (number c cs).kind.string? = none := by
  unfold number
  dsimp only
  split
  · split
    · simp only [radix]
      split
      · rfl
      · dsimp only
        split <;> rfl
    · exact string?_decimal _ _
  · exact string?_decimal _ _

theorem string?_word (c : Char) (cs : List Char) : (word c cs).kind.string? = none := by
  simp only [word]
  split
  · split <;> rfl
  · rfl
  · split <;> rfl

end Scanned

/-- Only quotes start strings. -/
theorem string?_scan {c : Char} (hc : c ≠ '\'') (cs : List Char) : (scan c cs).kind.string? = none := by
  unfold scan
  split
  · rfl
  · rw [if_neg hc]
    split_ifs
    · unfold Scanned.comment
      split <;> rfl
    · cases cs <;> rfl
    · simp only [Scanned.symbol]
      split <;> rfl
    · unfold Scanned.colon
      split
      · rfl
      · split_ifs <;> rfl
    · exact Scanned.string?_number c cs
    · exact Scanned.string?_word c cs
    · rfl
    · rfl

theorem text_of_scan_string {c : Char} {cs : List Char} {s : String} (h : (scan c cs).kind = .string s) :
    (scan c cs).text = (inQuotes s).toList := by
  by_cases hc : c = '\''
  · subst hc
    rw [scan_quote, Scanned.string] at h ⊢
    rcases Scanned.stringFrom_cases [] ['\''] cs with ⟨inside, rest, rfl, hrest⟩ | herror
    · rw [Scanned.stringFrom_doubled hrest] at h ⊢
      cases h
      rw [toList_inQuotes, String.toList_ofList]
      rfl
    · rw [herror] at h
      cases h
  · have hnone := string?_scan hc cs
    rw [h] at hnone
    cases hnone

/-- The token of a string was read from the string in quotes. -/
theorem lexeme_of_mem_tokens {source : String} {t : Token} {s : String} (ht : t ∈ tokens source)
    (hkind : t.kind = .string s) : t.lexeme = inQuotes s := by
  have hscans : ∀ {cs : List Char} {ts : List Token}, Scans cs ts →
      ∀ t ∈ ts, t.kind = .string s → t.lexeme = inQuotes s := by
    intro cs ts h
    induction h with
    | finish => exact List.forall_mem_singleton.mpr TokenKind.noConfusion
    | token _ _ _ ih =>
      refine List.forall_mem_cons.mpr ⟨fun hkind => ?_, ih⟩
      rw [text_of_scan_string hkind, String.ofList_toList]
  exact hscans (scans_iff.mpr rfl) t.unplaced (List.mem_map_of_mem ht) hkind

/-! ## Strings in trees -/

namespace Expr

/-- The string that a node stands for by itself. -/
def string? : Expr → Option String
  | atom _ (.string s) => some s
  | _ => none

/-- The strings in some trees, from left to right. -/
def stringAtoms (es : List Expr) : List String := (nodesOfAll es).filterMap string?

@[simp]
theorem stringAtoms_nil : stringAtoms [] = [] := by
  rw [stringAtoms, nodesOfAll_nil, List.filterMap_nil]

theorem stringAtoms_append (es fs : List Expr) : stringAtoms (es ++ fs) = stringAtoms es ++ stringAtoms fs := by
  rw [stringAtoms, nodesOfAll_append, List.filterMap_append]
  rfl

theorem stringAtoms_cons (e : Expr) (es : List Expr) : stringAtoms (e :: es) = stringAtoms [e] ++ stringAtoms es :=
  stringAtoms_append [e] es

theorem stringAtoms_eq_flatMap (es : List Expr) : stringAtoms es = es.flatMap fun e => stringAtoms [e] := by
  induction es with
  | nil => rw [stringAtoms_nil, List.flatMap_nil]
  | cons e es ih => rw [stringAtoms_cons, List.flatMap_cons, ih]

theorem stringAtoms_flatMap {α : Type} (as : List α) (f : α → List Expr) :
    stringAtoms (as.flatMap f) = as.flatMap fun a => stringAtoms (f a) := by
  rw [stringAtoms_eq_flatMap, List.flatMap_assoc]
  exact List.flatMap_congr fun a _ => (stringAtoms_eq_flatMap (f a)).symm

theorem stringAtoms_singleton (e : Expr) : stringAtoms [e] = e.string?.toList ++ stringAtoms e.children := by
  rw [stringAtoms, nodesOfAll_cons, nodesOfAll_nil, List.append_nil, nodes_eq, List.filterMap_cons]
  cases e.string? <;> rfl

theorem stringAtoms_of_string?_eq_none {e : Expr} (h : e.string? = none) :
    stringAtoms [e] = stringAtoms e.children := by
  rw [stringAtoms_singleton, h]
  rfl

theorem string?_bare (e : Expr) : e.bare.string? = e.string? := by
  cases e with
  | atom info value => cases value <;> rfl
  | _ =>
    rw [bare]
    rfl

theorem stringAtoms_bare (es : List Expr) : stringAtoms (es.map bare) = stringAtoms es := by
  have hone : ∀ e : Expr, stringAtoms [e.bare] = stringAtoms [e] := by
    have step : ∀ e : Expr, (∀ part ∈ e.children, stringAtoms [part.bare] = stringAtoms [part]) →
        stringAtoms [e.bare] = stringAtoms [e] := by
      intro e hparts
      rw [stringAtoms_singleton, stringAtoms_singleton, string?_bare, children_bare, stringAtoms_eq_flatMap,
        List.flatMap_map, stringAtoms_eq_flatMap e.children, List.flatMap_congr hparts]
    intro e
    induction e using children_induction with
    | block info params locals statements close ih => exact step _ ih
    | other e _ ih => exact step e ih
  rw [stringAtoms_eq_flatMap, List.flatMap_map, stringAtoms_eq_flatMap es]
  exact List.flatMap_congr fun e _ => hone e

end Expr

/-! ## Strings in phrases -/

/-- The strings among some tokens. -/
def stringsIn (ts : List Token) : List String := ts.filterMap (·.kind.string?)

namespace Grammar

open Smalltalk.Expr

/-- The tokens `ts` are those of a phrase that has given strings, and then `rest`. -/
def HasStrings (ts : List Token) (strings : List String) (rest : List Token) : Prop :=
  stringsIn ts = strings ++ stringsIn rest

section Strings

variable {n : Nat} {t : Token} {kind : TokenKind} {ts us rest : List Token} {strings strings' : List String}

theorem HasStrings.refl : HasStrings ts [] ts := rfl

theorem HasStrings.cons (h : HasStrings ts strings rest) (ht : t.kind = kind) (hkind : kind.string? = none) :
    HasStrings (t :: ts) strings rest := by
  rw [HasStrings, stringsIn, List.filterMap_cons, ht, hkind]
  exact h

theorem HasStrings.trans (h : HasStrings ts strings us) (h' : HasStrings us strings' rest) :
    HasStrings ts (strings ++ strings') rest := by
  rw [HasStrings, List.append_assoc, ← h']
  exact h

theorem HasStrings.tail (h : HasStrings ts strings (t :: rest)) (ht : t.kind = kind) (hkind : kind.string? = none) :
    HasStrings ts strings rest := by
  have hend := h.trans (HasStrings.refl.cons ht hkind)
  rwa [List.append_nil] at hend

theorem IsOperator.string?_eq_none (h : IsOperator t) : t.kind.string? = none := by
  rcases h with ⟨op, hop⟩ | hbar
  · rw [hop]
    rfl
  · rw [hbar]
    rfl

variable {α : Type} {P : List Token → α → List Token → Prop} {f : α → List String}

/-- Phrases one after the other have the strings of each of them. Here, and below, what a single phrase has
need only be known for few tokens. -/
theorem Many.hasStrings {as : List α} (h : Many P ts as rest)
    (hP : ∀ ts a rest, ts.length ≤ n → P ts a rest → HasStrings ts (f a) rest)
    (hleaves : ∀ ts a rest, P ts a rest → Leaves 1 ts rest) (hn : ts.length ≤ n) :
    HasStrings ts (as.flatMap f) rest := by
  induction h with
  | nil => exact .refl
  | cons head _ ih =>
    rw [List.flatMap_cons]
    exact (hP _ _ _ hn head).trans (ih ((hleaves _ _ _ head).length_le.trans hn))

theorem Separated.hasStrings {as : List α} (h : Separated P ts as rest)
    (hP : ∀ ts a rest, ts.length ≤ n → P ts a rest → HasStrings ts (f a) rest)
    (hleaves : ∀ ts a rest, P ts a rest → Leaves 1 ts rest) (hn : ts.length ≤ n) :
    HasStrings ts (as.flatMap f) rest := by
  induction h with
  | none => exact .refl
  | dot dot _ ih =>
    rw [List.length_cons] at hn
    exact (ih (by omega)).cons dot rfl
  | last item =>
    rw [List.flatMap_singleton]
    exact hP _ _ _ hn item
  | item item dot _ ih =>
    have hlength := ((hleaves _ _ _ item).tail dot TokenKind.noConfusion).length_le
    rw [List.flatMap_cons]
    exact ((hP _ _ _ hn item).tail dot rfl).trans (ih (hlength.trans hn))

/-- Phrases that have no strings, one after the other. -/
theorem Many.hasStrings_nil {as : List α} (h : Many P ts as rest)
    (hP : ∀ ts a rest, P ts a rest → HasStrings ts [] rest) : HasStrings ts [] rest := by
  induction h with
  | nil => exact .refl
  | cons head _ ih => exact (hP _ _ _ head).trans ih

theorem Name.hasStrings {x : Ident} (h : Name ts x rest) : HasStrings ts [] rest := by
  cases h with
  | mk token => exact HasStrings.refl.cons token rfl

theorem BlockArgument.hasStrings {x : Ident} (h : BlockArgument ts x rest) : HasStrings ts [] rest := by
  cases h with
  | mk token => exact HasStrings.refl.cons token rfl

theorem Variables.hasStrings {xs : List Ident} (h : Variables ts xs rest) : HasStrings ts [] rest := by
  cases h with
  | none => exact .refl
  | some opening names closing =>
    exact ((names.hasStrings_nil fun _ _ _ => Name.hasStrings).tail closing rfl).cons opening rfl

theorem Literal.hasStrings {value : Atom} (h : Literal ts value rest) :
    HasStrings ts (stringAtoms [.atom .none value]) rest := by
  rw [stringAtoms_singleton]
  cases h with
  | string token =>
    rw [HasStrings, stringsIn, List.filterMap_cons, token]
    rfl
  | negativeInteger sign token | negativeFloat sign token => exact (HasStrings.refl.cons token rfl).cons sign rfl
  | integer token | float token | character token | nilObject token | receiver token | trueObject token
  | falseObject token => exact HasStrings.refl.cons token rfl

/-! ### Messages -/

theorem stringAtoms_foldl_sendUnary (words : List Ident) (receiver : Expr) :
    stringAtoms [words.foldl sendUnary receiver] = stringAtoms [receiver] := by
  induction words generalizing receiver with
  | nil => rfl
  | cons word words ih =>
    rw [List.foldl_cons, ih, stringAtoms_of_string?_eq_none rfl]
    rfl

theorem stringAtoms_foldl_sendBinary (parts : List BinaryPart) (receiver : Expr) :
    stringAtoms [parts.foldl sendBinary receiver]
      = stringAtoms [receiver] ++ parts.flatMap fun part => stringAtoms [part.2] := by
  induction parts generalizing receiver with
  | nil => rw [List.flatMap_nil, List.append_nil]; rfl
  | cons part parts ih =>
    have hsend : stringAtoms [sendBinary receiver part] = stringAtoms [receiver] ++ stringAtoms [part.2] :=
      (stringAtoms_of_string?_eq_none rfl).trans (stringAtoms_cons _ _)
    rw [List.foldl_cons, ih, hsend, List.flatMap_cons, List.append_assoc]

theorem stringAtoms_map_snd (parts : List (Ident × Expr)) :
    stringAtoms (parts.map (·.2)) = parts.flatMap fun part => stringAtoms [part.2] := by
  rw [stringAtoms_eq_flatMap, List.flatMap_map]

/-! ### Phrases -/

section Nested

-- Inside of a phrase there are only phrases of fewer tokens, about which this is known.
variable (hnested : ∀ ts e rest, ts.length < n → Expression ts e rest → HasStrings ts (stringAtoms [e]) rest)

include hnested

theorem Statement.hasStrings_of_lt {e : Expr} (h : Statement ts e rest) (hn : ts.length < n) :
    HasStrings ts (stringAtoms [e]) rest := by
  cases h with
  | assign target mark value =>
    simp only [List.length_cons] at hn
    have hvalue := hnested _ _ _ (by omega) value
    rw [stringAtoms_of_string?_eq_none rfl, children, stringAtoms_cons, stringAtoms_of_string?_eq_none rfl]
    exact (hvalue.cons mark rfl).cons target rfl
  | ret mark value =>
    rw [List.length_cons] at hn
    rw [stringAtoms_of_string?_eq_none rfl]
    exact (hnested _ _ _ (by omega) value).cons mark rfl
  | expression value => exact hnested _ _ _ hn value

theorem BodyPhrase.hasStrings_of_lt {b : Body} (h : BodyPhrase ts b rest) (hn : ts.length < n) :
    HasStrings ts (stringAtoms b.statements) rest := by
  cases h with
  | mk locals statements =>
    have hlength := locals.leaves.length_le
    rw [stringAtoms_eq_flatMap]
    exact locals.hasStrings.trans (statements.hasStrings (n := n - 1)
      (fun ts e rest hlt h => h.hasStrings_of_lt hnested (by omega)) (fun _ _ _ => Statement.leaves) (by omega))

theorem Primary.hasStrings_of_le {e : Expr} (h : Primary ts e rest) (hn : ts.length ≤ n) :
    HasStrings ts (stringAtoms [e]) rest := by
  cases h with
  | literal token => exact token.hasStrings
  | name token =>
    rw [stringAtoms_of_string?_eq_none rfl]
    exact HasStrings.refl.cons token rfl
  | block opening body closing =>
    rw [List.length_cons] at hn
    rw [stringAtoms_of_string?_eq_none rfl]
    exact ((body.hasStrings_of_lt hnested (by omega)).tail closing rfl).cons opening rfl
  | blockWithParameters opening params separator body closing =>
    rw [List.length_cons] at hn
    have hlength :=
      ((params.leaves (fun _ _ _ _ => BlockArgument.leaves) le_rfl).tail separator TokenKind.noConfusion).length_le
    have hparams := (params.hasStrings_nil fun _ _ _ => BlockArgument.hasStrings).tail separator rfl
    have hbody := (body.hasStrings_of_lt hnested (by omega)).tail closing rfl
    rw [stringAtoms_of_string?_eq_none rfl]
    exact (hparams.trans hbody).cons opening rfl
  | blockOfParameters opening params closing =>
    have hparams := (params.hasStrings_nil fun _ _ _ => BlockArgument.hasStrings).tail closing rfl
    rw [stringAtoms_of_string?_eq_none rfl]
    exact hparams.cons opening rfl
  | parentheses opening inner closing =>
    rw [List.length_cons] at hn
    exact ((hnested _ _ _ (by omega) inner).tail closing rfl).cons opening rfl
  | array opening elements closing =>
    rw [List.length_cons] at hn
    have helements := elements.hasStrings (n := n - 1) (fun ts e rest hlt => hnested ts e rest (by omega))
      (fun _ _ _ => Expression.leaves) (by omega)
    rw [stringAtoms_of_string?_eq_none rfl, stringAtoms_eq_flatMap]
    exact (helements.tail closing rfl).cons opening rfl

theorem Unary.hasStrings_of_le {e : Expr} (h : Unary ts e rest) (hn : ts.length ≤ n) :
    HasStrings ts (stringAtoms [e]) rest := by
  cases h with
  | plain operand messages =>
    have hmessages := messages.hasStrings_nil fun _ _ _ => Name.hasStrings
    have hall := (operand.hasStrings_of_le hnested hn).trans hmessages
    rwa [List.append_nil, ← stringAtoms_foldl_sendUnary] at hall
  | super word messages =>
    rw [stringAtoms_foldl_sendUnary, stringAtoms_of_string?_eq_none rfl]
    exact (messages.hasStrings_nil fun _ _ _ => Name.hasStrings).cons word rfl

theorem BinaryArgument.hasStrings_of_le {part : BinaryPart} (h : BinaryArgument ts part rest)
    (hn : ts.length ≤ n) : HasStrings ts (stringAtoms [part.2]) rest := by
  cases h with
  | mk operator argument =>
    rw [List.length_cons] at hn
    exact (argument.hasStrings_of_le hnested (by omega)).cons rfl operator.string?_eq_none

theorem Binary.hasStrings_of_le {e : Expr} (h : Binary ts e rest) (hn : ts.length ≤ n) :
    HasStrings ts (stringAtoms [e]) rest := by
  have hparts : ∀ ts part rest, ts.length ≤ n → BinaryArgument ts part rest →
      HasStrings ts (stringAtoms [part.2]) rest := fun _ _ _ hn h => h.hasStrings_of_le hnested hn
  cases h with
  | plain operand messages =>
    have hmessages := messages.hasStrings hparts (fun _ _ _ => BinaryArgument.leaves)
      (operand.leaves.length_le.trans hn)
    rw [stringAtoms_foldl_sendBinary]
    exact (operand.hasStrings_of_le hnested hn).trans hmessages
  | super word first messages =>
    rw [List.length_cons] at hn
    have hlength := first.leaves.length_le
    have hmessages := messages.hasStrings hparts (fun _ _ _ => BinaryArgument.leaves) (by omega)
    rw [stringAtoms_foldl_sendBinary, stringAtoms_of_string?_eq_none rfl]
    exact ((hparts _ _ _ (by omega) first).trans hmessages).cons word rfl

theorem KeywordArgument.hasStrings_of_le {part : Ident × Expr} (h : KeywordArgument ts part rest)
    (hn : ts.length ≤ n) : HasStrings ts (stringAtoms [part.2]) rest := by
  cases h with
  | mk token argument =>
    rw [List.length_cons] at hn
    exact (argument.hasStrings_of_le hnested (by omega)).cons token rfl

theorem Expression.hasStrings_of_le {e : Expr} (h : Expression ts e rest) (hn : ts.length ≤ n) :
    HasStrings ts (stringAtoms [e]) rest := by
  have hparts : ∀ ts part rest, ts.length ≤ n → KeywordArgument ts part rest →
      HasStrings ts (stringAtoms [part.2]) rest := fun _ _ _ hn h => h.hasStrings_of_le hnested hn
  cases h with
  | plain operand => exact operand.hasStrings_of_le hnested hn
  | keywords operand messages =>
    have hmessages := messages.hasStrings hparts (fun _ _ _ => KeywordArgument.leaves)
      (operand.leaves.length_le.trans hn)
    rw [stringAtoms_of_string?_eq_none rfl, children, stringAtoms_cons, stringAtoms_map_snd]
    exact (operand.hasStrings_of_le hnested hn).trans hmessages
  | superKeywords word messages =>
    rw [List.length_cons] at hn
    have hmessages := messages.hasStrings hparts (fun _ _ _ => KeywordArgument.leaves) (by omega)
    rw [stringAtoms_of_string?_eq_none rfl, children, stringAtoms_map_snd]
    exact hmessages.cons word rfl

end Nested

/-- The strings among the tokens of an expression are those in its tree. -/
theorem Expression.hasStrings {e : Expr} (h : Expression ts e rest) : HasStrings ts (stringAtoms [e]) rest := by
  have hbounded : ∀ n ts e rest, ts.length < n → Expression ts e rest → HasStrings ts (stringAtoms [e]) rest := by
    intro n
    induction n with
    | zero => exact fun _ _ _ hn => absurd hn (Nat.not_lt_zero _)
    | succ n ih => exact fun _ _ _ hn h => h.hasStrings_of_le ih (by omega)
  exact hbounded _ _ _ _ (Nat.lt_succ_self _) h

theorem BodyPhrase.hasStrings {b : Body} (h : BodyPhrase ts b rest) :
    HasStrings ts (stringAtoms b.statements) rest :=
  h.hasStrings_of_lt (fun _ _ _ _ => Expression.hasStrings) (Nat.lt_succ_self _)

/-! ### Definitions -/

theorem MethodHeader.hasStrings {header : Ident × List Ident} (h : MethodHeader ts header rest) :
    HasStrings ts [] rest := by
  cases h with
  | unary token => exact HasStrings.refl.cons token rfl
  | binary operator param => exact param.hasStrings.cons rfl operator.string?_eq_none
  | keyword words =>
    refine words.hasStrings_nil fun _ _ _ word => ?_
    cases word with
    | mk token name => exact name.hasStrings.cons token rfl

theorem MethodBlock.hasStrings {b : MethodBody} (h : MethodBlock ts b rest) :
    HasStrings ts (stringAtoms b.statements) rest := by
  cases h with
  | code opening body closing => exact (body.hasStrings.tail closing rfl).cons opening rfl
  | primitive hopening word symbol hclosing =>
    rw [MethodBody.statements, stringAtoms_nil]
    exact (((HasStrings.refl.cons hclosing rfl).cons symbol rfl).cons word rfl).cons hopening rfl

theorem Member.hasStrings {m : MethodDef} (h : Member ts m rest) :
    HasStrings ts (stringAtoms m.body.statements) rest := by
  cases h with
  | instanceSide head block => exact head.hasStrings.trans block.hasStrings
  | classSide word head block => exact (head.hasStrings.trans block.hasStrings).cons word rfl

theorem ClassPhrase.hasStrings {d : ClassDef} (h : ClassPhrase ts d rest) :
    HasStrings ts (d.methods.flatMap fun m => stringAtoms m.body.statements) rest := by
  cases h with
  | @mk head t name opening closing us vs _ _ _ _ _ superclass word symbol hopening fields bar members hclosing =>
    have hhead : head.kind.string? = none := by
      cases superclass with
      | name token | none token =>
        rw [token]
        rfl
    have hmembers := members.hasStrings (fun _ _ _ _ => Member.hasStrings) (fun _ _ _ => Member.leaves) le_rfl
    have hbody := fields.hasStrings.trans (hmembers.tail hclosing rfl)
    exact (((hbody.cons hopening rfl).cons symbol rfl).cons word rfl).cons rfl hhead

end Strings

end Grammar

/-! ## Units -/

/-- Comments are no strings. -/
theorem stringsIn_filter_isComment (ts : List Token) : stringsIn (ts.filter (!·.isComment)) = stringsIn ts := by
  rw [stringsIn, List.filterMap_filter]
  refine List.filterMap_congr fun t _ => ?_
  unfold Token.isComment
  split
  · next hcomment =>
    rw [hcomment]
    rfl
  · rfl

theorem stringAtoms_statementsOfClasses (classes : List ClassDef) :
    Expr.stringAtoms (statementsOfClasses classes)
      = classes.flatMap fun d => d.methods.flatMap fun m => Expr.stringAtoms m.body.statements := by
  rw [statementsOfClasses, Expr.stringAtoms_flatMap]
  exact List.flatMap_congr fun d _ => Expr.stringAtoms_flatMap _ _

/-- The strings of a text that can be read are those of its trees, in the same order. -/
theorem SourceUnit.stringsIn_tokens {source : String} {u : SourceUnit} (h : SourceUnit.ofSource source = .ok u) :
    stringsIn (tokens source) = Expr.stringAtoms u.statements := by
  obtain ⟨us, hclasses, hmain, -⟩ := phrases_of_ofSource h
  obtain ⟨read, htokens, -⟩ := (laidOut_tokens source).eq_append_finish
  have hread : stringsIn (Cursor.ofTokens (tokens source)).tokens = stringsIn (tokens source) := by
    rw [htokens, Cursor.ofTokens_filter rfl, stringsIn, List.filterMap_append, stringsIn, List.filterMap_append]
    exact congrArg (· ++ _) (stringsIn_filter_isComment read)
  have hunit := (hclasses.hasStrings (fun _ _ _ _ => ClassPhrase.hasStrings) (fun _ _ _ => ClassPhrase.leaves)
    le_rfl).trans hmain.hasStrings
  have hbare : ∀ d : ClassDef, (d.bare.methods.flatMap fun m => Expr.stringAtoms m.body.statements)
      = d.methods.flatMap fun m => Expr.stringAtoms m.body.statements := by
    intro d
    rw [ClassDef.bare, List.flatMap_map]
    refine List.flatMap_congr fun m _ => ?_
    rw [MethodDef.bare, MethodBody.statements_bare, Expr.stringAtoms_bare]
  have hstrings := hread.symm.trans hunit
  rw [List.flatMap_map, List.flatMap_congr fun d _ => hbare d, Body.bare, Expr.stringAtoms_bare] at hstrings
  rw [hstrings, SourceUnit.statements, Expr.stringAtoms_append, stringAtoms_statementsOfClasses]
  exact List.append_nil _

end Smalltalk
