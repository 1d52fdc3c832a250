import Mathlib
import Smalltalk.Proofs.Acceptance
import Smalltalk.Proofs.Respacing

/-!
# Integer literals

An integer literal denotes the number that its digits spell, or it is refused: no literal is cut off to fit.
The tokens refuse bases and digits that cannot be and numbers beyond 64 bits, and the reader refuses what is
left beyond 32 bits, once it knows the sign.
-/

namespace Smalltalk

open Text

/-! ## Digits -/

/-- The number that a digit stands for: its place among the digits, where letters of both cases count alike. -/
def digitRank (c : Char) : Nat := "0123456789abcdefghijklmnopqrstuvwxyz".toList.idxOf c.toLower

/-- The number that a row of digits spells in a base. -/
def numberOf (base : Nat) (digits : List Char) : Nat := Nat.ofDigits base (digits.map digitRank).reverse

theorem toNat_lt_of_isAlphanum {c : Char} (h : c.isAlphanum) : c.toNat < 128 := by
  simp only [Char.isAlphanum, Char.isAlpha, Char.isUpper, Char.isLower, Char.isDigit, Bool.or_eq_true,
    Bool.and_eq_true, decide_eq_true_eq, UInt32.le_iff_toNat_le, ge_iff_le] at h
  have hupper : 'Z'.val.toNat = 90 := rfl
  have hlower : 'z'.val.toNat = 122 := rfl
  have hdigit : '9'.val.toNat = 57 := rfl
  show c.val.toNat < 128
  omega

/-- What holds of all ASCII characters holds of all digits and letters. -/
theorem of_forall_ascii {P : Char → Prop} (h : ∀ n < 128, P (Char.ofNat n)) {c : Char} (hc : c.isAlphanum) :
    P c := by
  have hp := h c.toNat (toNat_lt_of_isAlphanum hc)
  rwa [Char.ofNat_toNat] at hp

theorem digitValue_eq_digitRank {c : Char} (h : c.isAlphanum) : digitValue c = digitRank c :=
  of_forall_ascii (P := fun c => c.isAlphanum → digitValue c = digitRank c) (by decide +kernel) h h

theorem digitRank_lt_ten {c : Char} (h : c.isDigit) : digitRank c < 10 :=
  of_forall_ascii (P := fun c => c.isDigit → digitRank c < 10) (by decide +kernel) (by simp [Char.isAlphanum, h]) h

theorem ofDigits_eq_numberOf (base : Nat) {digits : List Char} (h : ∀ d ∈ digits, d.isAlphanum) :
    ofDigits base digits = numberOf base digits := by
  have hvalues : digits.map digitRank = digits.map digitValue :=
    List.map_congr_left fun d hd => (digitValue_eq_digitRank (h d hd)).symm
  rw [numberOf, hvalues, Nat.ofDigits_eq_foldr, List.foldr_reverse, List.foldl_map, ofDigits]
  congr 1
  funext n c
  show n * base + digitValue c = digitValue c + base * n
  ring

theorem isAlphanum_of_isDigit {digits : List Char} (h : ∀ d ∈ digits, d.isDigit) : ∀ d ∈ digits, d.isAlphanum :=
  fun d hd => by simp [Char.isAlphanum, h d hd]

/-! ## Literals -/

/-- An integer literal without a sign. -/
inductive Numeral where
  /-- Digits in base ten. -/
  | decimal (digits : List Char) (digits_ne_nil : digits ≠ []) (digits_isDigit : ∀ d ∈ digits, d.isDigit)
  /-- Digits and letters, in a base that is spelled before them in base ten. -/
  | based (base digits : List Char) (base_ne_nil : base ≠ []) (base_isDigit : ∀ d ∈ base, d.isDigit)
    (digits_ne_nil : digits ≠ []) (digits_isAlphanum : ∀ d ∈ digits, d.isAlphanum)

namespace Numeral

/-- The characters of a literal. -/
def text : Numeral → List Char
  | decimal digits _ _ => digits
  | based base digits _ _ _ _ => base ++ 'r' :: digits

/-- The base of a literal. -/
def base : Numeral → Nat
  | decimal _ _ _ => 10
  | based base _ _ _ _ _ => numberOf 10 base

/-- The digits of a literal. -/
def digits : Numeral → List Char
  | decimal digits _ _ | based _ digits _ _ _ _ => digits

/-- The number that a literal denotes, if it does. -/
def value (m : Numeral) : Nat := numberOf m.base m.digits

/-- Whether the base of a literal can be, and all its digits can be in that base. -/
def IsSound (m : Numeral) : Prop := (2 ≤ m.base ∧ m.base ≤ 36) ∧ ∀ d ∈ m.digits, digitRank d < m.base

instance (m : Numeral) : Decidable m.IsSound :=
  @instDecidableAnd _ _ (inferInstanceAs (Decidable (_ ∧ _))) (List.decidableBAll _ m.digits)

theorem isSound_decimal {digits : List Char} (hne : digits ≠ []) (hdigits : ∀ d ∈ digits, d.isDigit) :
    (decimal digits hne hdigits).IsSound :=
  ⟨⟨show 2 ≤ 10 by decide, show 10 ≤ 36 by decide⟩, fun d hd => digitRank_lt_ten (hdigits d hd)⟩

end Numeral

/-- A text that is a single integer literal: perhaps a minus sign, blanks, and digits. -/
structure IntegerLiteral where
  /-- Whether there is a minus sign. -/
  negative : Bool
  /-- What stands before the digits. -/
  gap : List Char
  /-- The digits. -/
  numeral : Numeral
  isBlank_gap : ∀ d ∈ gap, isBlank d

namespace IntegerLiteral

/-- The characters of a literal. -/
def text (l : IntegerLiteral) : String :=
  String.ofList ((if l.negative then ['-'] else []) ++ (l.gap ++ l.numeral.text))

/-- What the sign of a literal does to a number. -/
def sign (l : IntegerLiteral) : Int → Int := if l.negative then Neg.neg else id

/-- The number that a literal denotes, if it does. -/
def value (l : IntegerLiteral) : Int := l.sign l.numeral.value

/-- Whether a literal denotes a number of 32 bits. -/
def IsWord (l : IntegerLiteral) : Prop := l.numeral.IsSound ∧ -2 ^ 31 ≤ l.value ∧ l.value ≤ 2 ^ 31 - 1

instance (l : IntegerLiteral) : Decidable l.IsWord := inferInstanceAs (Decidable (_ ∧ _))

end IntegerLiteral

/-! ## Tokens -/

/-- A digit starts a number, and nothing else. -/
theorem scan_of_isDigit {c : Char} (h : c.isDigit) :
    scan c = .number c ∧ isBlank c = false ∧ isOperatorChar c = false := by
  have hascii := of_forall_ascii
    (P := fun c => c.isDigit → (Punctuation.ofChar? c = none ∧ c ≠ '"' ∧ c ≠ '\'' ∧ c ≠ '$' ∧ c ≠ '#' ∧ c ≠ ':') ∧
      isBlank c = false ∧ isOperatorChar c = false) (by decide +kernel) (by simp [Char.isAlphanum, h]) h
  obtain ⟨⟨hmark, hcomment, hstring, hcharacter, hsymbol, hcolon⟩, hrest⟩ := hascii
  exact ⟨funext fun cs => by simp only [scan, *, if_true, if_false], hrest⟩

theorem Scans.cons {c : Char} {cs : List Char} {ts : List Token} (hstart : ¬ isBlank c)
    (h : Scans (scan c cs).rest ts) :
    Scans (c :: cs) (⟨(scan c cs).kind, {}, String.ofList (scan c cs).text⟩ :: ts) :=
  .token (List.forall_mem_nil _) hstart h

namespace Numeral

/-- Whether a literal without a sign is an integer token. -/
def IsToken (m : Numeral) : Prop := m.IsSound ∧ m.value ≤ maxInteger

/-- A scan takes all of a literal as one integer token, or it finds malformed text. -/
structure ScannedAs (m : Numeral) (scanned : Scanned) : Prop where
  integer : m.IsToken → scanned.kind = .integer m.value ∧ scanned.rest = []
  error : ¬ m.IsToken → scanned.kind.isError

theorem scannedAs_decimal {c : Char} {cs : List Char} (h : ∀ d ∈ c :: cs, d.isDigit) :
    (decimal (c :: cs) (List.cons_ne_nil c cs) h).ScannedAs (.number c cs) := by
  have hnumber := @Scanned.number_of_decimal c cs [] (List.forall_mem_cons.mp h).2 (by simp)
  have hvalue := ofDigits_eq_numberOf 10 (isAlphanum_of_isDigit h)
  rw [List.append_nil, Scanned.decimal] at hnumber
  simp only [Scanned.fraction, Scanned.exponent, List.isEmpty_nil, Bool.and_self, if_true, hvalue] at hnumber
  rw [hnumber]
  constructor
  · intro htoken
    exact ⟨if_pos htoken.2, rfl⟩
  · intro htoken
    have hlarge : ¬ numberOf 10 (c :: cs) ≤ maxInteger := fun hle => htoken ⟨isSound_decimal _ h, hle⟩
    rw [if_neg hlarge]
    rfl

theorem scannedAs_based {c d : Char} {bs ds : List Char} (hbase : ∀ b ∈ c :: bs, b.isDigit)
    (hdigits : ∀ a ∈ d :: ds, a.isAlphanum) :
    (based (c :: bs) (d :: ds) (List.cons_ne_nil c bs) hbase (List.cons_ne_nil d ds) hdigits).ScannedAs
      (.number c (bs ++ 'r' :: d :: ds)) := by
  have hvalue := ofDigits_eq_numberOf 10 (isAlphanum_of_isDigit hbase)
  rw [Scanned.number_of_base (List.forall_mem_cons.mp hbase).2 (hdigits d List.mem_cons_self)]
  by_cases hrange : 2 ≤ numberOf 10 (c :: bs) ∧ numberOf 10 (c :: bs) ≤ 36
  · have hradix := @Scanned.radix_of_base (c :: bs) (d :: ds) [] (hvalue ▸ hrange) hdigits (by simp)
    rw [List.append_nil, hvalue, Scanned.radixKind, ofDigits_eq_numberOf _ hdigits] at hradix
    have hkind : ((d :: ds).all (digitValue · < numberOf 10 (c :: bs))
        && numberOf (numberOf 10 (c :: bs)) (d :: ds) ≤ maxInteger) = true ↔
        (based (c :: bs) (d :: ds) (List.cons_ne_nil c bs) hbase (List.cons_ne_nil d ds) hdigits).IsToken := by
      have hall : (∀ a ∈ d :: ds, decide (digitValue a < numberOf 10 (c :: bs)) = true) ↔
          ∀ a ∈ d :: ds, digitRank a < numberOf 10 (c :: bs) :=
        forall₂_congr fun a ha => by rw [decide_eq_true_eq, digitValue_eq_digitRank (hdigits a ha)]
      rw [Bool.and_eq_true, List.all_eq_true, hall, decide_eq_true_eq]
      exact ⟨fun h => ⟨⟨hrange, h.1⟩, h.2⟩, fun h => ⟨h.1.2, h.2⟩⟩
    rw [hradix]
    constructor
    · intro htoken
      exact ⟨if_pos (hkind.mpr htoken), rfl⟩
    · intro htoken
      rw [if_neg (mt hkind.mp htoken)]
      rfl
  · rw [Scanned.radix_of_bad_base (hvalue ▸ hrange)]
    exact ⟨fun htoken => absurd htoken.1.1 hrange, fun _ => rfl⟩

/-- A literal is the only token of its text, or its text starts with a malformed one. -/
theorem exists_scans (m : Numeral) :
    (m.IsToken ∧ ∃ lexeme, Scans m.text [⟨.integer m.value, {}, lexeme⟩, .finish {}]) ∨
      (¬ m.IsToken ∧ ∃ t ts, t.isError ∧ Scans m.text (t :: ts)) := by
  have htext : ∃ c cs, m.text = c :: cs ∧ c.isDigit ∧ m.ScannedAs (.number c cs) := by
    cases m with
    | decimal digits hne hdigits =>
      obtain ⟨c, cs, rfl⟩ := List.exists_cons_of_ne_nil hne
      exact ⟨c, cs, rfl, hdigits c List.mem_cons_self, scannedAs_decimal hdigits⟩
    | based base digits hbase_ne hbase hne hdigits =>
      obtain ⟨c, bs, rfl⟩ := List.exists_cons_of_ne_nil hbase_ne
      obtain ⟨d, ds, rfl⟩ := List.exists_cons_of_ne_nil hne
      exact ⟨c, bs ++ 'r' :: d :: ds, rfl, hbase c List.mem_cons_self, scannedAs_based hbase hdigits⟩
  obtain ⟨c, cs, htext, hc, hscanned⟩ := htext
  obtain ⟨hscan, hblank, -⟩ := scan_of_isDigit hc
  have hblank : ¬ isBlank c := by simp [hblank]
  rw [← hscan] at hscanned
  rw [htext]
  by_cases htoken : m.IsToken
  · obtain ⟨hkind, hrest⟩ := hscanned.integer htoken
    have hfinish : Scans (scan c cs).rest [.finish {}] := hrest ▸ .finish (by simp)
    have hscans := hfinish.cons hblank
    rw [hkind] at hscans
    exact .inl ⟨htoken, _, hscans⟩
  · obtain ⟨ts, hts⟩ := Smalltalk.exists_scans (scan c cs).rest
    have herror : Token.isError ⟨(scan c cs).kind, {}, String.ofList (scan c cs).text⟩ := hscanned.error htoken
    exact .inr ⟨htoken, _, ts, herror, hts.cons hblank⟩

end Numeral

/-- A minus sign is a token of its own if no other character of an operator follows. -/
theorem Scans.minus {cs : List Char} {ts : List Token} (h : Scans cs ts)
    (hstop : ∀ d ∈ cs.head?, ¬ isOperatorChar d) : Scans ('-' :: cs) (⟨.operator "-", {}, "-"⟩ :: ts) := by
  have hscan : scan '-' cs = ⟨.operator "-", ['-'], cs⟩ := by
    have htake : cs.takeWhile isOperatorChar = [] := takeWhile_append_stop (List.forall_mem_nil _) hstop
    have hdrop : cs.dropWhile isOperatorChar = cs := dropWhile_append_stop (List.forall_mem_nil _) hstop
    show Scanned.operator '-' cs = _
    rw [Scanned.operator, htake, hdrop]
  have hcons := @Scans.cons '-' cs ts (by decide) (hscan ▸ h)
  rw [hscan] at hcons
  exact hcons

/-! ## Reading -/

namespace ReadM

/-- Whether a token is a number, an operator or malformed text. -/
def opensNumber : TokenKind → Bool
  | .integer _ | .operator _ | .error _ => true
  | _ => false

variable {n : Nat} {c c' : Cursor}

theorem not_isAt_of_opensNumber (h : opensNumber c.current.kind) (mark : Punctuation) : c.isAt mark = false := by
  refine decide_eq_false fun hmark => ?_
  rw [hmark] at h
  cases h

/-- An expression that starts with no `super` starts with a primary one. -/
theorem exists_primaryRead_of_expressionWithin {e : Expr} (h : expressionWithin n c = .ok e c')
    (hsuper : c.current.kind ≠ .reserved .superWord) : ∃ e c', PrimaryRead n (expressionAt n n) c e c' := by
  have hoperand : ∃ operand c', UnaryOperandRead n (expressionAt n n) c operand c' := by
    cases expressionWith_eq_ok_iff.mp h with
    | plain head | keywords head =>
      cases head with
      | mk head => exact ⟨_, _, head⟩
  obtain ⟨operand, c₁, hread⟩ := hoperand
  cases hread with
  | super word => exact absurd word hsuper
  | primary head => exact ⟨_, _, head⟩

theorem exists_primaryRead_of_statementRead {e : Expr} (hopens : opensNumber c.current.kind)
    (h : StatementRead (expressionWithin n) c e c') : ∃ e c', PrimaryRead n (expressionAt n n) c e c' := by
  cases h with
  | ret caret =>
    rw [not_isAt_of_opensNumber hopens] at caret
    cases caret
  | assign target =>
    rw [target] at hopens
    cases hopens
  | expression value =>
    refine exists_primaryRead_of_expressionWithin value fun hsuper => ?_
    rw [hsuper] at hopens
    cases hopens

theorem DotsPassed.eq_of_not_isAt (h : DotsPassed n c c') (hdot : c.isAt .dot = false) : c' = c := by
  cases h with
  | stop => rfl
  | dot dot =>
    rw [hdot] at dot
    cases dot

/-- A body that starts with a number, an operator or malformed text starts with a statement: neither bars nor
dots come before it. -/
theorem exists_statementRead_of_bodyRead {inner : ReadM Expr} {b : Body} (hn : 0 < n)
    (hopens : opensNumber c.current.kind) (h : BodyRead n inner .finish c b c') :
    ∃ e c', StatementRead inner c e c' := by
  have hmark := not_isAt_of_opensNumber hopens
  cases h with
  | mk locals statements =>
    cases locals with
    | some opening =>
      rw [hmark] at opening
      cases opening
    | none =>
      cases statements with
      | out => exact absurd hn (Nat.lt_irrefl 0)
      | finish dots atEnd =>
        obtain rfl := dots.eq_of_not_isAt (hmark .dot)
        rw [of_decide_eq_true atEnd] at hopens
        cases hopens
      | last dots head | cons dots head =>
        obtain rfl := dots.eq_of_not_isAt (hmark .dot)
        exact ⟨_, _, head⟩

/-- A token that is malformed, or a number beyond 32 bits once `sign` has been applied to it. -/
def IsRefused (sign : Int → Int) (kind : TokenKind) : Prop :=
  kind.isError ∨ ∃ v, kind = .integer v ∧ ¬ Grammar.IsWord (sign v)

theorem IsRefused.opensNumber {sign : Int → Int} {kind : TokenKind} (h : IsRefused sign kind) :
    opensNumber kind := by
  obtain herror | ⟨v, rfl, -⟩ := h
  · cases kind with
    | error message => rfl
    | _ => cases herror
  · rfl

theorem IsRefused.not_standsFor {kind : TokenKind} {value : Atom} (h : IsRefused id kind) :
    ¬ StandsFor kind value := by
  intro hvalue
  obtain herror | ⟨v, rfl, hword⟩ := h
  · cases hvalue <;> cases herror
  · cases hvalue with
    | integer word => exact hword word

theorem IsRefused.not_standsForNegative {kind : TokenKind} {value : Atom} (h : IsRefused Neg.neg kind) :
    ¬ StandsForNegative kind value := by
  intro hvalue
  obtain herror | ⟨v, rfl, hword⟩ := h
  · cases hvalue <;> cases herror
  · cases hvalue with
    | integer word => exact hword word

/-- What starts with a number, an operator or malformed text can only be a literal. -/
theorem PrimaryRead.literal_cases {inner : ReadM Expr} {e : Expr} (hopens : opensNumber c.current.kind)
    (h : PrimaryRead n inner c e c') :
    (∃ value, StandsFor c.current.kind value) ∨
      c.current.kind = .operator "-" ∧ ∃ value, StandsForNegative c.next.current.kind value := by
  cases h with
  | literal token => exact .inl ⟨_, token⟩
  | negative minus number => exact .inr ⟨minus, _, number⟩
  | name token =>
    rw [token] at hopens
    cases hopens
  | parentheses opening | block opening | array opening =>
    rw [not_isAt_of_opensNumber hopens] at opening
    cases opening

/-- A number that needs more than 32 bits is refused, and so is malformed text. -/
theorem not_primaryRead {inner : ReadM Expr} {e : Expr} (hkind : IsRefused id c.current.kind) :
    ¬ PrimaryRead n inner c e c' := by
  intro h
  rcases h.literal_cases hkind.opensNumber with ⟨value, hvalue⟩ | ⟨hminus, -⟩
  · exact hkind.not_standsFor hvalue
  · rw [hminus] at hkind
    obtain herror | ⟨v, hv, -⟩ := hkind
    · cases herror
    · cases hv

/-- The same holds after a minus sign, which counts for the number. -/
theorem not_primaryRead_minus {inner : ReadM Expr} {e : Expr} (hminus : c.current.kind = .operator "-")
    (hkind : IsRefused Neg.neg c.next.current.kind) : ¬ PrimaryRead n inner c e c' := by
  intro h
  rcases h.literal_cases (by rw [hminus]; rfl) with ⟨value, hvalue⟩ | ⟨-, value, hvalue⟩
  · rw [hminus] at hvalue
    cases hvalue
  · exact hkind.not_standsForNegative hvalue

end ReadM

/-! ## Whole texts -/

/-- Tokens other than comments are read as they are, whatever follows. -/
theorem Cursor.exists_ofTokens_append {front ts : List Token} (hne : front ≠ [])
    (hfront : ∀ t ∈ front, t.isComment = false) : ∃ rest, Cursor.ofTokens (front ++ ts) = ⟨front ++ rest, 0⟩ := by
  have hkept : (front ++ ts).filter (!·.isComment) = front ++ ts.filter (!·.isComment) := by
    rw [List.filter_append, List.filter_eq_self.mpr fun t ht => by simp [hfront t ht]]
  rw [Cursor.ofTokens, hkept]
  cases hlast : (front ++ ts.filter (!·.isComment)).getLast? with
  | none => exact absurd (List.append_eq_nil_iff.mp (List.getLast?_eq_none_iff.mp hlast)).1 hne
  | some last =>
    dsimp only
    split
    · exact ⟨_, rfl⟩
    · exact ⟨_, by rw [List.append_assoc]⟩

theorem not_startsClass_of_opensNumber {t : Token} (h : ReadM.opensNumber t.kind) (ts : List Token) :
    ¬ Grammar.StartsClass (t :: ts) := by
  rintro ⟨head, _, _, heq, hhead, -⟩
  obtain rfl := (List.cons.inj heq).1
  obtain ⟨x, hx⟩ | hx := hhead <;> rw [hx] at h <;> cases h

theorem plain_of_opensNumber {t : Token} (h : ReadM.opensNumber t.kind) :
    t.isComment = false ∧ t.kind ≠ .endOfInput := by
  obtain ⟨kind, span, lexeme⟩ := t
  cases kind with
  | integer | operator | error => exact ⟨rfl, TokenKind.noConfusion⟩
  | _ => cases h

/-- If the first expression of a text is refused, reading the text stops there with a single error. -/
theorem SourceUnit.exists_error_ofTokens {t : Token} {front ts : List Token}
    (hfront : ∀ t' ∈ t :: front, ReadM.opensNumber t'.kind)
    (hprimary : ∀ n inner rest e c', ¬ ReadM.PrimaryRead n inner ⟨t :: front ++ rest, 0⟩ e c') :
    ∃ e, SourceUnit.ofTokens (t :: front ++ ts) = .error [e] := by
  have hopens := hfront t List.mem_cons_self
  obtain ⟨rest, hcursor⟩ := @Cursor.exists_ofTokens_append (t :: front) ts (List.cons_ne_nil t front)
    fun t' ht' => (plain_of_opensNumber (hfront t' ht')).1
  have hclass := not_startsClass_of_opensNumber hopens (front ++ rest)
  rw [SourceUnit.ofTokens, hcursor, SourceUnit.ofCursor]
  simp only [readClasses_of_not_startsClass (r := { cursor := ⟨t :: front ++ rest, 0⟩ }) hclass]
  cases hbody : ReadM.body (t :: front ++ rest).length (ReadM.expressionWithin (t :: front ++ rest).length) .finish
      ⟨t :: front ++ rest, 0⟩ with
  | error e cursor => exact ⟨e, rfl⟩
  | ok b cursor =>
    have hcurrent : ReadM.opensNumber (Cursor.mk (t :: front ++ rest) 0).current.kind := hopens
    obtain ⟨e, c₁, hstatement⟩ :=
      ReadM.exists_statementRead_of_bodyRead (by simp) hcurrent (ReadM.body_eq_ok_iff.mp hbody)
    obtain ⟨e, c₂, hread⟩ := ReadM.exists_primaryRead_of_statementRead hcurrent hstatement
    exact absurd hread (hprimary _ _ _ _ _)

/-- A unit is nothing but a number. -/
def SourceUnit.IsInteger (u : SourceUnit) (v : Int) : Prop :=
  u.classes = [] ∧ u.main.locals = [] ∧ ∃ info w, u.main.statements = [.atom info (.integer w)] ∧ w.toInt = v

/-- A text that is a literal of the grammar is read as that number. -/
theorem SourceUnit.exists_isInteger_of_literal {t finish : Token} {front : List Token} {v : Int}
    (hfinish : finish.kind = .endOfInput) (hfront : ∀ t' ∈ t :: front, ReadM.opensNumber t'.kind)
    (hword : Grammar.IsWord v)
    (h : Grammar.Literal (t :: front ++ [finish]) (.integer (Int32.ofInt v)) [finish]) :
    ∃ u, SourceUnit.ofTokens (t :: front ++ [finish]) = .ok u ∧ u.IsInteger v := by
  have hphrase : Grammar.BodyPhrase (t :: front ++ [finish]) ⟨[], [.atom .none (.integer (Int32.ofInt v))]⟩ [finish] :=
    .mk .none (.last (.expression (.plain (.plain (.plain (.literal h) .nil) .nil))))
  have hclass := not_startsClass_of_opensNumber (hfront t List.mem_cons_self) (front ++ [finish])
  have hplain : ∀ t' ∈ t :: front, t'.isComment = false ∧ t'.kind ≠ .endOfInput := fun t' ht' =>
    plain_of_opensNumber (hfront t' ht')
  obtain ⟨main, cursor, hmain, hbare⟩ :=
    (@bodyPhrase_iff_body (t :: front) finish hfinish (fun t' ht' => (hplain t' ht').2) 0 _).mp hphrase
  refine ⟨_, (ofTokens_eq_ok_iff hfinish (fun t' ht' => (hplain t' ht').1) hclass).mpr
    ⟨main, cursor, hmain, rfl⟩, rfl, ?_⟩
  obtain ⟨locals, statements⟩ := main
  obtain ⟨hlocals, hstatements⟩ := Body.mk.inj hbare
  refine ⟨List.map_eq_nil_iff.mp hlocals, ?_⟩
  obtain ⟨e, rfl, he⟩ := List.map_eq_singleton_iff.mp hstatements
  cases e with
  | atom info value =>
    obtain rfl : value = .integer (Int32.ofInt v) := (Expr.atom.inj he).2
    have hrange : -2 ^ 31 ≤ v ∧ v < 2 ^ 31 := ⟨hword.1, by have := hword.2; omega⟩
    exact ⟨info, _, rfl, Int32.toInt_ofInt_of_le hrange.1 hrange.2⟩
  | _ => simp [Expr.bare] at he

/-! ## Integer tokens -/

/-- Whether a token is no integer, or one that 63 bits can hold. -/
def TokenKind.HoldsInteger : TokenKind → Prop
  | .integer v => 0 ≤ v ∧ v < 2 ^ 63
  | _ => True

namespace Scanned

theorem holdsInteger_natCast {v : Nat} (h : v ≤ maxInteger) : (TokenKind.integer v).HoldsInteger := by
  unfold maxInteger at h
  exact ⟨Int.natCast_nonneg v, by omega⟩

theorem holdsInteger_radix (base cs : List Char) : (radix base cs).kind.HoldsInteger := by
  simp only [radix]
  split
  · trivial
  · dsimp only
    split
    · next h => exact holdsInteger_natCast (of_decide_eq_true (Bool.and_eq_true_iff.mp h).2)
    · trivial

theorem holdsInteger_decimal (whole cs : List Char) : (decimal whole cs).kind.HoldsInteger := by
  simp only [decimal]
  split
  · dsimp only
    split
    · next h => exact holdsInteger_natCast h
    · trivial
  · trivial

theorem holdsInteger_number (c : Char) (cs : List Char) : (number c cs).kind.HoldsInteger := by
  obtain ⟨d, after, -, -, hnumber⟩ | hnumber := number_cases c cs
  · rw [hnumber]
    exact holdsInteger_radix _ _
  · rw [hnumber]
    exact holdsInteger_decimal _ _

theorem holdsInteger_stringFrom (value text cs : List Char) : (stringFrom value text cs).kind.HoldsInteger := by
  fun_induction stringFrom value text cs with
  | case1 value text cs ih => exact ih
  | case2 => trivial
  | case3 value text c cs _ _ ih => exact ih
  | case4 => trivial

theorem holdsInteger_word (c : Char) (cs : List Char) : (word c cs).kind.HoldsInteger := by
  simp only [word]
  split
  · split <;> trivial
  · trivial
  · split <;> trivial

end Scanned

theorem holdsInteger_scan (c : Char) (cs : List Char) : (scan c cs).kind.HoldsInteger := by
  unfold scan
  split
  · trivial
  · split_ifs
    · rw [Scanned.comment]
      split <;> trivial
    · exact Scanned.holdsInteger_stringFrom _ _ _
    · cases cs <;> trivial
    · rw [Scanned.symbol]
      split <;> trivial
    · cases cs with
      | nil => trivial
      | cons d cs =>
        rw [Scanned.colon]
        split_ifs <;> trivial
    · exact Scanned.holdsInteger_number c cs
    · exact Scanned.holdsInteger_word c cs
    · trivial
    · trivial

theorem Scans.holdsInteger {cs : List Char} {ts : List Token} (h : Scans cs ts) :
    ∀ t ∈ ts, t.kind.HoldsInteger := by
  induction h with
  | finish blank => exact List.forall_mem_singleton.mpr trivial
  | token blank start rest ih => exact List.forall_mem_cons.mpr ⟨holdsInteger_scan _ _, ih⟩

theorem mem_tokens_integer {source : String} {t : Token} {v : Int} (ht : t ∈ tokens source)
    (hkind : t.kind = .integer v) : 0 ≤ v ∧ v < 2 ^ 63 := by
  have hholds := (scans_iff.mpr rfl).holdsInteger t.unplaced (List.mem_map_of_mem ht)
  have hunplaced : t.unplaced.kind = .integer v := hkind
  rwa [hunplaced] at hholds

/-! ## Integer literals as whole texts -/

theorem Numeral.not_isOperatorChar_head (m : Numeral) : ∀ d ∈ m.text.head?, ¬ isOperatorChar d := by
  have hhead : ∀ d ∈ m.text.head?, d.isDigit := by
    cases m with
    | decimal digits hne hdigits => exact fun d hd => hdigits d (List.mem_of_head? hd)
    | based base digits hbase_ne hbase hne hdigits =>
      obtain ⟨c, bs, rfl⟩ := List.exists_cons_of_ne_nil hbase_ne
      exact fun d hd => hbase d (List.mem_of_head? hd)
  exact fun d hd => by simp [(scan_of_isDigit (hhead d hd)).2.2]

theorem not_isOperatorChar_of_isBlank {d : Char} (h : isBlank d) : ¬ isOperatorChar d := by
  have hoperators : "+-*/\\<>=~,@%&?!".toList.all (!isBlank ·) = true := by decide +kernel
  intro hoperator
  have hblank := List.all_eq_true.mp hoperators d (List.contains_iff_mem.mp hoperator)
  simp [h] at hblank

namespace IntegerLiteral

variable {l : IntegerLiteral}

/-- The tokens of a literal are its sign, if it has one, and those of its digits. -/
theorem map_unplaced_tokens {ts : List Token} (h : Scans l.numeral.text ts) :
    (tokens l.text).map Token.unplaced = (if l.negative then [⟨.operator "-", {}, "-"⟩] else []) ++ ts := by
  have hgap : Scans (l.gap ++ l.numeral.text) ts := h.blank_append l.isBlank_gap
  rw [← scans_iff, text, String.toList_ofList]
  split
  · refine hgap.minus (Scanned.forall_mem_head?_append ?_ l.numeral.not_isOperatorChar_head)
    exact fun d hd => not_isOperatorChar_of_isBlank (l.isBlank_gap d (List.mem_of_head? hd))
  · exact hgap

theorem IsWord.isToken (h : l.IsWord) : l.numeral.IsToken := by
  obtain ⟨hsound, hleast, hgreatest⟩ := h
  refine ⟨hsound, ?_⟩
  have hvalue : l.value = l.numeral.value ∨ l.value = -l.numeral.value := by
    rw [value, sign]
    split
    · exact .inr rfl
    · exact .inl rfl
  unfold maxInteger
  omega

theorem isWord_iff (h : l.numeral.IsToken) : l.IsWord ↔ Grammar.IsWord l.value := by
  have hrange : -2 ^ 31 ≤ l.value ∧ l.value ≤ 2 ^ 31 - 1 ↔ Grammar.IsWord l.value := by
    rw [Grammar.IsWord]
    norm_num
  rw [IsWord, hrange]
  exact and_iff_right h.1

theorem exists_isInteger (h : l.IsWord) : ∃ u, SourceUnit.ofSource l.text = .ok u ∧ u.IsInteger l.value := by
  have hword := (isWord_iff h.isToken).mp h
  obtain ⟨-, lexeme, hscans⟩ | ⟨hnot, -⟩ := l.numeral.exists_scans
  · have htokens := map_unplaced_tokens hscans
    rw [value, sign] at hword ⊢
    rw [SourceUnit.ofSource]
    generalize tokens l.text = ts at htokens
    generalize (l.numeral.value : Int) = v at htokens hword
    cases hsign : l.negative with
    | false =>
      rw [hsign] at htokens hword
      obtain ⟨t, _, rfl, ht, htokens⟩ := List.map_eq_cons_iff.mp htokens
      obtain ⟨finish, rfl, hfinish⟩ := List.map_eq_singleton_iff.mp htokens
      have hkind : t.kind = .integer v := congrArg Token.kind ht
      exact @SourceUnit.exists_isInteger_of_literal t finish [] v (congrArg Token.kind hfinish)
        (List.forall_mem_singleton.mpr (by rw [hkind]; rfl)) hword (.integer hkind hword)
    | true =>
      rw [hsign] at htokens hword
      obtain ⟨minus, _, rfl, hminus, htokens⟩ := List.map_eq_cons_iff.mp htokens
      obtain ⟨t, _, rfl, ht, htokens⟩ := List.map_eq_cons_iff.mp htokens
      obtain ⟨finish, rfl, hfinish⟩ := List.map_eq_singleton_iff.mp htokens
      have hsign : minus.kind = .operator "-" := congrArg Token.kind hminus
      have hkind : t.kind = .integer v := congrArg Token.kind ht
      exact @SourceUnit.exists_isInteger_of_literal minus finish [t] (-v) (congrArg Token.kind hfinish)
        (List.forall_mem_cons.mpr ⟨by rw [hsign]; rfl, List.forall_mem_singleton.mpr (by rw [hkind]; rfl)⟩) hword
        (.negativeInteger hsign hkind hword)
  · exact absurd h.isToken hnot

theorem exists_error (h : ¬ l.IsWord) : ∃ e, SourceUnit.ofSource l.text = .error [e] := by
  have hrefused : ∃ t ts, Scans l.numeral.text (t :: ts) ∧ ReadM.IsRefused l.sign t.kind := by
    obtain ⟨htoken, lexeme, hscans⟩ | ⟨-, t, ts, herror, hscans⟩ := l.numeral.exists_scans
    · exact ⟨_, _, hscans, .inr ⟨l.numeral.value, rfl, mt (isWord_iff htoken).mpr h⟩⟩
    · exact ⟨t, ts, hscans, .inl herror⟩
  obtain ⟨t, ts, hscans, hrefused⟩ := hrefused
  have htokens := map_unplaced_tokens hscans
  rw [sign] at hrefused
  rw [SourceUnit.ofSource]
  generalize tokens l.text = read at htokens
  cases hsign : l.negative with
  | false =>
    rw [hsign] at htokens hrefused
    obtain ⟨t, _, rfl, rfl, htokens⟩ := List.map_eq_cons_iff.mp htokens
    exact @SourceUnit.exists_error_ofTokens t [] _ (List.forall_mem_singleton.mpr hrefused.opensNumber)
      fun n inner rest e c' => ReadM.not_primaryRead hrefused
  | true =>
    rw [hsign] at htokens hrefused
    obtain ⟨minus, _, rfl, hminus, htokens⟩ := List.map_eq_cons_iff.mp htokens
    obtain ⟨t, _, rfl, rfl, htokens⟩ := List.map_eq_cons_iff.mp htokens
    have hminus : minus.kind = .operator "-" := congrArg Token.kind hminus
    refine @SourceUnit.exists_error_ofTokens minus [t] _
      (List.forall_mem_cons.mpr ⟨by rw [hminus]; rfl, List.forall_mem_singleton.mpr hrefused.opensNumber⟩)
      fun n inner rest e c' => ReadM.not_primaryRead_minus hminus ?_
    obtain ⟨-, hnext⟩ := Cursor.of_tokens_cons (c := ⟨[minus, t] ++ rest, 0⟩) rfl hminus TokenKind.noConfusion
    rw [Cursor.current_of_tokens hnext]
    exact hrefused

end IntegerLiteral

/-- An integer literal denotes its number or is refused. As a whole text, digits in base ten or in a base of their
own, perhaps after a minus sign, are read as the number that they spell in that base, with its sign, exactly if the
base is one from 2 to 36, all digits are smaller than it and the number has 32 bits. Otherwise there is one syntax
error and nothing else. Every integer token of any text is a number without a sign of less than 64 bits, so that
changing its sign cannot overflow. -/
theorem ofSource_integerLiteral (l : IntegerLiteral) :
    (l.IsWord → ∃ u, SourceUnit.ofSource l.text = .ok u ∧ u.IsInteger l.value) ∧
      (¬ l.IsWord → ∃ e, SourceUnit.ofSource l.text = .error [e]) ∧
      ∀ source, ∀ t ∈ tokens source, ∀ v, t.kind = .integer v →
        0 ≤ v ∧ v < 2 ^ 63 ∧ (-Int64.ofInt v).toInt = -v := by
  refine ⟨IntegerLiteral.exists_isInteger, IntegerLiteral.exists_error, fun source t ht v hv => ?_⟩
  obtain ⟨hnonneg, hlt⟩ := mem_tokens_integer ht hv
  refine ⟨hnonneg, hlt, ?_⟩
  rw [Int64.toInt_neg, Int64.toInt_ofInt_of_le (by omega) hlt, Int.bmod_eq_of_le (by omega) (by omega)]

/-- The least number of 32 bits, in base 16 and with a blank after its sign. -/
theorem ofSource_integerLiteral_least :
    ∃ u, SourceUnit.ofSource "- 16r80000000" = .ok u ∧ u.IsInteger (-2147483648) := by
  obtain ⟨l, htext, hvalue, hword⟩ : ∃ l : IntegerLiteral,
      l.text = "- 16r80000000" ∧ l.value = -2147483648 ∧ l.IsWord :=
    ⟨⟨true, [' '], .based "16".toList "80000000".toList (by decide) (List.all_eq_true.mp (by decide)) (by decide)
      (List.all_eq_true.mp (by decide)), List.all_eq_true.mp (by decide)⟩, by decide +kernel, by decide +kernel,
      by decide +kernel⟩
  rw [← htext, ← hvalue]
  exact (ofSource_integerLiteral l).1 hword

end Smalltalk
