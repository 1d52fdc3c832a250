import Mathlib
import Smalltalk.Proofs.Scanning

/-!
# Tokens set apart by spaces

The longest token is taken everywhere, so where a token ends depends on what follows it. A space ends every
token: the characters of a token followed by a space, or by nothing, are scanned as the same token again. So
a text can be put together anew from its tokens with a space after each, and comments left out, and it still
has the same tokens.
-/

namespace Smalltalk

open Text

/-- Whether a token is malformed text. -/
def TokenKind.isError : TokenKind → Bool
  | .error _ => true
  | _ => false

/-- Whether a token is malformed text. -/
def Token.isError (t : Token) : Bool := t.kind.isError

/-- A text that no token goes on into: it is empty, or it begins with a space. -/
def IsApart (rest : List Char) : Prop := ∀ d ∈ rest.head?, d = ' '

theorem IsApart.stop {rest : List Char} (h : IsApart rest) {p : Char → Bool} (hp : ¬ p ' ') :
    ∀ d ∈ rest.head?, ¬ p d := by
  intro d hd
  rwa [h d hd]

theorem IsApart.cases {rest : List Char} (h : IsApart rest) : rest = [] ∨ ∃ more, rest = ' ' :: more := by
  cases rest with
  | nil => exact .inl rfl
  | cons d more => exact .inr ⟨more, by rw [h d rfl]⟩

namespace Scanned

/-- Whether a reader `f` that is given a text after the characters `front` of a token, and takes `cs` for the
rest of a token and what follows it, takes the characters of this token for the same one before any other
text that is set apart. -/
def Restarts (f : List Char → Scanned) (front cs : List Char) : Prop :=
  ∃ text, (f cs).text = front ++ text ∧
    ∀ rest, IsApart rest → f (text ++ rest) = ⟨(f cs).kind, front ++ text, rest⟩

theorem restarts_comment {cs : List Char} (h : (comment cs).kind.isError = false) :
    Restarts comment ['"'] cs := by
  have hbody : ∀ d ∈ cs.takeWhile (· != '"'), (d != '"') = true := fun d hd =>
    List.mem_takeWhile_imp (p := (· != '"')) hd
  cases hquote : cs.dropWhile (· != '"') with
  | nil =>
    simp only [comment, hquote] at h
    cases h
  | cons q after =>
    have hq : ¬ (q != '"') = true := head?_dropWhile_stop (· != '"') cs q (by rw [hquote]; rfl)
    refine ⟨cs.takeWhile (· != '"') ++ [q], ?_, fun rest _ => ?_⟩
    · simp only [comment, hquote]
      rfl
    · have hstop : ∀ d ∈ (q :: rest).head?, ¬ (d != '"') = true := by simpa using hq
      rw [List.append_assoc, List.singleton_append]
      simp only [comment, hquote, takeWhile_append_stop hbody hstop, dropWhile_append_stop hbody hstop]
      rfl

theorem restarts_stringFrom {value text cs : List Char}
    (h : (stringFrom value text cs).kind.isError = false) :
    Restarts (stringFrom value text) text.reverse cs := by
  fun_induction stringFrom value text cs with
  | case1 value text cs ih =>
    obtain ⟨more, htext, hmore⟩ := ih h
    refine ⟨'\'' :: '\'' :: more, ?_, fun rest hrest => ?_⟩
    · rw [stringFrom, htext]
      simp
    · rw [List.cons_append, List.cons_append, stringFrom, hmore rest hrest, stringFrom]
      simp
  | case2 value text cs hquote =>
    have hread : stringFrom value text ('\'' :: cs)
        = ⟨.string (String.ofList value.reverse), ('\'' :: text).reverse, cs⟩ := by
      rw [stringFrom]
      exact hquote
    refine ⟨['\''], ?_, fun rest hrest => ?_⟩
    · rw [hread, List.reverse_cons]
    · rw [hread]
      obtain rfl | ⟨more, rfl⟩ := hrest.cases <;> simp [stringFrom]
  | case3 value text c cs hdouble hquote ih =>
    obtain ⟨more, htext, hmore⟩ := ih h
    have hread : ∀ cs, stringFrom value text (c :: cs) = stringFrom (c :: value) (c :: text) cs := by
      intro cs
      rw [stringFrom]
      · exact fun _ hc _ => hquote hc
      · exact hquote
    refine ⟨c :: more, ?_, fun rest hrest => ?_⟩
    · rw [hread, htext]
      simp
    · rw [List.cons_append, hread, hmore rest hrest, hread]
      simp
  | case4 value text => cases h

theorem restarts_character {cs : List Char} (h : (character cs).kind.isError = false) :
    Restarts character ['$'] cs := by
  cases cs with
  | nil => cases h
  | cons c cs => exact ⟨[c], rfl, fun _ _ => rfl⟩

theorem restarts_symbol {cs : List Char} (h : (symbol cs).kind.isError = false) :
    Restarts symbol ['#'] cs := by
  have hname : ∀ d ∈ cs.takeWhile (fun c => isNameChar c || c == ':'), isNameChar d || d == ':' :=
    fun d hd => List.mem_takeWhile_imp (p := fun c => isNameChar c || c == ':') hd
  cases hempty : (cs.takeWhile fun c => isNameChar c || c == ':').isEmpty with
  | true =>
    simp only [symbol, hempty] at h
    cases h
  | false =>
    refine ⟨cs.takeWhile fun c => isNameChar c || c == ':', ?_, fun rest hrest => ?_⟩
    · simp [symbol, hempty]
    · have hstop := hrest.stop (p := fun d => isNameChar d || d == ':') (by decide)
      simp [symbol, hempty, takeWhile_append_stop hname hstop, dropWhile_append_stop hname hstop]

theorem restarts_colon {cs : List Char} (h : (colon cs).kind.isError = false) :
    Restarts colon [':'] cs := by
  cases cs with
  | nil => cases h
  | cons c cs =>
    by_cases hassign : c = '='
    · subst hassign
      exact ⟨['='], rfl, fun _ _ => rfl⟩
    · by_cases hstart : isNameStart c
      · have hname : ∀ d ∈ cs.takeWhile isNameChar, isNameChar d := fun d hd => List.mem_takeWhile_imp hd
        refine ⟨c :: cs.takeWhile isNameChar, ?_, fun rest hrest => ?_⟩
        · simp [colon, hassign, hstart]
        · have hstop := hrest.stop (p := isNameChar) (by decide)
          simp [colon, hassign, hstart, takeWhile_append_stop hname hstop, dropWhile_append_stop hname hstop]
      · simp [colon, hassign, hstart] at h
        cases h

/-- What a name is that no colon follows. -/
def nameKind (name : List Char) : TokenKind :=
  ((ReservedWord.ofText? (String.ofList name)).map TokenKind.reserved).getD (.identifier (String.ofList name))

/-- A word is a name, or a name and the colon after it. -/
theorem word_cases (c : Char) (cs : List Char) :
    word c cs = ⟨nameKind (c :: cs.takeWhile isNameChar), c :: cs.takeWhile isNameChar,
      cs.dropWhile isNameChar⟩ ∨
    ∃ after, word c cs = ⟨.keyword (String.ofList (c :: cs.takeWhile isNameChar ++ [':'])),
      c :: cs.takeWhile isNameChar ++ [':'], after⟩ := by
  simp only [word, nameKind]
  split
  · left
    cases ReservedWord.ofText? (String.ofList (c :: cs.takeWhile isNameChar)) <;> rfl
  · exact .inr ⟨_, rfl⟩
  · left
    cases ReservedWord.ofText? (String.ofList (c :: cs.takeWhile isNameChar)) <;> rfl

theorem word_apart {c : Char} {name rest : List Char} (hname : ∀ d ∈ name, isNameChar d)
    (hrest : IsApart rest) : word c (name ++ rest) = ⟨nameKind (c :: name), c :: name, rest⟩ := by
  have hstop := hrest.stop (p := isNameChar) (by decide)
  simp only [word, nameKind, takeWhile_append_stop hname hstop, dropWhile_append_stop hname hstop]
  obtain rfl | ⟨more, rfl⟩ := hrest.cases <;> cases ReservedWord.ofText? (String.ofList (c :: name)) <;> rfl

/-- The colon of a keyword that is set apart begins no assignment mark. -/
theorem keyword_apart {c : Char} {name rest : List Char} (hname : ∀ d ∈ name, isNameChar d)
    (hrest : IsApart rest) :
    word c (name ++ ':' :: rest) =
      ⟨.keyword (String.ofList (c :: name ++ [':'])), c :: name ++ [':'], rest⟩ := by
  have hcolon : ¬ isNameChar ':' := by decide
  have hstop : ∀ d ∈ (':' :: rest).head?, ¬ isNameChar d := by simpa using hcolon
  simp only [word, takeWhile_append_stop hname hstop, dropWhile_append_stop hname hstop]
  obtain rfl | ⟨more, rfl⟩ := hrest.cases <;> rfl

theorem restarts_word (c : Char) (cs : List Char) : Restarts (word c) [c] cs := by
  have hname : ∀ d ∈ cs.takeWhile isNameChar, isNameChar d := fun d hd => List.mem_takeWhile_imp hd
  obtain hread | ⟨after, hread⟩ := word_cases c cs
  · refine ⟨cs.takeWhile isNameChar, by rw [hread]; rfl, fun rest hrest => ?_⟩
    rw [hread, word_apart hname hrest]
    rfl
  · refine ⟨cs.takeWhile isNameChar ++ [':'], by rw [hread]; rfl, fun rest hrest => ?_⟩
    rw [hread, List.append_assoc, List.singleton_append, keyword_apart hname hrest]
    rfl

theorem restarts_operator (c : Char) (cs : List Char) : Restarts (operator c) [c] cs := by
  have htext : ∀ d ∈ cs.takeWhile isOperatorChar, isOperatorChar d := fun d hd => List.mem_takeWhile_imp hd
  refine ⟨cs.takeWhile isOperatorChar, rfl, fun rest hrest => ?_⟩
  have hstop := hrest.stop (p := isOperatorChar) (by decide)
  simp only [operator, takeWhile_append_stop htext hstop, dropWhile_append_stop htext hstop]
  rfl

/-! ### Numbers -/

theorem fraction_apart (cs rest : List Char)
    (hrest : ∀ d ∈ rest.head?, d ≠ '.' ∧ d.isDigit = false) :
    fraction ((fraction cs).1 ++ rest) = ((fraction cs).1, rest) := by
  have hdigits : ∀ ds : List Char, ∀ d ∈ ds.takeWhile Char.isDigit, d.isDigit := fun _ _ hd =>
    List.mem_takeWhile_imp hd
  have hstop : ∀ d ∈ rest.head?, ¬ d.isDigit := fun d hd => by simp [(hrest d hd).2]
  have hempty : fraction rest = ([], rest) := by
    unfold fraction
    split
    · exact absurd rfl (hrest '.' rfl).1
    · rfl
  fun_cases fraction cs with
  | case1 d cs hd =>
    simp only [List.cons_append, fraction, hd, if_true, takeWhile_append_stop (hdigits cs) hstop,
      dropWhile_append_stop (hdigits cs) hstop]
  | case2 d cs hd => exact hempty
  | case3 cs _ => exact hempty

theorem exponent_apart (cs rest : List Char)
    (hrest : ∀ d ∈ rest.head?, d ≠ 'e' ∧ d.isDigit = false) :
    exponent ((exponent cs).1 ++ rest) = ((exponent cs).1, rest) := by
  have hdigits : ∀ ds : List Char, ∀ d ∈ ds.takeWhile Char.isDigit, d.isDigit := fun _ _ hd =>
    List.mem_takeWhile_imp hd
  have hstop : ∀ d ∈ rest.head?, ¬ d.isDigit := fun d hd => by simp [(hrest d hd).2]
  have hempty : exponent rest = ([], rest) := by
    unfold exponent
    split
    · exact absurd rfl (hrest 'e' rfl).1
    · exact absurd rfl (hrest 'e' rfl).1
    · rfl
  fun_cases exponent cs with
  | case1 d cs hd =>
    simp only [List.cons_append, exponent, hd, if_true, takeWhile_append_stop (hdigits cs) hstop,
      dropWhile_append_stop (hdigits cs) hstop]
  | case2 d cs hd => exact hempty
  | case3 d cs _ hd =>
    have hminus : d ≠ '-' := by
      rintro rfl
      cases hd
    simp only [List.cons_append]
    rw [exponent]
    · simp only [hd, if_true, takeWhile_append_stop (hdigits cs) hstop, dropWhile_append_stop (hdigits cs) hstop]
    · exact fun _ _ h _ => hminus h
  | case4 d cs _ hd => exact hempty
  | case5 cs _ _ => exact hempty

theorem head?_fraction (cs : List Char) : ∀ d ∈ (fraction cs).1.head?, d = '.' := by
  fun_cases fraction cs <;> simp

theorem head?_exponent (cs : List Char) : ∀ d ∈ (exponent cs).1.head?, d = 'e' := by
  fun_cases exponent cs <;> simp

theorem forall_mem_head?_append {P : Char → Prop} {front rest : List Char} (hfront : ∀ d ∈ front.head?, P d)
    (hrest : ∀ d ∈ rest.head?, P d) : ∀ d ∈ (front ++ rest).head?, P d := by
  cases front with
  | nil => exact hrest
  | cons d front => exact hfront

theorem text_decimal (whole cs : List Char) :
    (decimal whole cs).text = whole ++ (fraction cs).1 ++ (exponent (fraction cs).2).1 := by
  simp only [decimal]
  split <;> rfl

theorem decimal_apart (whole cs : List Char) {rest : List Char} (hrest : IsApart rest) :
    decimal whole ((fraction cs).1 ++ ((exponent (fraction cs).2).1 ++ rest))
      = ⟨(decimal whole cs).kind, (decimal whole cs).text, rest⟩ := by
  have hexponent := exponent_apart (fraction cs).2 rest fun d hd => by
    rw [hrest d hd]
    decide
  have hfraction := fraction_apart cs ((exponent (fraction cs).2).1 ++ rest)
    (forall_mem_head?_append (fun d hd => by rw [head?_exponent _ d hd]; decide)
      fun d hd => by rw [hrest d hd]; decide)
  simp only [decimal, hfraction, hexponent]
  split <;> rfl

/-- What digits after a base and the letter `r` are. -/
def radixKind (base : Nat) (digits : List Char) : TokenKind :=
  if digits.all (digitValue · < base) && ofDigits base digits ≤ maxInteger then
    .integer (ofDigits base digits)
  else .ofError (.badDigits base)

theorem radix_of_base {base digits rest : List Char} (hbase : 2 ≤ ofDigits 10 base ∧ ofDigits 10 base ≤ 36)
    (hdigits : ∀ d ∈ digits, d.isAlphanum) (hrest : ∀ d ∈ rest.head?, ¬ d.isAlphanum) :
    radix base (digits ++ rest) = ⟨radixKind (ofDigits 10 base) digits, base ++ 'r' :: digits, rest⟩ := by
  have hrange : ¬ (ofDigits 10 base < 2 || 36 < ofDigits 10 base) = true := by
    rw [Bool.or_eq_true, decide_eq_true_eq, decide_eq_true_eq]
    omega
  simp only [radix, hrange, takeWhile_append_stop hdigits hrest, dropWhile_append_stop hdigits hrest]
  rfl

theorem radix_of_bad_base {base : List Char} (hbase : ¬ (2 ≤ ofDigits 10 base ∧ ofDigits 10 base ≤ 36))
    (cs : List Char) : radix base cs = ⟨.ofError (.badBase base), base, 'r' :: cs⟩ := by
  have hrange : (ofDigits 10 base < 2 || 36 < ofDigits 10 base) = true := by
    rw [Bool.or_eq_true, decide_eq_true_eq, decide_eq_true_eq]
    omega
  simp only [radix, hrange, if_true]

/-- A number has a base, or it is decimal. -/
theorem number_cases (c : Char) (cs : List Char) :
    (∃ d after, d.isAlphanum ∧ cs.dropWhile Char.isDigit = 'r' :: d :: after ∧
      number c cs = radix (c :: cs.takeWhile Char.isDigit) (d :: after)) ∨
    number c cs = decimal (c :: cs.takeWhile Char.isDigit) (cs.dropWhile Char.isDigit) := by
  simp only [number]
  split
  · next d after hrest =>
    split
    · next hd => exact .inl ⟨d, after, hd, hrest, rfl⟩
    · exact .inr (by rw [hrest])
  · exact .inr rfl

theorem number_of_base {c : Char} {digits : List Char} (hdigits : ∀ d ∈ digits, d.isDigit) {d : Char}
    (hd : d.isAlphanum) (rest : List Char) :
    number c (digits ++ 'r' :: d :: rest) = radix (c :: digits) (d :: rest) := by
  have hstop : ∀ d' ∈ ('r' :: d :: rest).head?, ¬ d'.isDigit := by simp
  simp only [number, takeWhile_append_stop hdigits hstop, dropWhile_append_stop hdigits hstop, hd, if_true]

theorem number_of_decimal {c : Char} {digits rest : List Char} (hdigits : ∀ d ∈ digits, d.isDigit)
    (hrest : ∀ d ∈ rest.head?, d ≠ 'r' ∧ d.isDigit = false) :
    number c (digits ++ rest) = decimal (c :: digits) rest := by
  have hstop : ∀ d ∈ rest.head?, ¬ d.isDigit := fun d hd => by simp [(hrest d hd).2]
  simp only [number, takeWhile_append_stop hdigits hstop, dropWhile_append_stop hdigits hstop]
  split
  · exact absurd rfl (hrest 'r' rfl).1
  · rfl

theorem restarts_number {c : Char} {cs : List Char} (h : (number c cs).kind.isError = false) :
    Restarts (number c) [c] cs := by
  have hdigits : ∀ d ∈ cs.takeWhile Char.isDigit, d.isDigit := fun d hd => List.mem_takeWhile_imp hd
  obtain ⟨d, after, hd, -, hread⟩ | hread := number_cases c cs
  · have hbase : 2 ≤ ofDigits 10 (c :: cs.takeWhile Char.isDigit) ∧
        ofDigits 10 (c :: cs.takeWhile Char.isDigit) ≤ 36 := by
      by_contra hbad
      rw [hread, radix_of_bad_base hbad] at h
      cases h
    have hall : ∀ d' ∈ d :: after.takeWhile Char.isAlphanum, d'.isAlphanum :=
      List.forall_mem_cons.mpr ⟨hd, fun d' hd' => List.mem_takeWhile_imp hd'⟩
    rw [← after.takeWhile_append_dropWhile (p := Char.isAlphanum), ← List.cons_append,
      radix_of_base hbase hall (head?_dropWhile_stop _ after)] at hread
    refine ⟨cs.takeWhile Char.isDigit ++ 'r' :: d :: after.takeWhile Char.isAlphanum, ?_, fun rest hrest => ?_⟩
    · rw [hread]
      rfl
    · have hapart := radix_of_base hbase hall (hrest.stop (p := Char.isAlphanum) (by decide))
      rw [List.append_assoc, List.cons_append, List.cons_append, number_of_base hdigits hd, ← List.cons_append,
        hapart, hread]
      rfl
  · have htext := text_decimal (c :: cs.takeWhile Char.isDigit) (cs.dropWhile Char.isDigit)
    refine ⟨cs.takeWhile Char.isDigit ++ ((fraction (cs.dropWhile Char.isDigit)).1
      ++ (exponent (fraction (cs.dropWhile Char.isDigit)).2).1), ?_, fun rest hrest => ?_⟩
    · rw [hread, htext]
      simp
    · have hhead : ∀ d ∈ ((fraction (cs.dropWhile Char.isDigit)).1
          ++ ((exponent (fraction (cs.dropWhile Char.isDigit)).2).1 ++ rest)).head?,
          d ≠ 'r' ∧ d.isDigit = false :=
        forall_mem_head?_append (fun d hd => by rw [head?_fraction _ d hd]; decide)
          (forall_mem_head?_append (fun d hd => by rw [head?_exponent _ d hd]; decide)
            fun d hd => by rw [hrest d hd]; decide)
      rw [List.append_assoc, List.append_assoc, number_of_decimal hdigits hhead, decimal_apart _ _ hrest, hread,
        htext]
      simp

end Scanned

/-! ## Whole texts -/

/-- A token that is no malformed text is read again from its characters, before any text that is set
apart. -/
theorem restarts_scan {c : Char} {cs : List Char} (h : (scan c cs).kind.isError = false) :
    Scanned.Restarts (scan c) [c] cs := by
  -- the first character alone decides which reader takes the rest
  have hreader : ∀ {f : List Char → Scanned}, scan c = f →
      ((f cs).kind.isError = false → Scanned.Restarts f [c] cs) → Scanned.Restarts (scan c) [c] cs := by
    intro f hf hrestarts
    rw [hf] at h ⊢
    exact hrestarts h
  cases hmark : Punctuation.ofChar? c with
  | some mark =>
    have hscan : scan c = fun cs => ⟨.punctuation mark, [c], cs⟩ := funext fun cs => by simp only [scan, hmark]
    exact hreader hscan fun _ => ⟨[], rfl, fun _ _ => rfl⟩
  | none =>
    by_cases hcomment : c = '"'
    · subst hcomment
      exact hreader rfl Scanned.restarts_comment
    by_cases hstring : c = '\''
    · subst hstring
      exact hreader rfl Scanned.restarts_stringFrom
    by_cases hcharacter : c = '$'
    · subst hcharacter
      exact hreader rfl Scanned.restarts_character
    by_cases hsymbol : c = '#'
    · subst hsymbol
      exact hreader rfl Scanned.restarts_symbol
    by_cases hcolon : c = ':'
    · subst hcolon
      exact hreader rfl Scanned.restarts_colon
    by_cases hdigit : c.isDigit
    · exact hreader (funext fun cs => by simp only [scan, *, if_true, if_false]) Scanned.restarts_number
    by_cases hname : isNameStart c
    · exact hreader (funext fun cs => by simp [scan, *]) fun _ => Scanned.restarts_word c cs
    by_cases hoperator : isOperatorChar c
    · exact hreader (funext fun cs => by simp [scan, *]) fun _ => Scanned.restarts_operator c cs
    · simp [scan, *] at h
      cases h

/-- The text that has the lexemes of some tokens with single spaces between them. -/
def respaced (ts : List Token) : String := String.intercalate " " (ts.map (·.lexeme))

theorem respaced_cons_cons (t t' : Token) (ts : List Token) :
    respaced (t :: t' :: ts) = t.lexeme ++ " " ++ respaced (t' :: ts) := by
  rw [respaced, List.map_cons, List.map_cons, String.intercalate_cons_cons]
  rfl

/-- What follows the first of several tokens that are set apart: nothing but the end, or a space and the
others. -/
theorem toList_respaced_cons (t : Token) (ts : List Token) :
    ∃ rest, (respaced (t :: ts)).toList = t.lexeme.toList ++ rest ∧
      (ts = [] ∧ rest = [] ∨ rest = ' ' :: (respaced ts).toList) := by
  cases ts with
  | nil => exact ⟨[], by simp [respaced], .inl ⟨rfl, rfl⟩⟩
  | cons t' ts =>
    refine ⟨' ' :: (respaced (t' :: ts)).toList, ?_, .inr rfl⟩
    rw [respaced_cons_cons, String.toList_append, String.toList_append, List.append_assoc]
    rfl

/-- A token that is read again and the tokens after it, if these are set apart from it. -/
theorem Scans.cons_of_restarts {c : Char} {cs rest : List Char} {ts : List Token} (hc : ¬ isBlank c)
    (herror : (scan c cs).kind.isError = false) (hrest : IsApart rest) (h : Scans rest ts) :
    Scans ((scan c cs).text ++ rest) (⟨(scan c cs).kind, {}, String.ofList (scan c cs).text⟩ :: ts) := by
  obtain ⟨text, htext, hrestart⟩ := restarts_scan herror
  have hagain := hrestart rest hrest
  have hscan : Scans ([] ++ c :: (text ++ rest)) _ := .token (by simp) hc (by rw [hagain]; exact h)
  rw [hagain] at hscan
  rwa [htext]

/-- A text scans as the tokens that it was put together from. -/
theorem exists_scans_respaced {cs : List Char} {ts : List Token} (h : Scans cs ts)
    (herror : ∀ t ∈ ts, t.isError = false) :
    ∃ read, ts = read ++ [.finish {}] ∧ ∀ gap, IsApart gap → (∀ d ∈ gap, isBlank d) →
      Scans ((respaced (read.filter (!·.isComment))).toList ++ gap)
        (read.filter (!·.isComment) ++ [.finish {}]) := by
  induction h with
  | finish => exact ⟨[], rfl, fun gap _ hblank => .finish hblank⟩
  | @token gap cs c ts _ hc _ ih =>
    obtain ⟨hfirst, hothers⟩ := List.forall_mem_cons.mp herror
    obtain ⟨read, rfl, hscans⟩ := ih hothers
    refine ⟨_ :: read, rfl, fun gap hapart hblank => ?_⟩
    have hgap := hscans gap hapart hblank
    rw [List.filter_cons]
    split
    · obtain ⟨rest, htext, hrest⟩ := toList_respaced_cons
        ⟨(scan c cs).kind, {}, String.ofList (scan c cs).text⟩ (read.filter (!·.isComment))
      rw [htext, String.toList_ofList, List.append_assoc, List.cons_append]
      obtain ⟨hnil, rfl⟩ | rfl := hrest
      · rw [hnil] at hgap ⊢
        exact .cons_of_restarts hc hfirst hapart hgap
      · exact .cons_of_restarts hc hfirst (by simp [IsApart]) hgap.space_cons
    · exact hgap

/-- The token for the end of a text adds at most a space. -/
theorem toList_respaced_concat (ts : List Token) :
    ∃ gap, (respaced (ts ++ [.finish {}])).toList = (respaced ts).toList ++ gap ∧ IsApart gap ∧
      ∀ d ∈ gap, isBlank d := by
  induction ts with
  | nil => exact ⟨[], rfl, by simp [IsApart], by simp⟩
  | cons t ts ih =>
    obtain ⟨gap, hgap, hapart, hblank⟩ := ih
    cases ts with
    | nil =>
      refine ⟨[' '], ?_, by simp [IsApart], List.forall_mem_singleton.mpr (by decide)⟩
      simp [respaced, Token.finish]
    | cons t' ts =>
      refine ⟨gap, ?_, hapart, hblank⟩
      rw [List.cons_append, List.cons_append, respaced_cons_cons, respaced_cons_cons, String.toList_append,
        ← List.cons_append, hgap, String.toList_append (s := t.lexeme ++ " "), List.append_assoc]

theorem Token.isError_unplaced (t : Token) : t.unplaced.isError = t.isError := rfl

/-- Layout and comments leave no trace in the tokens: the text that has the lexemes of a source with single
spaces between them, its comments left out, has the tokens of the source without the comments. Whether the
empty lexeme of the token for the end counts does not matter. -/
theorem map_unplaced_tokens_respaced {source text : String} (herror : ∀ t ∈ tokens source, t.isError = false)
    (htext : text = respaced ((tokens source).filter (!·.isComment)) ∨
      text = respaced ((tokens source).filter (!·.isComment)).dropLast) :
    (tokens text).map Token.unplaced = ((tokens source).filter (!·.isComment)).map Token.unplaced := by
  have hlexemes : ∀ ts : List Token, respaced (ts.map Token.unplaced) = respaced ts := fun ts => by
    rw [respaced, respaced, List.map_map]
    rfl
  obtain ⟨read, hread, hscans⟩ := exists_scans_respaced (scans_iff.mpr rfl)
    (List.forall_mem_map.mpr fun t ht => (t.isError_unplaced).trans (herror t ht))
  have hkept : ((tokens source).filter (!·.isComment)).map Token.unplaced
      = read.filter (!·.isComment) ++ [.finish {}] := by
    calc ((tokens source).filter (!·.isComment)).map Token.unplaced
        = ((tokens source).map Token.unplaced).filter (!·.isComment) := by
          rw [List.filter_map]
          rfl
      _ = read.filter (!·.isComment) ++ [.finish {}] := by
          rw [hread, List.filter_append]
          rfl
  rw [hkept, ← scans_iff]
  rw [← hlexemes, ← hlexemes (List.dropLast _), List.map_dropLast, hkept, List.dropLast_concat] at htext
  obtain rfl | rfl := htext
  · obtain ⟨gap, hgap, hapart, hblank⟩ := toList_respaced_concat (read.filter (!·.isComment))
    rw [hgap]
    exact hscans gap hapart hblank
  · simpa using hscans [] (by simp [IsApart]) (by simp)

end Smalltalk
