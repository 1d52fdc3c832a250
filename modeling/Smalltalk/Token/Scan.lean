import Smalltalk.Number.Binary
import Smalltalk.Text.Alphabetic
import Smalltalk.Text.Blank
import Smalltalk.Text.Escaped
import Smalltalk.Text.Numeric
import Smalltalk.Token

/-!
# Scanning

`scan` reads one token at the front of a text that starts with no blank. It returns the characters
of the token and the text after it, and so it is independent of positions. The longest token is
taken everywhere, with at most three characters of lookahead.

Main statements: a token and the text after it are the text before (`scan_append`), and every token
has a character (`scan_text_ne_nil`).
-/

namespace Smalltalk

open Number Text

/-- Why some text is no token. -/
inductive LexicalError where
  /-- No quote ends a comment. -/
  | unterminatedComment
  /-- No quote ends a string. -/
  | unterminatedString
  /-- The text ends after `$`. -/
  | missingCharacter
  /-- No name follows `#`. -/
  | missingSymbolName
  /-- No name follows a colon. -/
  | missingParameterName
  /-- An integer is larger than any token can hold. -/
  | integerTooLarge
  /-- A number names a base outside 2 to 36. -/
  | badBase (digits : List Char)
  /-- A number has a digit that its base does not have, or is too large. -/
  | badDigits (base : Nat)
  /-- A character starts no token. -/
  | unexpectedCharacter (c : Char)
  deriving DecidableEq

/-- The message for malformed text. -/
def LexicalError.message : LexicalError → String
  | unterminatedComment => "unterminated comment"
  | unterminatedString => "unterminated string"
  | missingCharacter => "expected character after `$`"
  | missingSymbolName => "expected name after `#`"
  | missingParameterName => "expected parameter name after `:`"
  | integerTooLarge => "invalid integer: number too large to fit in target type"
  | badBase digits => "invalid number base: " ++ String.ofList digits
  | badDigits base => "invalid digits for base " ++ toString base
  | unexpectedCharacter c => "unexpected character: " ++ quoted '\'' [c]

/-- The token kind for malformed text. -/
def TokenKind.ofError (e : LexicalError) : TokenKind := .error e.message

/-! ## Character classes -/

/-- Characters that make up binary selectors. -/
def isOperatorChar (c : Char) : Bool :=
  "+-*/\\<>=~,@%&?!".toList.contains c

/-- Characters that a name may start with. -/
def isNameStart (c : Char) : Bool :=
  isAlphabetic c || c == '_'

/-- Characters that a name may go on with. -/
def isNameChar (c : Char) : Bool :=
  isAlphabetic c || isNumeric c || c == '_'

/-! ## Digits -/

/-- The value of an ASCII digit or letter as a digit; letters of either case count from ten. -/
def digitValue (c : Char) : Nat :=
  if c.isDigit then c.toNat - '0'.toNat
  else if c.isLower then c.toNat - 'a'.toNat + 10
  else c.toNat - 'A'.toNat + 10

/-- The number that digits denote in a base. -/
def ofDigits (base : Nat) (digits : List Char) : Nat :=
  digits.foldl (fun n c => n * base + digitValue c) 0

/-- The largest value of an integer token. -/
def maxInteger : Nat := 9223372036854775807

/-- The value of an exponent. Once it has reached 65536, which is beyond every number, further
digits are passed over. -/
def exponentValue (digits : List Char) : Nat :=
  digits.foldl (fun n c => if n < 65536 then n * 10 + digitValue c else n) 0

/-! ## One token -/

/-- A token at the front of a text. -/
structure Scanned where
  /-- What the token is. -/
  kind : TokenKind
  /-- The characters of the token. -/
  text : List Char
  /-- The characters after it. -/
  rest : List Char

namespace Scanned

/-- A comment, after its opening quote. -/
def comment (cs : List Char) : Scanned :=
  let body := cs.takeWhile (· != '"')
  match cs.dropWhile (· != '"') with
  | [] => ⟨.ofError .unterminatedComment, '"' :: body, []⟩
  | q :: rest => ⟨.comment (String.ofList body), '"' :: body ++ [q], rest⟩

/-- A string, after its opening quote; `value` and `text` hold what was read, last character
first. A quote that another one follows stands for a quote. -/
def stringFrom (value text : List Char) : List Char → Scanned
  | '\'' :: '\'' :: cs => stringFrom ('\'' :: value) ('\'' :: '\'' :: text) cs
  | '\'' :: cs => ⟨.string (String.ofList value.reverse), ('\'' :: text).reverse, cs⟩
  | c :: cs => stringFrom (c :: value) (c :: text) cs
  | [] => ⟨.ofError .unterminatedString, text.reverse, []⟩

/-- A string, after its opening quote. -/
def string (cs : List Char) : Scanned := stringFrom [] ['\''] cs

/-- A character, after the dollar sign. -/
def character : List Char → Scanned
  | [] => ⟨.ofError .missingCharacter, ['$'], []⟩
  | c :: cs => ⟨.character c, ['$', c], cs⟩

/-- A symbol, after its hash sign. Colons may stand anywhere in its name. -/
def symbol (cs : List Char) : Scanned :=
  let name := cs.takeWhile fun c => isNameChar c || c == ':'
  if name.isEmpty then ⟨.ofError .missingSymbolName, ['#'], cs⟩
  else
    ⟨.symbol (String.ofList name), '#' :: name,
      cs.dropWhile fun c => isNameChar c || c == ':'⟩

/-- What a colon starts. -/
def colon : List Char → Scanned
  | [] => ⟨.ofError .missingParameterName, [':'], []⟩
  | c :: cs =>
    if c = '=' then ⟨.punctuation .assign, [':', c], cs⟩
    else if isNameStart c then
      let name := c :: cs.takeWhile isNameChar
      ⟨.blockArgument (String.ofList name), ':' :: name, cs.dropWhile isNameChar⟩
    else ⟨.ofError .missingParameterName, [':'], c :: cs⟩

/-- A name, a keyword or a reserved word. A colon belongs to the word before it, unless it starts
an assignment mark. -/
def word (c : Char) (cs : List Char) : Scanned :=
  let name := c :: cs.takeWhile isNameChar
  let rest := cs.dropWhile isNameChar
  let plain : Scanned :=
    match ReservedWord.ofText? (String.ofList name) with
    | some w => ⟨.reserved w, name, rest⟩
    | none => ⟨.identifier (String.ofList name), name, rest⟩
  match rest with
  | ':' :: '=' :: _ => plain
  | ':' :: after => ⟨.keyword (String.ofList (name ++ [':'])), name ++ [':'], after⟩
  | _ => plain

/-- A binary selector. -/
def operator (c : Char) (cs : List Char) : Scanned :=
  let text := c :: cs.takeWhile isOperatorChar
  ⟨.operator (String.ofList text), text, cs.dropWhile isOperatorChar⟩

/-- An integer in a base of its own, from the digits of the base and the text after the letter
`r`. A base that cannot be is an error before that letter. -/
def radix (base cs : List Char) : Scanned :=
  let b := ofDigits 10 base
  if b < 2 || 36 < b then ⟨.ofError (.badBase base), base, 'r' :: cs⟩
  else
    let digits := cs.takeWhile Char.isAlphanum
    let value := ofDigits b digits
    let kind : TokenKind :=
      if digits.all (digitValue · < b) && value ≤ maxInteger then .integer value
      else .ofError (.badDigits b)
    ⟨kind, base ++ 'r' :: digits, cs.dropWhile Char.isAlphanum⟩

/-- The fraction at the front of a text: a point and digits. -/
def fraction : List Char → List Char × List Char
  | '.' :: d :: cs =>
    if d.isDigit then ('.' :: d :: cs.takeWhile Char.isDigit, cs.dropWhile Char.isDigit)
    else ([], '.' :: d :: cs)
  | cs => ([], cs)

/-- The exponent at the front of a text: the letter `e`, perhaps a minus sign, and digits. -/
def exponent : List Char → List Char × List Char
  | 'e' :: '-' :: d :: cs =>
    if d.isDigit then ('e' :: '-' :: d :: cs.takeWhile Char.isDigit, cs.dropWhile Char.isDigit)
    else ([], 'e' :: '-' :: d :: cs)
  | 'e' :: d :: cs =>
    if d.isDigit then ('e' :: d :: cs.takeWhile Char.isDigit, cs.dropWhile Char.isDigit)
    else ([], 'e' :: d :: cs)
  | cs => ([], cs)

/-- The power of ten that an exponent stands for. -/
def exponentPower : List Char → Int
  | 'e' :: '-' :: digits => -(exponentValue digits : Int)
  | _ :: digits => exponentValue digits
  | [] => 0

/-- A decimal number: an integer, unless a fraction or an exponent follows. -/
def decimal (whole cs : List Char) : Scanned :=
  let (fractionText, afterFraction) := fraction cs
  let (exponentText, rest) := exponent afterFraction
  let text := whole ++ fractionText ++ exponentText
  if fractionText.isEmpty && exponentText.isEmpty then
    let value := ofDigits 10 whole
    ⟨if value ≤ maxInteger then .integer value else .ofError .integerTooLarge, text, rest⟩
  else
    let places := fractionText.drop 1
    let value : Decimal :=
      ⟨ofDigits 10 (whole ++ places), exponentPower exponentText - places.length⟩
    ⟨.float (doubleOfDecimal value), text, rest⟩

/-- A number, which starts with the digit `c`. -/
def number (c : Char) (cs : List Char) : Scanned :=
  let digits := c :: cs.takeWhile Char.isDigit
  match cs.dropWhile Char.isDigit with
  | 'r' :: d :: after =>
    if d.isAlphanum then radix digits (d :: after) else decimal digits ('r' :: d :: after)
  | rest => decimal digits rest

end Scanned

/-- The punctuation mark that a character is by itself. -/
def Punctuation.ofChar? (c : Char) : Option Punctuation :=
  if c = '^' then some .caret
  else if c = '(' then some .leftParen
  else if c = ')' then some .rightParen
  else if c = '[' then some .leftBracket
  else if c = ']' then some .rightBracket
  else if c = '\x7b' then some .leftBrace
  else if c = '\x7d' then some .rightBrace
  else if c = '|' then some .bar
  else if c = '.' then some .dot
  else none

/-- Reads the token that starts with the character `c`. -/
def scan (c : Char) (cs : List Char) : Scanned :=
  match Punctuation.ofChar? c with
  | some mark => ⟨.punctuation mark, [c], cs⟩
  | none =>
    if c = '"' then .comment cs
    else if c = '\'' then .string cs
    else if c = '$' then .character cs
    else if c = '#' then .symbol cs
    else if c = ':' then .colon cs
    else if c.isDigit then .number c cs
    else if isNameStart c then .word c cs
    else if isOperatorChar c then .operator c cs
    else ⟨.ofError (.unexpectedCharacter c), [c], cs⟩

/-! ## Nothing is lost -/

namespace Scanned

theorem comment_append (cs : List Char) :
    (comment cs).text ++ (comment cs).rest = '"' :: cs := by
  have h := List.takeWhile_append_dropWhile (p := (· != '"')) (l := cs)
  unfold comment
  split <;> rename_i hd <;> simp_all

theorem stringFrom_append (value text cs : List Char) :
    (stringFrom value text cs).text ++ (stringFrom value text cs).rest = text.reverse ++ cs := by
  fun_induction stringFrom value text cs <;> simp_all

theorem symbol_append (cs : List Char) :
    (symbol cs).text ++ (symbol cs).rest = '#' :: cs := by
  simp only [symbol]
  split <;> simp [List.takeWhile_append_dropWhile]

theorem colon_append (cs : List Char) :
    (colon cs).text ++ (colon cs).rest = ':' :: cs := by
  unfold colon
  split
  · rfl
  · split
    · simp
    · split <;> simp [List.takeWhile_append_dropWhile]

theorem word_append (c : Char) (cs : List Char) :
    (word c cs).text ++ (word c cs).rest = c :: cs := by
  have h := List.takeWhile_append_dropWhile (p := isNameChar) (l := cs)
  simp only [word]
  split
  · split <;> simp_all
  · rename_i hd
    simp [hd] at h ⊢
    exact h
  · split <;> simp_all

theorem operator_append (c : Char) (cs : List Char) :
    (operator c cs).text ++ (operator c cs).rest = c :: cs := by
  simp [operator, List.takeWhile_append_dropWhile]

theorem radix_append (base cs : List Char) :
    (radix base cs).text ++ (radix base cs).rest = base ++ 'r' :: cs := by
  simp only [radix]
  split <;> simp [List.takeWhile_append_dropWhile]

theorem fraction_append (cs : List Char) :
    (fraction cs).1 ++ (fraction cs).2 = cs := by
  unfold fraction
  split
  · split <;> simp [List.takeWhile_append_dropWhile]
  · simp

theorem exponent_append (cs : List Char) :
    (exponent cs).1 ++ (exponent cs).2 = cs := by
  unfold exponent
  split
  · split <;> simp [List.takeWhile_append_dropWhile]
  · split <;> simp [List.takeWhile_append_dropWhile]
  · simp

theorem decimal_append (whole cs : List Char) :
    (decimal whole cs).text ++ (decimal whole cs).rest = whole ++ cs := by
  simp only [decimal]
  split <;> simp [exponent_append, fraction_append]

theorem number_append (c : Char) (cs : List Char) :
    (number c cs).text ++ (number c cs).rest = c :: cs := by
  have h := List.takeWhile_append_dropWhile (p := Char.isDigit) (l := cs)
  unfold number
  dsimp only
  split
  · rename_i hd
    split
    · rw [radix_append, List.cons_append, ← hd, h]
    · rw [decimal_append, List.cons_append, ← hd, h]
  · rw [decimal_append, List.cons_append, h]

theorem comment_text_ne_nil (cs : List Char) : (comment cs).text ≠ [] := by
  unfold comment
  split <;> simp

theorem stringFrom_text_ne_nil (value cs : List Char) {text : List Char} (h : text ≠ []) :
    (stringFrom value text cs).text ≠ [] := by
  fun_induction stringFrom value text cs <;> simp_all

theorem symbol_text_ne_nil (cs : List Char) : (symbol cs).text ≠ [] := by
  simp only [symbol]
  split <;> simp

theorem colon_text_ne_nil (cs : List Char) : (colon cs).text ≠ [] := by
  unfold colon
  split
  · simp
  · split
    · simp
    · split <;> simp

theorem word_text_ne_nil (c : Char) (cs : List Char) : (word c cs).text ≠ [] := by
  simp only [word]
  split
  · split <;> simp
  · simp
  · split <;> simp

theorem radix_text_ne_nil {base : List Char} (cs : List Char) (h : base ≠ []) :
    (radix base cs).text ≠ [] := by
  simp only [radix]
  split <;> simp [h]

theorem decimal_text_ne_nil {whole : List Char} (cs : List Char) (h : whole ≠ []) :
    (decimal whole cs).text ≠ [] := by
  simp only [decimal]
  split <;> simp [h]

theorem number_text_ne_nil (c : Char) (cs : List Char) : (number c cs).text ≠ [] := by
  unfold number
  dsimp only
  split
  · split
    · exact radix_text_ne_nil _ (List.cons_ne_nil _ _)
    · exact decimal_text_ne_nil _ (List.cons_ne_nil _ _)
  · exact decimal_text_ne_nil _ (List.cons_ne_nil _ _)

end Scanned

/-- A token and the text after it are the text before. -/
theorem scan_append (c : Char) (cs : List Char) :
    (scan c cs).text ++ (scan c cs).rest = c :: cs := by
  generalize h : scan c cs = s
  unfold scan at h
  split at h
  · rw [← h]; rfl
  split at h
  · rename_i hc; rw [← h, Scanned.comment_append, hc]
  split at h
  · rename_i hc; rw [← h, Scanned.string, Scanned.stringFrom_append, hc]; rfl
  split at h
  · rename_i hc; rw [← h, hc]; cases cs <;> rfl
  split at h
  · rename_i hc; rw [← h, Scanned.symbol_append, hc]
  split at h
  · rename_i hc; rw [← h, Scanned.colon_append, hc]
  split at h
  · rw [← h, Scanned.number_append]
  split at h
  · rw [← h, Scanned.word_append]
  split at h
  · rw [← h, Scanned.operator_append]
  · rw [← h]; rfl

/-- Every token has a character. -/
theorem scan_text_ne_nil (c : Char) (cs : List Char) : (scan c cs).text ≠ [] := by
  generalize h : scan c cs = s
  unfold scan at h
  split at h
  · rw [← h]; simp
  split at h
  · rw [← h]; exact Scanned.comment_text_ne_nil cs
  split at h
  · rw [← h]; exact Scanned.stringFrom_text_ne_nil _ _ (List.cons_ne_nil _ _)
  split at h
  · rw [← h]; cases cs <;> simp [Scanned.character]
  split at h
  · rw [← h]; exact Scanned.symbol_text_ne_nil cs
  split at h
  · rw [← h]; exact Scanned.colon_text_ne_nil cs
  split at h
  · rw [← h]; exact Scanned.number_text_ne_nil c cs
  split at h
  · rw [← h]; exact Scanned.word_text_ne_nil c cs
  split at h
  · rw [← h]; simp [Scanned.operator]
  · rw [← h]; simp

theorem scan_rest_length_lt (c : Char) (cs : List Char) :
    (scan c cs).rest.length < (c :: cs).length := by
  have hne := List.length_pos_iff.2 (scan_text_ne_nil c cs)
  have happ := congrArg List.length (scan_append c cs)
  rw [List.length_append] at happ
  omega

end Smalltalk
