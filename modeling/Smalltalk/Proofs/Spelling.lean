import Mathlib
import Smalltalk.Reader.Unit

/-!
# How tokens are spelled

A token carries a text: a name, a keyword, an operator, a symbol. The text of every token that comes out of
scanning is made of the characters that its kind allows. That the classes of these characters are apart
tells the kinds of selectors from their texts alone.
-/

namespace Smalltalk

/-! ## Texts of tokens -/

/-- A text that can be a name. -/
def IsName (text : List Char) : Prop := text ≠ [] ∧ ∀ c ∈ text, isNameChar c

/-- A text that can be a keyword: a name and a colon. -/
def IsKeyword (text : List Char) : Prop := ∃ name, IsName name ∧ text = name ++ [':']

/-- A text that can be a binary selector. -/
def IsOperatorText (text : List Char) : Prop := text ≠ [] ∧ ∀ c ∈ text, isOperatorChar c

instance (text : List Char) : Decidable (IsOperatorText text) :=
  inferInstanceAs (Decidable (text ≠ [] ∧ ∀ c ∈ text, isOperatorChar c))

/-- A text that can be a symbol. -/
def IsSymbolName (text : List Char) : Prop := text ≠ [] ∧ ∀ c ∈ text, isNameChar c || c == ':'

/-- Whether a token of a kind, read from a text, is spelled as its kind asks. -/
def Spelled : TokenKind → List Char → Prop
  | .identifier x, _ => IsName x.toList
  | .keyword word, _ => IsKeyword word.toList
  | .symbol x, _ => IsSymbolName x.toList
  | .operator _, text => IsOperatorText text
  | .punctuation .bar, text => text = ['|']
  | _, _ => True

/-- Whether a token is spelled as its kind asks. -/
def Token.IsSpelled (t : Token) : Prop := Spelled t.kind t.lexeme.toList

theorem isNameChar_of_isNameStart {c : Char} (h : isNameStart c) : isNameChar c := by
  rcases Bool.or_eq_true_iff.mp h with h | h
  · simp [isNameChar, h]
  · simp [isNameChar, h]

theorem isName_cons_takeWhile {c : Char} (hc : isNameStart c) (cs : List Char) :
    IsName (c :: cs.takeWhile isNameChar) :=
  ⟨List.cons_ne_nil _ _, List.forall_mem_cons.mpr
    ⟨isNameChar_of_isNameStart hc, fun _ hd => List.mem_takeWhile_imp hd⟩⟩

/-! ## Scanning -/

namespace Scanned

theorem spelled_comment (cs : List Char) : Spelled (comment cs).kind (comment cs).text := by
  unfold comment
  split <;> trivial

theorem spelled_stringFrom (value text cs : List Char) :
    Spelled (stringFrom value text cs).kind (stringFrom value text cs).text := by
  fun_induction stringFrom value text cs with
  | case1 value text cs ih => exact ih
  | case2 => trivial
  | case3 value text c cs _ _ ih => exact ih
  | case4 => trivial

theorem spelled_character (cs : List Char) : Spelled (character cs).kind (character cs).text := by
  cases cs <;> trivial

theorem spelled_symbol (cs : List Char) : Spelled (symbol cs).kind (symbol cs).text := by
  unfold symbol
  dsimp only
  split
  · trivial
  · next hname =>
    show IsSymbolName _
    rw [String.toList_ofList]
    exact ⟨fun hnil => hname (List.isEmpty_iff.mpr hnil), fun d hd =>
      List.mem_takeWhile_imp (p := fun c => isNameChar c || c == ':') hd⟩

theorem spelled_colon (cs : List Char) : Spelled (colon cs).kind (colon cs).text := by
  unfold colon
  split
  · trivial
  · split
    · trivial
    · split <;> trivial

/-- A word is a name, a keyword, or one of the reserved words. -/
theorem spelled_word {c : Char} (hc : isNameStart c) (cs : List Char) :
    Spelled (word c cs).kind (word c cs).text := by
  have hname := isName_cons_takeWhile hc cs
  have hidentifier : IsName (String.ofList (c :: cs.takeWhile isNameChar)).toList := by
    rw [String.toList_ofList]
    exact hname
  unfold word
  dsimp only
  split
  · split
    · trivial
    · exact hidentifier
  · exact ⟨_, hname, String.toList_ofList⟩
  · split
    · trivial
    · exact hidentifier

theorem spelled_operator {c : Char} (hc : isOperatorChar c) (cs : List Char) :
    Spelled (operator c cs).kind (operator c cs).text :=
  ⟨List.cons_ne_nil _ _, List.forall_mem_cons.mpr ⟨hc, fun _ hd => List.mem_takeWhile_imp hd⟩⟩

theorem spelled_decimal (whole cs : List Char) : Spelled (decimal whole cs).kind (decimal whole cs).text := by
  simp only [decimal]
  split
  · dsimp only
    split <;> trivial
  · trivial

theorem spelled_radix (base cs : List Char) : Spelled (radix base cs).kind (radix base cs).text := by
  simp only [radix]
  split
  · trivial
  · dsimp only
    split <;> trivial

/-- A number is spelled in base ten or in a base of its own. -/
theorem spelled_number (c : Char) (cs : List Char) : Spelled (number c cs).kind (number c cs).text := by
  unfold number
  dsimp only
  split
  · split
    · exact spelled_radix _ _
    · exact spelled_decimal _ _
  · exact spelled_decimal _ _

end Scanned

theorem Punctuation.eq_bar_of_ofChar? {c : Char} (h : ofChar? c = some .bar) : c = '|' := by
  grind [ofChar?]

theorem spelled_punctuation {c : Char} {mark : Punctuation} (h : Punctuation.ofChar? c = some mark) :
    Spelled (.punctuation mark) [c] := by
  cases mark with
  | bar => rw [Punctuation.eq_bar_of_ofChar? h, Spelled]
  | _ => trivial

/-- Whatever the first character, what is scanned is spelled as its kind says. -/
theorem spelled_scan (c : Char) (cs : List Char) : Spelled (scan c cs).kind (scan c cs).text := by
  unfold scan
  split
  · next mark hmark => exact spelled_punctuation hmark
  · split_ifs with _ _ _ _ _ _ hname hoperator
    · exact Scanned.spelled_comment cs
    · exact Scanned.spelled_stringFrom _ _ cs
    · exact Scanned.spelled_character cs
    · exact Scanned.spelled_symbol cs
    · exact Scanned.spelled_colon cs
    · exact Scanned.spelled_number c cs
    · exact Scanned.spelled_word hname cs
    · exact Scanned.spelled_operator hoperator cs
    · trivial

theorem isSpelled_of_mem_tokensFrom (done : Array Token) (p : Position) (cs : List Char)
    (hdone : ∀ t ∈ done.toList, t.IsSpelled) : ∀ t ∈ (tokensFrom done p cs).toList, t.IsSpelled := by
  fun_induction tokensFrom done p cs with
  | case1 done p cs start hrest =>
    rw [Array.toList_push, List.forall_mem_append, List.forall_mem_singleton]
    exact ⟨hdone, trivial⟩
  | case2 done p cs start c rest hrest _ scanned stop ih =>
    refine ih ?_
    rw [Array.toList_push, List.forall_mem_append, List.forall_mem_singleton]
    refine ⟨hdone, ?_⟩
    rw [Token.IsSpelled, String.toList_ofList]
    exact spelled_scan c rest

theorem isSpelled_of_mem_tokens {source : String} : ∀ t ∈ tokens source, t.IsSpelled :=
  isSpelled_of_mem_tokensFrom #[] {} source.toList fun _ h => absurd h List.not_mem_nil

theorem isSpelled_finish (p : Position) : (Token.finish p).IsSpelled := trivial

/-- The tokens that a unit is read from are spelled as their kinds ask. -/
theorem isSpelled_of_mem_ofTokens {ts : List Token} (hts : ∀ t ∈ ts, t.IsSpelled) :
    ∀ t ∈ (Cursor.ofTokens ts).tokens, t.IsSpelled := by
  have hfilter : ∀ t ∈ ts.filter (!·.isComment), t.IsSpelled := fun t ht => hts t (List.mem_of_mem_filter ht)
  unfold Cursor.ofTokens
  dsimp only
  split
  · exact List.forall_mem_singleton.mpr (isSpelled_finish _)
  · split
    · exact hfilter
    · exact List.forall_mem_append.mpr ⟨hfilter, List.forall_mem_singleton.mpr (isSpelled_finish _)⟩

/-- A cursor never runs out of tokens: the end of the text is one. -/
theorem ofTokens_ne_nil (ts : List Token) : (Cursor.ofTokens ts).tokens ≠ [] := by
  unfold Cursor.ofTokens
  dsimp only
  split
  · exact List.cons_ne_nil _ _
  · next last hlast =>
    split
    · intro hnil
      have hnil : ts.filter (!·.isComment) = [] := hnil
      rw [hnil] at hlast
      cases hlast
    · exact List.append_ne_nil_of_right_ne_nil _ (List.cons_ne_nil _ _)

/-! ## Arities -/

/-- How many arguments a message takes, by its selector: one for each colon, one for an operator, and none
otherwise. -/
def arity (selector : String) : Nat :=
  if ':' ∈ selector.toList then selector.toList.count ':'
  else if selector = "|" ∨ IsOperatorText selector.toList then 1
  else 0

theorem not_isNameChar_of_isOperatorChar {c : Char} (h : isOperatorChar c) : ¬ isNameChar c := by
  have hnone : "+-*/\\<>=~,@%&?!".toList.all (!isNameChar ·) := by decide
  simpa using List.all_eq_true.mp hnone c (List.contains_iff_mem.mp h)

theorem IsName.colon_notMem {text : List Char} (h : IsName text) : ':' ∉ text := fun hcolon =>
  absurd (h.2 ':' hcolon) (by decide)

theorem IsOperatorText.colon_notMem {text : List Char} (h : IsOperatorText text) : ':' ∉ text := fun hcolon =>
  absurd (h.2 ':' hcolon) (by decide)

theorem IsName.not_isOperatorText {text : List Char} (h : IsName text) : ¬ IsOperatorText text := by
  intro hoperator
  obtain ⟨c, hc⟩ := List.exists_mem_of_ne_nil text h.1
  exact not_isNameChar_of_isOperatorChar (hoperator.2 c hc) (h.2 c hc)

theorem arity_of_isName {x : String} (h : IsName x.toList) : arity x = 0 := by
  have hbar : x ≠ "|" := by
    rintro rfl
    exact absurd (h.2 '|' (by decide)) (by decide)
  rw [arity, if_neg h.colon_notMem, if_neg (not_or.mpr ⟨hbar, h.not_isOperatorText⟩)]

/-- A message that is an operator has one argument. -/
theorem arity_of_isOperatorText {x : String} (h : IsOperatorText x.toList) : arity x = 1 := by
  rw [arity, if_neg h.colon_notMem, if_pos (.inr h)]

theorem arity_bar : arity "|" = 1 := by
  rw [arity, if_neg (by decide), if_pos (.inl rfl)]

/-- Keywords count by their colons. -/
theorem arity_join {words : List String} (hne : words ≠ [])
    (hwords : ∀ w ∈ words, IsKeyword w.toList) :
    arity (String.join words) = words.length := by
  have hcount : (String.join words).toList.count ':' = words.length := by
    clear hne
    induction words with
    | nil => rfl
    | cons w words ih =>
      obtain ⟨⟨name, hname, hw⟩, hwords⟩ := List.forall_mem_cons.mp hwords
      rw [String.join_cons, String.toList_append, List.count_append, ih hwords, hw, List.count_append,
        List.count_eq_zero_of_not_mem hname.colon_notMem, List.length_cons]
      simp only [List.count_singleton_self]
      omega
  have hmem : ':' ∈ (String.join words).toList := by
    rw [← List.count_pos_iff, hcount]
    exact List.length_pos_iff.mpr hne
  rw [arity, if_pos hmem, hcount]

end Smalltalk
