import Mathlib
import Smalltalk.Token.Tokens

/-!
# Tokens cover their source

A token carries the text that it was read from and the place where that text stands. Here nothing is
lost between a source and its tokens: they stand in order, only blanks separate them, and the source
can be put together again from the two. The places are exact in bytes, lines and columns.

The tokens are described by how they are laid over a text (`LaidOut`), which says once what each step of
the tokenizer does; what a source and its tokens have in common follows by induction over that.
-/

namespace Smalltalk

open Text

/-! ## Places -/

namespace Position

/-- Whether `p` is the place just after a text: its offset is the number of bytes of the text, its line
is one more than the number of line feeds, and its column is one more than the number of characters
after the last of these. -/
structure IsAfter (p : Position) (before : List Char) : Prop where
  offset_eq : p.offset = before.utf8Encode.size
  line_eq : p.line = 1 + before.count '\n'
  column_eq : p.column = 1 + (before.rtakeWhile (· ≠ '\n')).length

theorem IsAfter.next {p : Position} {before : List Char} (h : p.IsAfter before) (c : Char) :
    (p.next c).IsAfter (before ++ [c]) := by
  have hsize : (before ++ [c]).utf8Encode.size = p.offset + c.utf8Size := by
    rw [List.utf8Encode_append, ByteArray.size_append, h.offset_eq, List.utf8Encode_singleton,
      List.size_toByteArray, String.length_utf8EncodeChar]
  unfold Position.next
  split
  · next hc =>
    subst hc
    exact ⟨hsize.symm, by simp [h.line_eq]; omega, by simp⟩
  · next hc =>
    refine ⟨hsize.symm, by simp [h.line_eq, hc], ?_⟩
    rw [List.rtakeWhile_concat_pos _ _ _ (by simpa using hc), List.length_append, h.column_eq]
    rfl

/-- Counting on over a text from its beginning gives the exact place after it. -/
theorem isAfter_advance (before : List Char) : (advance {} before).IsAfter before := by
  induction before using List.reverseRecOn with
  | nil => exact ⟨rfl, rfl, rfl⟩
  | append_singleton before c ih =>
    rw [advance_append]
    exact ih.next c

theorem offset_advance (before : List Char) :
    (advance {} before).offset = before.utf8Encode.size :=
  (isAfter_advance before).offset_eq

/-- Whether `p` is the exact place of some boundary between the characters of a source. -/
def IsIn (source : String) (p : Position) : Prop :=
  ∃ before, before <+: source.toList ∧ p.IsAfter before

end Position

/-! ## Tokens laid over a text -/

namespace Scanned

theorem stringFrom_kind_ne (value text cs : List Char) :
    (stringFrom value text cs).kind ≠ .endOfInput := by
  fun_induction stringFrom value text cs <;> simp_all [TokenKind.ofError]

theorem word_kind_ne (c : Char) (cs : List Char) : (word c cs).kind ≠ .endOfInput := by
  simp only [word]
  split
  · split <;> simp
  · simp
  · split <;> simp

theorem decimal_kind_ne (whole cs : List Char) : (decimal whole cs).kind ≠ .endOfInput := by
  simp only [decimal]
  split
  · dsimp only
    split <;> simp [TokenKind.ofError]
  · simp

theorem radix_kind_ne (base cs : List Char) : (radix base cs).kind ≠ .endOfInput := by
  simp only [radix]
  split
  · simp [TokenKind.ofError]
  · dsimp only
    split <;> simp [TokenKind.ofError]

theorem number_kind_ne (c : Char) (cs : List Char) : (number c cs).kind ≠ .endOfInput := by
  unfold number
  dsimp only
  split
  · split
    · exact radix_kind_ne _ _
    · exact decimal_kind_ne _ _
  · exact decimal_kind_ne _ _

end Scanned

/-- No characters make a token for the end of a text. -/
theorem scan_kind_ne (c : Char) (cs : List Char) : (scan c cs).kind ≠ .endOfInput := by
  generalize h : scan c cs = s
  unfold scan at h
  split at h
  · rw [← h]; simp
  split at h
  · rw [← h, Scanned.comment]; split <;> simp [TokenKind.ofError]
  split at h
  · rw [← h]; exact Scanned.stringFrom_kind_ne _ _ _
  split at h
  · rw [← h]; cases cs <;> simp [Scanned.character, TokenKind.ofError]
  split at h
  · rw [← h, Scanned.symbol]; split <;> simp [TokenKind.ofError]
  split at h
  · rw [← h, Scanned.colon.eq_def]; split
    · simp [TokenKind.ofError]
    · split
      · simp
      · split <;> simp [TokenKind.ofError]
  split at h
  · rw [← h]; exact Scanned.number_kind_ne c cs
  split at h
  · rw [← h]; exact Scanned.word_kind_ne c cs
  split at h
  · rw [← h]; simp [Scanned.operator]
  · rw [← h]; simp [TokenKind.ofError]

/-- How tokens lie over a text that stands after `before`: blanks, then the characters of a token, and
so on until only blanks are left, after which the token for the end has its place. -/
inductive LaidOut : List Char → List Char → List Token → Prop
  | finish {before gap : List Char} (blank : ∀ c ∈ gap, isBlank c) :
    LaidOut before gap [.finish (Position.advance {} (before ++ gap))]
  | token {before gap text rest : List Char} {kind : TokenKind} {ts : List Token}
    (blank : ∀ c ∈ gap, isBlank c) (kind_ne : kind ≠ .endOfInput)
    (laid : LaidOut (before ++ gap ++ text) rest ts) :
    LaidOut before (gap ++ text ++ rest)
      (⟨kind, ⟨Position.advance {} (before ++ gap), Position.advance {} (before ++ gap ++ text)⟩,
        String.ofList text⟩ :: ts)

theorem laidOut_tokensFrom (done : Array Token) (before cs : List Char) :
    ∃ ts, (tokensFrom done (Position.advance {} before) cs).toList = done.toList ++ ts ∧
      LaidOut before cs ts := by
  have hblank : ∀ c ∈ cs.takeWhile isBlank, isBlank c := fun c hc => List.mem_takeWhile_imp hc
  have hsplit := List.takeWhile_append_dropWhile (p := isBlank) (l := cs)
  rw [tokensFrom]
  dsimp only
  rw [← Position.advance_append]
  split
  · next hrest =>
    rw [hrest, List.append_nil] at hsplit
    refine ⟨_, Array.toList_push, ?_⟩
    have hlaid : LaidOut before (cs.takeWhile isBlank) _ := .finish hblank
    rwa [hsplit] at hlaid ⊢
  · next c rest hrest =>
    have hlt := scan_rest_length_lt_of_dropWhile hrest
    rw [← Position.advance_append]
    obtain ⟨ts, hts, hlaid⟩ := laidOut_tokensFrom
      (done.push ⟨(scan c rest).kind, ⟨Position.advance {} (before ++ cs.takeWhile isBlank),
        Position.advance {} (before ++ cs.takeWhile isBlank ++ (scan c rest).text)⟩,
        String.ofList (scan c rest).text⟩)
      (before ++ cs.takeWhile isBlank ++ (scan c rest).text) (scan c rest).rest
    have h := LaidOut.token hblank (scan_kind_ne c rest) hlaid
    rw [List.append_assoc, scan_append, ← hrest, hsplit] at h
    refine ⟨_, ?_, h⟩
    rw [hts, Array.toList_push, List.append_assoc]
    rfl
termination_by cs.length

theorem laidOut_tokens (source : String) : LaidOut [] source.toList (tokens source) := by
  obtain ⟨ts, hts, hlaid⟩ := laidOut_tokensFrom #[] [] source.toList
  rw [tokens, ← Position.advance_nil {}, hts]
  exact hlaid

/-! ## Lexemes and gaps -/

/-- The bytes of the middle part of a text stand between the sizes of what ends before and after it. -/
theorem extract_utf8Encode (before text rest : List Char) :
    (before ++ text ++ rest).utf8Encode.extract before.utf8Encode.size (before ++ text).utf8Encode.size
      = text.utf8Encode := by
  simp only [List.utf8Encode_append, ByteArray.extract_append_size_left]
  exact ByteArray.extract_append_eq_right rfl ByteArray.size_append

theorem extract_of_toList_eq {source : String} {before text rest : List Char}
    (h : source.toList = before ++ text ++ rest) :
    source.toByteArray.extract before.utf8Encode.size (before ++ text).utf8Encode.size
      = text.utf8Encode := by
  rw [← String.ofList_toList (s := source), String.toByteArray_ofList, h]
  exact extract_utf8Encode before text rest

/-- The parts of a source that stand before each of some tokens: the first part starts at a given
offset, the others where the token before ends. -/
def gapsFrom (source : String) (offset : Nat) : List Token → List ByteArray
  | [] => []
  | t :: ts =>
    source.toByteArray.extract offset t.span.start.offset :: gapsFrom source t.span.stop.offset ts

/-- Whether bytes are the UTF-8 form of a text that has blanks only. -/
def IsBlankText (bytes : ByteArray) : Prop :=
  ∃ blanks : List Char, (∀ c ∈ blanks, isBlank c) ∧ bytes = blanks.utf8Encode

/-- The bytes of some tokens, each with the gap before it. -/
def assembled (gaps : List ByteArray) (ts : List Token) : ByteArray :=
  (List.zipWith (fun gap t => gap ++ t.lexeme.toByteArray) gaps ts).foldr (· ++ ·) ByteArray.empty

theorem assembled_cons (gap : ByteArray) (gaps : List ByteArray) (t : Token) (ts : List Token) :
    assembled (gap :: gaps) (t :: ts) = gap ++ t.lexeme.toByteArray ++ assembled gaps ts := rfl

namespace LaidOut

variable {source : String} {before cs : List Char} {ts : List Token}

theorem eq_append_finish (h : LaidOut before cs ts) :
    ∃ read, ts = read ++ [.finish (Position.advance {} (before ++ cs))] ∧
      ∀ t ∈ read, t.isFinish = false := by
  induction h with
  | finish => exact ⟨[], rfl, by simp⟩
  | @token before gap text rest kind ts _ hkind _ ih =>
    obtain ⟨read, rfl, hread⟩ := ih
    have hassoc : before ++ (gap ++ text ++ rest) = before ++ gap ++ text ++ rest := by
      simp only [List.append_assoc]
    rw [hassoc]
    exact ⟨_ :: read, rfl, List.forall_mem_cons.mpr ⟨decide_eq_false hkind, hread⟩⟩

/-- Where a token stands, and that its lexeme is the text there. -/
theorem of_mem (h : LaidOut before cs ts) (hsource : source.toList = before ++ cs) :
    ∀ t ∈ ts, t.span.start.offset ≤ t.span.stop.offset ∧
      source.toByteArray.extract t.span.start.offset t.span.stop.offset = t.lexeme.toByteArray ∧
      t.span.start.IsIn source ∧ t.span.stop.IsIn source := by
  induction h with
  | @finish before gap _ =>
    intro t ht
    rw [List.mem_singleton.mp ht]
    have hin : (Position.advance {} (before ++ gap)).IsIn source :=
      ⟨_, hsource ▸ List.prefix_rfl, Position.isAfter_advance _⟩
    refine ⟨le_rfl, ?_, hin, hin⟩
    have hempty : source.toByteArray.extract (before ++ gap).utf8Encode.size
        (before ++ gap ++ []).utf8Encode.size = ByteArray.empty :=
      extract_of_toList_eq (by rw [hsource, List.append_nil, List.append_nil])
    rw [List.append_nil] at hempty
    rw [Token.finish, Span.point, Position.offset_advance, hempty]
    rfl
  | @token before gap text rest kind ts _ _ _ ih =>
    have hsplit : source.toList = (before ++ gap) ++ text ++ rest := by
      rw [hsource]
      simp only [List.append_assoc]
    refine List.forall_mem_cons.mpr ⟨⟨?_, ?_, ?_, ?_⟩, ih hsplit⟩
    · simp only [Position.offset_advance, List.utf8Encode_append, ByteArray.size_append]
      omega
    · simp only [Position.offset_advance]
      rw [extract_of_toList_eq hsplit, String.toByteArray_ofList]
    · exact ⟨_, ⟨text ++ rest, by rw [hsplit, List.append_assoc _ text]⟩, Position.isAfter_advance _⟩
    · exact ⟨_, ⟨rest, hsplit.symm⟩, Position.isAfter_advance _⟩

theorem le_start (h : LaidOut before cs ts) :
    ∀ t ∈ ts.head?, before.utf8Encode.size ≤ t.span.start.offset := by
  cases h <;> simp [Token.finish, Span.point, Position.offset_advance, ByteArray.size_append]

theorem isChain (h : LaidOut before cs ts) :
    ts.IsChain fun s t => s.span.stop.offset ≤ t.span.start.offset := by
  induction h with
  | finish => exact .singleton _
  | token _ _ hlaid ih =>
    refine List.isChain_cons.mpr ⟨?_, ih⟩
    simp only [Position.offset_advance]
    exact hlaid.le_start

/-- There are only blanks before each token. -/
theorem isBlankText_of_mem_gapsFrom (h : LaidOut before cs ts) (hsource : source.toList = before ++ cs) :
    ∀ gap ∈ gapsFrom source before.utf8Encode.size ts, IsBlankText gap := by
  induction h with
  | @finish before gap hblank =>
    refine List.forall_mem_cons.mpr ⟨⟨gap, hblank, ?_⟩, by simp [gapsFrom]⟩
    rw [Token.finish, Span.point, Position.offset_advance]
    exact extract_of_toList_eq (by rw [hsource, List.append_nil])
  | @token before gap text rest kind ts hblank _ _ ih =>
    refine List.forall_mem_cons.mpr ⟨⟨gap, hblank, ?_⟩, ?_⟩
    · rw [Position.offset_advance]
      exact extract_of_toList_eq (by rw [hsource]; simp only [List.append_assoc]; rfl)
    · rw [Position.offset_advance]
      exact ih (by rw [hsource]; simp only [List.append_assoc])

/-- The gaps and the lexemes together are the text. -/
theorem assembled_eq (h : LaidOut before cs ts) (hsource : source.toList = before ++ cs) :
    assembled (gapsFrom source before.utf8Encode.size ts) ts = cs.utf8Encode := by
  induction h with
  | @finish before gap _ =>
    have hgap : source.toByteArray.extract before.utf8Encode.size (before ++ gap).utf8Encode.size
        = gap.utf8Encode := extract_of_toList_eq (by rw [hsource, List.append_nil])
    rw [gapsFrom, assembled_cons, Token.finish, Span.point, Position.offset_advance, hgap]
    exact ByteArray.append_empty.trans ByteArray.append_empty
  | @token before gap text rest kind ts _ _ _ ih =>
    have hgap : source.toByteArray.extract before.utf8Encode.size (before ++ gap).utf8Encode.size
        = gap.utf8Encode :=
      extract_of_toList_eq (by rw [hsource]; simp only [List.append_assoc]; rfl)
    have hrest := ih (by rw [hsource]; simp only [List.append_assoc])
    rw [gapsFrom, assembled_cons, Position.offset_advance, Position.offset_advance, hgap, hrest,
      String.toByteArray_ofList, List.utf8Encode_append, List.utf8Encode_append]

end LaidOut

/-- Tokens and source determine each other's places. The last token, and no other, stands for the end of
the source. Each lexeme is the part of the source that its span names. Spans follow each other without
overlap, blanks alone stand before each token, and these gaps and the lexemes together are the source.
Every place has the line and the column that the source before it gives. -/
theorem tokens_lossless (source : String) :
    (∃ read finish, tokens source = read ++ [finish] ∧ (∀ t ∈ read, t.isFinish = false) ∧
      finish.isFinish = true ∧ finish.lexeme = "" ∧ finish.span.start = finish.span.stop ∧
      finish.span.start.offset = source.utf8ByteSize) ∧
    (∀ t ∈ tokens source, t.span.start.offset ≤ t.span.stop.offset ∧
      source.toByteArray.extract t.span.start.offset t.span.stop.offset = t.lexeme.toByteArray) ∧
    ((tokens source).IsChain fun s t => s.span.stop.offset ≤ t.span.start.offset) ∧
    (∀ gap ∈ gapsFrom source 0 (tokens source), IsBlankText gap) ∧
    assembled (gapsFrom source 0 (tokens source)) (tokens source) = source.toByteArray ∧
    ∀ t ∈ tokens source, t.span.start.IsIn source ∧ t.span.stop.IsIn source := by
  have hlaid := laidOut_tokens source
  have hbytes : source.toList.utf8Encode = source.toByteArray := by
    rw [← String.toByteArray_ofList, String.ofList_toList]
  refine ⟨?_, fun t ht => ?_, hlaid.isChain, hlaid.isBlankText_of_mem_gapsFrom rfl, ?_, fun t ht => ?_⟩
  · obtain ⟨read, hread, hne⟩ := hlaid.eq_append_finish
    refine ⟨read, _, hread, hne, rfl, rfl, rfl, ?_⟩
    show (Position.advance {} source.toList).offset = _
    rw [Position.offset_advance, hbytes]
    rfl
  · obtain ⟨hle, hlexeme, -⟩ := hlaid.of_mem rfl t ht
    exact ⟨hle, hlexeme⟩
  · rw [← hbytes]
    exact hlaid.assembled_eq rfl
  · obtain ⟨-, -, hin⟩ := hlaid.of_mem rfl t ht
    exact hin

end Smalltalk
