import Mathlib
import Smalltalk.Bytecode.Encoding

/-!
# Decoding inverts encoding

An opcode determines how many operand words follow, so encoded instructions can be read back one
after the other, whatever stands behind them. Conversely, bytes that are code have only one reading, and
encoding what was read gives them back.
-/

namespace Smalltalk.Bytecode

/-- The two bytes of a word determine it. -/
theorem wordOfBytes_wordBytes (w : UInt16) :
    wordOfBytes (UInt8.ofNat (w.toNat / 256)) (UInt8.ofNat w.toNat) = w := by
  have hw := w.toNat_lt
  apply UInt16.toNat_inj.mp
  simp only [wordOfBytes, UInt16.toNat_ofNat', UInt8.toNat_ofNat']
  omega

/-- The two halves of a 32-bit value determine it. -/
theorem ofHalves_halves (v : UInt32) :
    ofHalves (UInt16.ofNat (v.toNat / 65536)) (UInt16.ofNat v.toNat) = v := by
  have hv := v.toNat_lt
  apply UInt32.toNat_inj.mp
  simp only [ofHalves, UInt32.toNat_ofNat', UInt16.toNat_ofNat']
  omega

/-- Words are read back from their bytes, and what follows them is left. -/
theorem readWords_flatMap (words : List UInt16) (rest : List UInt8) :
    readWords words.length (words.flatMap wordBytes ++ rest) = some (words, rest) := by
  induction words with
  | nil => rfl
  | cons w words ih =>
    simp only [List.length_cons, List.flatMap_cons, wordBytes, List.cons_append, List.nil_append,
      readWords]
    rw [ih]
    simp only [Option.map_some, wordOfBytes_wordBytes]

namespace Instruction

theorem length_words (i : Instruction) : i.words.length = i.opcode.operandWords := by
  cases i <;> rfl

/-- Opcode and operand words determine an instruction. -/
theorem ofWords?_words (i : Instruction) : ofWords? i.opcode i.words = some i := by
  cases i with
  | pushInt value =>
    show some (pushInt ⟨ofHalves _ _⟩) = _
    rw [ofHalves_halves]
  | pushFloat bits =>
    show some (pushFloat (ofHalves _ _)) = _
    rw [ofHalves_halves]
  | _ => rfl

end Instruction

/-- An instruction is read back from its bytes, wherever it stands and whatever follows it. -/
theorem readInstruction_encode (offset : Nat) (i : Instruction) (rest : List UInt8) :
    readInstruction offset i.opcode.byte (i.words.flatMap wordBytes ++ rest) = .ok (i, rest) := by
  unfold readInstruction
  rw [Opcode.ofByte?_byte]
  simp only
  rw [← i.length_words, readWords_flatMap]
  simp only
  rw [i.ofWords?_words]

theorem decodeFrom_encode (offset : Nat) (code : List Instruction) :
    decodeFrom offset (encode code) = ⟨code, none⟩ := by
  induction code generalizing offset with
  | nil => simp [encode, decodeFrom]
  | cons i code ih =>
    have hread := readInstruction_encode offset i (encode code)
    simp only [encode, List.flatMap_cons, Instruction.encode, List.cons_append] at hread ⊢
    rw [decodeFrom]
    split
    · next e he => rw [hread] at he; cases he
    · next i' rest he =>
      rw [hread] at he
      cases he
      have := ih (offset + i.size)
      simp only [encode] at this
      simp [this]

/-- Code is read back from its bytes. -/
theorem decode_encode (code : List Instruction) : decode (encode code) = ⟨code, none⟩ :=
  decodeFrom_encode 0 code

/-! ## Encoding what was read -/

theorem wordBytes_wordOfBytes (high low : UInt8) : wordBytes (wordOfBytes high low) = [high, low] := by
  have hhigh := high.toNat_lt
  have hlow := low.toNat_lt
  have hword : (wordOfBytes high low).toNat = high.toNat * 256 + low.toNat := by
    rw [wordOfBytes, UInt16.toNat_ofNat']
    omega
  rw [wordBytes, hword]
  congr 2 <;> apply UInt8.toNat_inj.mp <;> rw [UInt8.toNat_ofNat'] <;> omega

theorem halves_ofHalves (high low : UInt16) : halves (ofHalves high low) = [high, low] := by
  have hhigh := high.toNat_lt
  have hlow := low.toNat_lt
  have hvalue : (ofHalves high low).toNat = high.toNat * 65536 + low.toNat := by
    rw [ofHalves, UInt32.toNat_ofNat']
    omega
  rw [halves, hvalue]
  congr 2 <;> apply UInt16.toNat_inj.mp <;> rw [UInt16.toNat_ofNat'] <;> omega

theorem Opcode.byte_of_ofByte? {b : UInt8} {op : Opcode} (h : ofByte? b = some op) : op.byte = b := by
  unfold ofByte? at h
  split at h
  · cases h
  · next hb =>
    have hpos : b.toNat ≠ 0 := fun hzero => hb (UInt8.toNat_inj.mp hzero)
    obtain ⟨hlt, hop⟩ := List.getElem?_eq_some_iff.mp h
    have hbytes : ∀ i (hi : i < all.length), all[i].byte.toNat = i + 1 := by decide
    apply UInt8.toNat_inj.mp
    rw [← hop, hbytes _ hlt]
    omega

theorem eq_append_of_readWords {n : Nat} {bytes rest : List UInt8} {words : List UInt16}
    (h : readWords n bytes = some (words, rest)) : bytes = words.flatMap wordBytes ++ rest := by
  induction n generalizing bytes words with
  | zero =>
    cases h
    rfl
  | succ n ih =>
    match bytes, h with
    | high :: low :: bytes, h =>
      obtain ⟨⟨words, rest⟩, hread, heq⟩ := Option.map_eq_some_iff.mp h
      cases heq
      rw [List.flatMap_cons, wordBytes_wordOfBytes, ih hread]
      rfl

theorem Instruction.words_of_ofWords? {op : Opcode} {words : List UInt16} {i : Instruction}
    (h : ofWords? op words = some i) : i.opcode = op ∧ i.words = words := by
  -- no opcode has more than three operand words
  cases op <;> rcases words with _ | ⟨a, _ | ⟨b, _ | ⟨c, _ | ⟨d, rest⟩⟩⟩⟩ <;> cases h <;>
    simp only [opcode, Instruction.words, halves_ofHalves, and_self]

theorem eq_append_of_readInstruction {offset : Nat} {b : UInt8} {bytes rest : List UInt8}
    {i : Instruction} (h : readInstruction offset b bytes = .ok (i, rest)) :
    b :: bytes = i.encode ++ rest := by
  unfold readInstruction at h
  split at h
  · cases h
  · next op hop =>
    split at h
    · cases h
    · next words rest' hread =>
      split at h
      · cases h
      · next hi =>
        cases h
        obtain ⟨hopcode, hwords⟩ := Instruction.words_of_ofWords? hi
        rw [Instruction.encode, hopcode, hwords, Opcode.byte_of_ofByte? hop,
          eq_append_of_readWords hread]
        rfl

theorem encode_decodeFrom (offset : Nat) (bytes : List UInt8)
    (h : (decodeFrom offset bytes).failure? = none) :
    encode (decodeFrom offset bytes).instructions = bytes := by
  induction hlength : bytes.length using Nat.strong_induction_on generalizing offset bytes with
  | _ n ih =>
    cases bytes with
    | nil =>
      rw [decodeFrom]
      rfl
    | cons b bytes =>
      rw [decodeFrom] at h ⊢
      split at h
      · cases h
      · next i rest hread =>
        have hbytes := eq_append_of_readInstruction hread
        have hlt := length_of_readInstruction hread
        have hrest := ih rest.length (by rw [← hlength, List.length_cons]; omega) (offset + i.size) rest h rfl
        show encode (i :: (decodeFrom (offset + i.size) rest).instructions) = b :: bytes
        rw [hbytes, encode, List.flatMap_cons, ← encode, hrest]

/-- Bytes that are code are the encoding of what they are read as. -/
theorem encode_decode (bytes : List UInt8) (h : (decode bytes).failure? = none) :
    encode (decode bytes).instructions = bytes :=
  encode_decodeFrom 0 bytes h

end Smalltalk.Bytecode
