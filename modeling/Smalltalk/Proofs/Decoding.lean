import Mathlib
import Smalltalk.Proofs.Encoding

/-!
# Decoding step by step

A decoder stands at an offset of a byte string and takes one instruction after the other; to decode
a byte string is to let a decoder run to its end. On encoded instructions the decoder is, before
each instruction, just where the encoder was when it wrote that instruction.
-/

namespace Smalltalk.Bytecode

theorem length_flatMap_wordBytes (words : List UInt16) :
    (words.flatMap wordBytes).length = 2 * words.length := by
  induction words with
  | nil => rfl
  | cons w words ih =>
    simp only [List.flatMap_cons, List.length_append, List.length_cons, ih, wordBytes, List.length_nil]
    omega

theorem Instruction.length_encode (i : Instruction) : i.encode.length = i.size := by
  have hwords := length_flatMap_wordBytes i.words
  rw [i.length_words] at hwords
  simp only [encode, List.length_cons, hwords, size, Opcode.size, Opcode.operandBytes]
  omega

theorem encode_append (code code' : List Instruction) :
    encode (code ++ code') = encode code ++ encode code' := by
  simp [encode]

theorem encode_cons (i : Instruction) (code : List Instruction) :
    encode (i :: code) = i.encode ++ encode code := rfl

theorem length_encode_take_succ {code : List Instruction} {k : Nat} (hk : k < code.length) :
    (encode (code.take (k + 1))).length = (encode (code.take k)).length + code[k].size := by
  rw [← List.take_append_getElem hk, encode_append, List.length_append, encode_cons,
    List.length_append, Instruction.length_encode]
  rfl

/-- Listings give each instruction the offset at which it was written. -/
theorem getElem?_located (offset : Nat) (code : List Instruction) (k : Nat) :
    (located offset code)[k]? = code[k]?.map fun i => (offset + (encode (code.take k)).length, i) := by
  induction code generalizing offset k with
  | nil => rfl
  | cons i code ih =>
    cases k with
    | zero => simp [located, encode]
    | succ k =>
      have hlength : (encode ((i :: code).take (k + 1))).length = i.size + (encode (code.take k)).length := by
        rw [List.take_succ_cons, encode_cons, List.length_append, Instruction.length_encode]
      rw [located, List.getElem?_cons_succ, List.getElem?_cons_succ, ih, hlength]
      simp only [Nat.add_assoc]

/-- A place in a byte string, and the bytes from there on. -/
structure Decoder where
  offset : Nat
  bytes : List UInt8

namespace Decoder

/-- The next instruction, or what is wrong with it, and the decoder after that. There is nothing to
decode after an error. -/
def next? (d : Decoder) : Option (Except DecodeError Instruction × Decoder) :=
  match d.bytes with
  | [] => none
  | b :: bytes =>
    match readInstruction d.offset b bytes with
    | .error e => some (.error e, ⟨d.offset + d.bytes.length, []⟩)
    | .ok (i, rest) => some (.ok i, ⟨d.offset + i.size, rest⟩)

/-- The decoder after `k` steps; it stays at the end. -/
def after (d : Decoder) : Nat → Decoder
  | 0 => d
  | k + 1 =>
    match (d.after k).next? with
    | none => d.after k
    | some (_, d') => d'

/-- Decoding takes one step and goes on from there. -/
theorem decodeFrom_eq (d : Decoder) :
    decodeFrom d.offset d.bytes =
      match d.next? with
      | none => ⟨[], none⟩
      | some (.error e, _) => ⟨[], some e⟩
      | some (.ok i, d') =>
        ⟨i :: (decodeFrom d'.offset d'.bytes).instructions, (decodeFrom d'.offset d'.bytes).failure?⟩ := by
  obtain ⟨offset, bytes⟩ := d
  cases bytes with
  | nil => simp [decodeFrom, next?]
  | cons b bytes =>
    rw [decodeFrom]
    split
    · next e he => simp [next?, he]
    · next i rest hi => simp [next?, hi]

theorem next?_encode (offset : Nat) (i : Instruction) (rest : List UInt8) :
    (Decoder.mk offset (i.encode ++ rest)).next? = some (.ok i, ⟨offset + i.size, rest⟩) := by
  have hread := readInstruction_encode offset i rest
  simp only [next?, Instruction.encode, List.cons_append, hread]

/-- After `k` steps the decoder has read the first `k` instructions, and is before the others and what
follows them. -/
theorem after_encode_append {code : List Instruction} (offset : Nat) (rest : List UInt8) {k : Nat}
    (hk : k ≤ code.length) :
    (Decoder.mk offset (encode code ++ rest)).after k
      = ⟨offset + (encode (code.take k)).length, encode (code.drop k) ++ rest⟩ := by
  induction k with
  | zero => simp [after, encode]
  | succ k ih =>
    have hlt : k < code.length := hk
    have hbefore := ih hlt.le
    rw [List.drop_eq_getElem_cons hlt, encode_cons, List.append_assoc] at hbefore
    rw [after, hbefore, next?_encode, length_encode_take_succ hlt, Nat.add_assoc]

theorem after_encode {code : List Instruction} {k : Nat} (hk : k ≤ code.length) :
    (Decoder.mk 0 (encode code)).after k
      = ⟨(encode (code.take k)).length, encode (code.drop k)⟩ := by
  simpa using after_encode_append 0 [] hk

end Decoder

/-- Decoding undoes encoding, step by step: the decoder takes the instructions that were written, in
order, and then ends without an error. Before each it stands where the encoder stood, with the bytes
from there on before it, and each takes it further by the size of its opcode. So no two sequences of
instructions have the same bytes. -/
theorem decode_encode_stepwise (code : List Instruction) :
    decode (encode code) = ⟨code, none⟩ ∧
    (∀ k i, code[k]? = some i →
      let d := (Decoder.mk 0 (encode code)).after k
      let d' := (Decoder.mk 0 (encode code)).after (k + 1)
      d.next? = some (.ok i, d') ∧
      d.offset = (encode (code.take k)).length ∧
      d.bytes = (encode code).drop d.offset ∧
      d'.offset = d.offset + i.opcode.size ∧
      (located 0 (decode (encode code)).instructions)[k]? = some (d.offset, i)) ∧
    ((Decoder.mk 0 (encode code)).after code.length).next? = none ∧
    ∀ code', encode code' = encode code → code' = code := by
  refine ⟨decode_encode code, fun k i hi => ?_, ?_, fun code' h => ?_⟩
  · obtain ⟨hk, rfl⟩ := List.getElem?_eq_some_iff.mp hi
    have hd := Decoder.after_encode hk.le
    have hd' := Decoder.after_encode hk
    have hsplit : encode code = encode (code.take k) ++ encode (code.drop k) := by
      rw [← encode_append, List.take_append_drop]
    have hnext := Decoder.next?_encode (encode (code.take k)).length code[k] (encode (code.drop (k + 1)))
    rw [← encode_cons, ← List.drop_eq_getElem_cons hk, ← length_encode_take_succ hk] at hnext
    intro d d'
    simp only [d, d', hd, hd']
    refine ⟨hnext, trivial, ?_, length_encode_take_succ hk, ?_⟩
    · rw [hsplit, List.drop_left]
    · rw [decode_encode, getElem?_located, hi, Nat.zero_add]
      rfl
  · rw [Decoder.after_encode le_rfl, List.drop_length]
    rfl
  · have hdecoded := decode_encode code'
    rw [h, decode_encode code] at hdecoded
    exact (congrArg Decoded.instructions hdecoded).symm

end Smalltalk.Bytecode
