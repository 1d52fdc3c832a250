import Mathlib
import Smalltalk.Proofs.Decoding

/-!
# Decoding bytes that are no code

Any bytes can be given to a decoder. It takes instructions as long as there are any, then it may report
one error, and after that there is nothing more. The instructions that were taken are exactly the bytes
before the error, and the error says what stands there instead of an instruction.
-/

namespace Smalltalk.Bytecode

/-! ## One instruction -/

theorem readWords_eq_none_iff {n : Nat} {bytes : List UInt8} :
    readWords n bytes = none ↔ bytes.length < 2 * n := by
  fun_induction readWords n bytes with
  | case1 bytes => simp
  | case2 n high low bytes ih =>
    rw [Option.map_eq_none_iff, ih, List.length_cons, List.length_cons]
    omega
  | case3 n bytes hshort =>
    -- fewer than two bytes are left
    have hlength : bytes.length < 2 := by
      match bytes, hshort with
      | [], _ => simp
      | [_], _ => simp
      | high :: low :: rest, hshort => exact absurd rfl (hshort high low rest)
    simp only [true_iff]
    omega

theorem Opcode.ofByte?_eq_none_iff {b : UInt8} : ofByte? b = none ↔ b.toNat < 1 ∨ 21 < b.toNat := by
  unfold ofByte?
  split
  · next hb => simp [hb]
  · next hb =>
    have hpos : b.toNat ≠ 0 := fun hzero => hb (UInt8.toNat_inj.mp hzero)
    rw [List.getElem?_eq_none_iff]
    show 21 ≤ b.toNat - 1 ↔ _
    omega

theorem Opcode.byte_range (op : Opcode) : ¬(op.byte.toNat < 1 ∨ 21 < op.byte.toNat) := by
  rw [← ofByte?_eq_none_iff, ofByte?_byte]
  exact Option.some_ne_none op

theorem Opcode.byte_inj {op op' : Opcode} : op.byte = op'.byte ↔ op = op' :=
  ⟨fun h => Option.some.inj (by rw [← ofByte?_byte, h, ofByte?_byte]), congrArg byte⟩

theorem length_of_readWords_eq_some {n : Nat} {bytes rest : List UInt8} {words : List UInt16}
    (h : readWords n bytes = some (words, rest)) : words.length = n := by
  have hbytes := congrArg List.length (eq_append_of_readWords h)
  have hlength := length_of_readWords h
  rw [List.length_append, length_flatMap_wordBytes] at hbytes
  omega

/-- The right number of words always makes an instruction. -/
theorem Instruction.ofWords?_ne_none {op : Opcode} {words : List UInt16}
    (h : words.length = op.operandWords) : ofWords? op words ≠ none := by
  intro hnone
  -- no opcode has more than three operand words
  cases op <;> rcases words with _ | ⟨a, _ | ⟨b, _ | ⟨c, _ | ⟨d, rest⟩⟩⟩⟩ <;> cases hnone <;> cases h

/-- Why no instruction stands at the beginning of some bytes, where the first of them is at `offset`:
it is no opcode, or fewer bytes follow it than its operands take. -/
inductive Refused (offset : Nat) : List UInt8 → DecodeError → Prop
  | unknownOpcode {b : UInt8} {rest : List UInt8} (unknown : b.toNat < 1 ∨ 21 < b.toNat) :
    Refused offset (b :: rest) (.unknownOpcode b offset)
  | truncated {op : Opcode} {rest : List UInt8} (short : rest.length < op.operandBytes) :
    Refused offset (op.byte :: rest) (.truncated op offset)

/-- An instruction fails to be read exactly if there is a reason why none stands there. -/
theorem readInstruction_eq_error_iff {offset : Nat} {b : UInt8} {rest : List UInt8} {e : DecodeError} :
    readInstruction offset b rest = .error e ↔ Refused offset (b :: rest) e := by
  constructor
  · intro h
    unfold readInstruction at h
    split at h
    · next hop =>
      cases h
      exact .unknownOpcode (Opcode.ofByte?_eq_none_iff.mp hop)
    · next op hop =>
      split at h
      · next hread =>
        cases h
        rw [← Opcode.byte_of_ofByte? hop]
        exact .truncated (readWords_eq_none_iff.mp hread)
      · next words rest' hread =>
        split at h
        · next hwords => exact absurd hwords (Instruction.ofWords?_ne_none (length_of_readWords_eq_some hread))
        · cases h
  · rintro (hunknown | hshort)
    · simp only [readInstruction, Opcode.ofByte?_eq_none_iff.mpr hunknown]
    · simp only [readInstruction, Opcode.ofByte?_byte, readWords_eq_none_iff.mpr hshort]

namespace Refused

variable {offset : Nat} {bytes : List UInt8} {e : DecodeError}

theorem ne_nil (h : Refused offset bytes e) : bytes ≠ [] := by
  cases h <;> exact List.cons_ne_nil _ _

/-- Bytes are refused as an unknown opcode exactly if their first byte is none. -/
theorem eq_unknownOpcode_iff (h : Refused offset bytes e) {b : UInt8} {place : Nat} :
    e = .unknownOpcode b place ↔
      place = offset ∧ bytes.head? = some b ∧ (b.toNat < 1 ∨ 21 < b.toNat) := by
  cases h with
  | unknownOpcode unknown =>
    simp only [DecodeError.unknownOpcode.injEq, List.head?_cons, Option.some.injEq]
    grind
  | truncated short =>
    simp only [reduceCtorEq, List.head?_cons, Option.some.injEq, false_iff, not_and]
    rintro - rfl
    exact Opcode.byte_range _

/-- Bytes are refused as truncated exactly if they start with an opcode whose operands they do not
hold. -/
theorem eq_truncated_iff (h : Refused offset bytes e) {op : Opcode} {place : Nat} :
    e = .truncated op place ↔
      place = offset ∧ bytes.head? = some op.byte ∧ bytes.length < op.size := by
  cases h with
  | unknownOpcode unknown =>
    simp only [reduceCtorEq, List.head?_cons, Option.some.injEq, false_iff, not_and]
    rintro - rfl
    exact absurd unknown op.byte_range
  | truncated short =>
    simp only [DecodeError.truncated.injEq, List.head?_cons, Option.some.injEq, List.length_cons, Opcode.size,
      Opcode.byte_inj]
    grind

end Refused

/-! ## All bytes -/

/-- What is decoded stands at the beginning of the bytes, and what is left is refused, or is nothing. -/
theorem decodeFrom_spec (offset : Nat) (bytes : List UInt8) :
    ∃ rest, bytes = encode (decodeFrom offset bytes).instructions ++ rest ∧
      ((decodeFrom offset bytes).failure? = none → rest = []) ∧
      ∀ e, (decodeFrom offset bytes).failure? = some e →
        Refused (offset + (encode (decodeFrom offset bytes).instructions).length) rest e := by
  -- an instruction is taken off the front, and the bytes after it are fewer
  fun_induction decodeFrom offset bytes with
  | case1 offset => exact ⟨[], rfl, fun _ => rfl, nofun⟩
  | case2 offset b bytes e hread =>
    refine ⟨b :: bytes, rfl, nofun, fun e' he => ?_⟩
    cases he
    exact readInstruction_eq_error_iff.mp hread
  | case3 offset b bytes i rest hread _ tail ih =>
    obtain ⟨rest', hrest, hnone, hsome⟩ := ih
    refine ⟨rest', ?_, hnone, fun e he => ?_⟩
    · rw [eq_append_of_readInstruction hread, encode_cons, List.append_assoc, ← hrest]
    · rw [encode_cons, List.length_append, Instruction.length_encode, ← Nat.add_assoc]
      exact hsome e he

namespace Decoder

/-- What the decoder `d` yields when it is asked for the item with number `k`, counted from zero. -/
def item? (d : Decoder) (k : Nat) : Option (Except DecodeError Instruction) :=
  (d.after k).next?.map Prod.fst

theorem next?_of_refused {offset : Nat} {bytes : List UInt8} {e : DecodeError}
    (h : Refused offset bytes e) :
    (Decoder.mk offset bytes).next? = some (.error e, ⟨offset + bytes.length, []⟩) := by
  obtain ⟨b, rest, rfl⟩ := List.exists_cons_of_ne_nil h.ne_nil
  simp only [next?, readInstruction_eq_error_iff.mpr h]

/-- A decoder at the end stays there. -/
theorem after_eq_of_next?_eq_none {d : Decoder} {k : Nat} (h : (d.after k).next? = none) {n : Nat}
    (hn : k ≤ n) : d.after n = d.after k := by
  induction n, hn using Nat.le_induction with
  | base => rfl
  | succ n _ ih => rw [after, ih, h]

variable {code : List Instruction} {rest : List UInt8}

theorem item?_of_getElem? {k : Nat} {i : Instruction} (h : code[k]? = some i) :
    (Decoder.mk 0 (encode code ++ rest)).item? k = some (.ok i) := by
  obtain ⟨hk, rfl⟩ := List.getElem?_eq_some_iff.mp h
  rw [item?, after_encode_append 0 rest hk.le, List.drop_eq_getElem_cons hk, encode_cons, List.append_assoc,
    next?_encode]
  rfl

theorem after_length :
    (Decoder.mk 0 (encode code ++ rest)).after code.length = ⟨(encode code).length, rest⟩ := by
  rw [after_encode_append 0 rest le_rfl, List.take_length, List.drop_length, Nat.zero_add]
  rfl

/-- After the instructions come at most an error, and then nothing. -/
theorem after_of_length_lt {failure? : Option DecodeError} (hnone : failure? = none → rest = [])
    (hsome : ∀ e, failure? = some e → Refused (encode code).length rest e) {k : Nat}
    (hk : code.length < k) :
    (Decoder.mk 0 (encode code ++ rest)).after k = ⟨(encode code ++ rest).length, []⟩ := by
  have hnext : (Decoder.mk 0 (encode code ++ rest)).after (code.length + 1)
      = ⟨(encode code ++ rest).length, []⟩ := by
    rw [after, after_length, List.length_append]
    cases failure? with
    | none =>
      rw [hnone rfl]
      rfl
    | some e => rw [next?_of_refused (hsome e rfl)]
  rw [after_eq_of_next?_eq_none (by rw [hnext]; rfl) hk, hnext]

end Decoder

/-- A decoder takes what there is of code and stops cleanly. It yields finitely many items: instructions,
after them at most one error, and then nothing for ever. The instructions are the code at the beginning
of the bytes, and they are all of it exactly if there is no error. An error stands right after them: the
byte there is no opcode, or it is one and fewer bytes are left than its operands take. In the end nothing
is left to decode. -/
theorem decoder_stops_cleanly (bytes : List UInt8) :
    ∃ code failure?, decode bytes = ⟨code, failure?⟩ ∧
      (∀ k i, code[k]? = some i → (Decoder.mk 0 bytes).item? k = some (.ok i)) ∧
      (Decoder.mk 0 bytes).item? code.length = failure?.map .error ∧
      (∀ k, code.length < k →
        (Decoder.mk 0 bytes).item? k = none ∧ (Decoder.mk 0 bytes).after k = ⟨bytes.length, []⟩) ∧
      encode code <+: bytes ∧
      (encode code = bytes ↔ failure? = none) ∧
      (∀ b offset, failure? = some (.unknownOpcode b offset) ↔
        offset = (encode code).length ∧ bytes[offset]? = some b ∧ ¬(1 ≤ b.toNat ∧ b.toNat ≤ 21)) ∧
      ∀ op offset, failure? = some (.truncated op offset) ↔
        offset = (encode code).length ∧ bytes[offset]? = some op.byte ∧
          bytes.length - (offset + 1) < op.operandBytes := by
  obtain ⟨rest, hbytes, hnone, hsome⟩ := decodeFrom_spec 0 bytes
  rw [← decode] at hbytes hnone hsome
  generalize hcode : (decode bytes).instructions = code at hbytes hsome
  generalize hfailure : (decode bytes).failure? = failure? at hnone hsome
  rw [Nat.zero_add] at hsome
  have hdecode : decode bytes = ⟨code, failure?⟩ := by rw [← hcode, ← hfailure]
  subst hbytes
  -- the byte after the instructions is the first of those that are left
  have hhead : (encode code ++ rest)[(encode code).length]? = rest.head? := by
    rw [List.getElem?_append_right le_rfl, Nat.sub_self, List.head?_eq_getElem?]
  have hafter := fun k (hk : code.length < k) => Decoder.after_of_length_lt hnone hsome hk
  refine ⟨code, failure?, hdecode, fun k i => Decoder.item?_of_getElem?, ?_, fun k hk => ⟨?_, hafter k hk⟩,
    List.prefix_append _ _, ?_, fun b offset => ?_, fun op offset => ?_⟩
  · rw [Decoder.item?, Decoder.after_length]
    cases failure? with
    | none => rw [hnone rfl]; rfl
    | some e => rw [Decoder.next?_of_refused (hsome e rfl)]; rfl
  · rw [Decoder.item?, hafter k hk]
    rfl
  · cases failure? with
    | none => simp [hnone rfl]
    | some e => simp [(hsome e rfl).ne_nil]
  · cases failure? with
    | none => grind
    | some e =>
      rw [Option.some.injEq, (hsome e rfl).eq_unknownOpcode_iff]
      grind
  · cases failure? with
    | none => grind
    | some e =>
      rw [Option.some.injEq, (hsome e rfl).eq_truncated_iff]
      grind [Opcode.size]

end Smalltalk.Bytecode
