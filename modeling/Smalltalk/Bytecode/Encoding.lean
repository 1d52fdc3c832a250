import Smalltalk.Bytecode.Instruction

/-!
# Encoding and decoding

An instruction is written as its opcode byte and its operand words, high byte first. Reading code
stops at the first byte that starts no instruction, or at an instruction whose operands are cut
off; what was read up to there is kept.
-/

namespace Smalltalk.Bytecode

/-- The two bytes of a word, high byte first. -/
def wordBytes (w : UInt16) : List UInt8 :=
  [UInt8.ofNat (w.toNat / 256), UInt8.ofNat w.toNat]

/-- The word with the given high and low byte. -/
def wordOfBytes (high low : UInt8) : UInt16 :=
  UInt16.ofNat (high.toNat * 256 + low.toNat)

/-- The high and the low word of a 32-bit value. -/
def halves (v : UInt32) : List UInt16 :=
  [UInt16.ofNat (v.toNat / 65536), UInt16.ofNat v.toNat]

/-- The 32-bit value with the given high and low word. -/
def ofHalves (high low : UInt16) : UInt32 :=
  UInt32.ofNat (high.toNat * 65536 + low.toNat)

/-- The first `n` words of a byte string, and the bytes after them. -/
def readWords : Nat → List UInt8 → Option (List UInt16 × List UInt8)
  | 0, bytes => some ([], bytes)
  | n + 1, high :: low :: bytes =>
    (readWords n bytes).map fun (words, rest) => (wordOfBytes high low :: words, rest)
  | _ + 1, _ => none

namespace Instruction

/-- The operands as 16-bit words. -/
def words : Instruction → List UInt16
  | pushNil | pushSelf | pushTrue | pushFalse | pop | blockReturn | methodReturn => []
  | pushChar w | pushField w | pushLiteral w | pushGlobal w | pushArray w | storeField w
  | block w => [w]
  | pushInt value => halves value.toUInt32
  | pushFloat bits => halves bits
  | pushLocal a b | storeLocal a b | send a b | sendSuper a b => [a, b]
  | mark a b c => [a, b, c]

/-- The instruction with the given opcode and operand words. -/
def ofWords? : Opcode → List UInt16 → Option Instruction
  | .pushNil, [] => some pushNil
  | .pushSelf, [] => some pushSelf
  | .pushTrue, [] => some pushTrue
  | .pushFalse, [] => some pushFalse
  | .pushChar, [w] => some (pushChar w)
  | .pushInt, [a, b] => some (pushInt ⟨ofHalves a b⟩)
  | .pushFloat, [a, b] => some (pushFloat (ofHalves a b))
  | .pushField, [w] => some (pushField w)
  | .pushLocal, [a, b] => some (pushLocal a b)
  | .pushLiteral, [w] => some (pushLiteral w)
  | .pushGlobal, [w] => some (pushGlobal w)
  | .pushArray, [w] => some (pushArray w)
  | .storeField, [w] => some (storeField w)
  | .storeLocal, [a, b] => some (storeLocal a b)
  | .pop, [] => some pop
  | .send, [a, b] => some (send a b)
  | .sendSuper, [a, b] => some (sendSuper a b)
  | .block, [w] => some (block w)
  | .blockReturn, [] => some blockReturn
  | .methodReturn, [] => some methodReturn
  | .mark, [a, b, c] => some (mark a b c)
  | _, _ => none

/-- The bytes of an instruction. -/
def encode (i : Instruction) : List UInt8 :=
  i.opcode.byte :: i.words.flatMap wordBytes

/-- How many bytes an instruction takes. -/
def size (i : Instruction) : Nat := i.opcode.size

end Instruction

/-- The bytes of a sequence of instructions. -/
def encode (code : List Instruction) : List UInt8 :=
  code.flatMap Instruction.encode

/-- Why the bytes at some offset are no instruction. -/
inductive DecodeError where
  /-- The byte is no opcode. -/
  | unknownOpcode (byte : UInt8) (offset : Nat)
  /-- The code ends before the operands do. -/
  | truncated (opcode : Opcode) (offset : Nat)
  deriving DecidableEq

namespace DecodeError

/-- Two hexadecimal digits. -/
def hexByte (b : UInt8) : String :=
  String.ofList [Nat.digitChar (b.toNat / 16), Nat.digitChar (b.toNat % 16)]

/-- The message for a decoding error. -/
def message : DecodeError → String
  | unknownOpcode byte offset =>
    "unknown opcode 0x" ++ hexByte byte ++ " at offset " ++ toString offset
  | truncated opcode offset =>
    "`" ++ opcode.mnemonic ++ "` at offset " ++ toString offset ++ " is truncated"

end DecodeError

/-- What a byte string holds: instructions up to its end, or up to the first error. -/
structure Decoded where
  /-- The instructions, in order. -/
  instructions : List Instruction
  /-- What stopped the reading before the end. -/
  failure? : Option DecodeError
  deriving DecidableEq

/-- The instruction that starts with the byte `b` at `offset`, and the bytes after it. -/
def readInstruction (offset : Nat) (b : UInt8) (bytes : List UInt8) :
    Except DecodeError (Instruction × List UInt8) :=
  match Opcode.ofByte? b with
  | none => .error (.unknownOpcode b offset)
  | some op =>
    match readWords op.operandWords bytes with
    | none => .error (.truncated op offset)
    | some (words, rest) =>
      match Instruction.ofWords? op words with
      | none => .error (.truncated op offset)
      | some i => .ok (i, rest)

theorem length_of_readWords {n : Nat} {bytes : List UInt8} {words : List UInt16}
    {rest : List UInt8} (h : readWords n bytes = some (words, rest)) :
    bytes.length = 2 * n + rest.length := by
  induction n generalizing bytes words with
  | zero => simp [readWords] at h; simp [h.2]
  | succ n ih =>
    match bytes, h with
    | high :: low :: bytes, h =>
      simp only [readWords, Option.map_eq_some_iff, Prod.exists, Prod.mk.injEq] at h
      obtain ⟨words', rest', hread, _, rfl⟩ := h
      have := ih hread
      simp only [List.length_cons]
      omega

theorem length_of_readInstruction {offset : Nat} {b : UInt8} {bytes rest : List UInt8}
    {i : Instruction} (h : readInstruction offset b bytes = .ok (i, rest)) :
    rest.length ≤ bytes.length := by
  unfold readInstruction at h
  split at h
  · simp at h
  · split at h
    · simp at h
    · split at h
      · simp at h
      · rename_i hwords _ _ _
        have := length_of_readWords hwords
        simp only [Except.ok.injEq, Prod.mk.injEq] at h
        rw [← h.2]
        omega

/-- Reads the code that starts at `offset`. -/
def decodeFrom (offset : Nat) (bytes : List UInt8) : Decoded :=
  match bytes with
  | [] => ⟨[], none⟩
  | b :: bytes =>
    match h : readInstruction offset b bytes with
    | .error e => ⟨[], some e⟩
    | .ok (i, rest) =>
      have := length_of_readInstruction h
      let tail := decodeFrom (offset + i.size) rest
      ⟨i :: tail.instructions, tail.failure?⟩
termination_by bytes.length

/-- Reads code from its beginning. -/
def decode (bytes : List UInt8) : Decoded := decodeFrom 0 bytes

/-- Each instruction with its offset, where the first stands at `offset`. -/
def located (offset : Nat) : List Instruction → List (Nat × Instruction)
  | [] => []
  | i :: code => (offset, i) :: located (offset + i.size) code

/-- The offset after a sequence of instructions. -/
def codeSize : List Instruction → Nat
  | [] => 0
  | i :: code => i.size + codeSize code

end Smalltalk.Bytecode
