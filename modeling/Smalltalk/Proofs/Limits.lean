import Mathlib
import Smalltalk.Proofs.Arrangement

/-!
# What a class needs

The strings that are entered into the literal table of a class are exactly those that its code refers
to. So whether a class fits into the machine can be read off its direct translation.
-/

namespace Smalltalk

/-! ## How outputs are put together -/

namespace Output

/-- The instructions of an output and of its blocks. -/
def instructions (o : Output) : List SymbolicInstruction := o.code ++ o.blocks.flatMap (·.code)

theorem mem_instructions_append {o o' : Output} {i : SymbolicInstruction} :
    i ∈ (o ++ o').instructions ↔ i ∈ o.instructions ∨ i ∈ o'.instructions := by
  simp only [instructions, append_eq, List.flatMap_append, List.mem_append]
  tauto

/-- Outputs that are put together from single instructions, position marks for the given file, and
blocks. -/
inductive Made (file : Option String) : Output → Prop where
  | nil : Made file nil
  | plain {i : SymbolicInstruction} : i.string? = none → Made file (plain i)
  | naming {i : SymbolicInstruction} {s : String} :
    i.string? = some s → i.isMark = false → Made file (naming i s)
  | mark (p : Position) : Made file (markOutput file p)
  | block {o : Output} {b : SymbolicBlock} (k : Nat) :
    b.code = o.code → Made file o → Made file ⟨[.block k], o.strings, b :: o.blocks⟩
  | append {o o' : Output} : Made file o → Made file o' → Made file (o ++ o')

variable {file : Option String} {o : Output}

/-- The strings of an output are those that its instructions refer to. -/
theorem Made.mem_strings_iff (h : Made file o) (x : String) :
    x ∈ o.strings ↔ ∃ i ∈ o.instructions, i.string? = some x := by
  induction h with
  | nil => simp [Output.nil, instructions]
  | plain hi => simp [Output.plain, instructions, hi]
  | naming hi _ => simp [Output.naming, instructions, hi, eq_comm]
  | mark p =>
    cases file with
    | none => simp [markOutput, markStrings, markAt, instructions]
    | some name =>
      simp [markOutput, markStrings, markAt, instructions, SymbolicInstruction.string?, eq_comm]
  | block k hb _ ih =>
    rw [ih]
    simp [instructions, hb, SymbolicInstruction.string?]
  | append _ _ ih ih' =>
    simp only [mem_instructions_append, or_and_right, exists_or, ← ih, ← ih']
    exact List.mem_append

/-- All position marks are for the same file. -/
theorem Made.string?_of_isMark (h : Made file o) :
    ∀ i ∈ o.instructions, i.isMark → i.string? = file := by
  induction h with
  | nil => exact fun i hi => absurd hi List.not_mem_nil
  | @plain i hi =>
    intro j hj hmark
    obtain rfl : j = i := by simpa [Output.plain, instructions] using hj
    cases j <;> cases hmark
    cases hi
  | @naming i s _ hi =>
    intro j hj hmark
    obtain rfl : j = i := by simpa [Output.naming, instructions] using hj
    rw [hi] at hmark
    cases hmark
  | mark p =>
    intro j hj _
    cases file with
    | none => cases hj
    | some name =>
      obtain rfl : j = .mark name p.line (p.column - 1) := by
        simpa [markOutput, markAt, instructions] using hj
      rfl
  | @block o b k hb _ ih =>
    intro j hj hmark
    have hj' : j = .block k ∨ j ∈ o.instructions := by simpa [instructions, hb] using hj
    rcases hj' with rfl | hj
    · cases hmark
    · exact ih j hj hmark
  | append _ _ ih ih' =>
    intro j hj
    rcases mem_instructions_append.mp hj with hj | hj
    · exact ih j hj
    · exact ih' j hj

/-- Without the numbers of its blocks, an arranged output is put together in this way. -/
theorem Arranged.made {k : Nat} (h : Arranged file k o) : Made file o := by
  induction h with
  | nil => exact .nil
  | plain _ hi _ => exact .plain hi
  | naming _ hi hmark => exact .naming hi hmark
  | mark _ p => exact .mark p
  | block k hb _ _ ih => exact .block k hb ih
  | append _ _ ih ih' => exact ih.append ih'

end Output

/-! ## Methods and classes -/

section Definitions

open Output

variable (file : Option String) (layers : List (List String)) (owner : String)

theorem made_outputOfMethods {ms : List MethodDef}
    (hproper : ∀ m ∈ ms, ∀ n ∈ Expr.nodesOfAll m.body.statements, n.IsProper) :
    Made file (outputOfMethods file layers owner ms) := by
  induction ms with
  | nil => exact .nil
  | cons m ms ih =>
    rw [List.forall_mem_cons] at hproper
    exact (m.arranged_output file layers owner hproper.1).made.append (ih hproper.2)

theorem MethodDef.instructions_translate (m : MethodDef) :
    (m.translate file layers owner).instructions = (m.output file layers owner).instructions := by
  cases hbody : m.body with
  | primitive name =>
    rw [MethodDef.translate, MethodDef.output, hbody]
    rfl
  | code body =>
    rw [MethodDef.translate_of_code hbody]
    rfl

theorem mem_instructions_outputOfMethods {ms : List MethodDef} {i : SymbolicInstruction} :
    i ∈ (outputOfMethods file layers owner ms).instructions ↔
      i ∈ (ms.map (MethodDef.translate file layers owner)).flatMap SymbolicBlock.instructions := by
  induction ms with
  | nil => rfl
  | cons m ms ih =>
    rw [outputOfMethods, mem_instructions_append, ih, List.map_cons, List.flatMap_cons, List.mem_append,
      m.instructions_translate]

/-- Whether all output of a class fits can be read off its direct translation. -/
theorem ClassDef.fits_output_iff {classes : List ClassDef} {c : ClassDef}
    (hproper : ∀ m ∈ c.methods, ∀ n ∈ Expr.nodesOfAll m.body.statements, n.IsProper) :
    (c.output file classes).Fits .empty ↔ (c.translate file classes).Fits := by
  have hmem : ∀ i, i ∈ (c.output file classes).instructions ↔ i ∈ (c.translate file classes).instructions :=
    fun i => mem_instructions_outputOfMethods file _ _
  have hmade := made_outputOfMethods file (c.layers classes) c.name.name hproper
  have hstrings : (c.output file classes).strings.toFinset = (c.translate file classes).strings.toFinset := by
    ext x
    rw [List.mem_toFinset, List.mem_toFinset, SymbolicClass.strings, List.mem_filterMap]
    exact (hmade.mem_strings_iff x).trans (exists_congr fun i => and_congr_left fun _ => hmem i)
  have hsize : (LiteralTable.empty.internAll (c.output file classes).strings).size
      = (c.translate file classes).strings.dedup.length := by
    rw [LiteralTable.size_internAll_empty, ← List.card_toFinset, hstrings, List.card_toFinset]
  constructor
  · rintro ⟨hcode, hblocks, hlimit⟩
    refine ⟨fun i hi => ?_, hsize ▸ hlimit⟩
    rcases List.mem_append.mp ((hmem i).mpr hi) with hi | hi
    · exact hcode i hi
    · obtain ⟨b, hb, hi⟩ := List.mem_flatMap.mp hi
      exact hblocks b hb i hi
  · rintro ⟨hinstructions, hlimit⟩
    refine ⟨fun i hi => ?_, fun b hb i hi => ?_, hsize.symm ▸ hlimit⟩
    · exact hinstructions i ((hmem i).mp (List.mem_append_left _ hi))
    · exact hinstructions i ((hmem i).mp (List.mem_append_right _ (List.mem_flatMap.mpr ⟨b, hb, hi⟩)))

end Definitions

end Smalltalk
