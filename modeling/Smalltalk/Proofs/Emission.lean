import Mathlib
import Smalltalk.Compiler.Generation
import Smalltalk.Proofs.Output

/-!
# Steps of code generation

A step of code generation either contributes what it should, or stops because a limit is exceeded, and
it stops exactly if its contribution does not fit. Both are said by one statement, which is closed
under doing one step after another.
-/

namespace Smalltalk

open Bytecode

namespace GenerateM

variable {α β : Type}

/-! ## Outcomes -/

/-- A step goes well exactly if something fits, and then ends as `post` says; otherwise a limit is
exceeded. -/
def Yields (m : GenerateM α) (g : Generated) (fits : Prop) (post : α → Generated → Prop) : Prop :=
  match m g with
  | .ok a g' => fits ∧ post a g'
  | .error e _ => ¬ fits ∧ ∃ what span, e = .limitExceeded what span

namespace Yields

variable {m : GenerateM α} {g : Generated} {p q : Prop} {post : α → Generated → Prop}
  {post' : β → Generated → Prop}

theorem of_ok {a : α} {g' : Generated} (hm : m g = .ok a g') (hp : p) (hpost : post a g') :
    Yields m g p post := by
  rw [Yields, hm]
  exact ⟨hp, hpost⟩

theorem imp {post' : α → Generated → Prop} (hm : Yields m g p post) (hpq : p ↔ q)
    (hpost : ∀ a g', post a g' → post' a g') : Yields m g q post' := by
  unfold Yields at hm ⊢
  split at hm
  · exact ⟨hpq.mp hm.1, hpost _ _ hm.2⟩
  · exact ⟨fun h => hm.1 (hpq.mpr h), hm.2⟩

/-- A step that always goes well. -/
theorem bind_of_ok {a : α} {g' : Generated} {f : α → GenerateM β} (hm : m g = .ok a g')
    (hf : Yields (f a) g' q post') : Yields (m >>= f) g q post' := by
  have hbind : (m >>= f) g = f a g' := by
    show EStateM.bind m f g = _
    rw [EStateM.bind, hm]
  unfold Yields at hf ⊢
  rw [hbind]
  exact hf

theorem bind {f : α → GenerateM β} (hm : Yields m g p post)
    (hf : ∀ a g', p → post a g' → Yields (f a) g' q post') : Yields (m >>= f) g (p ∧ q) post' := by
  unfold Yields at hm
  split at hm
  · next a g' hok =>
    refine bind_of_ok hok ?_
    exact (hf a g' hm.1 hm.2).imp ⟨fun hq => ⟨hm.1, hq⟩, fun h => h.2⟩ fun _ _ h => h
  · next e g' herror =>
    have hbind : (m >>= f) g = .error e g' := by
      show EStateM.bind m f g = _
      rw [EStateM.bind, herror]
    rw [Yields, hbind]
    exact ⟨fun h => hm.1 h.1, hm.2⟩

end Yields

/-! ## Contributions -/

/-- Code can be generated for a class. -/
structure Ready (ctx : GenerateContext) (g : Generated) : Prop where
  size_le : g.literals.size ≤ stringLimit
  file_eq : ∀ f, g.file = some f → g.literals.get? f.toNat = some ctx.options.fileName

theorem Ready.intern {ctx : GenerateContext} {g g' : Generated} {s : String} (h : Ready ctx g)
    (hsize : (g.literals.intern s).2.size ≤ stringLimit)
    (hliterals : g'.literals = (g.literals.intern s).2) (hfile : g'.file = g.file) : Ready ctx g' := by
  refine ⟨hliterals ▸ hsize, fun f hf => ?_⟩
  rw [hliterals]
  exact LiteralTable.get?_intern_of_get? (h.file_eq f (hfile ▸ hf)) s

/-- One state comes after another one by contributing an output, whose blocks are numbered from `k`
on. Code is read with the literal table as it is in the end. -/
structure Emits (ctx : GenerateContext) (k : Nat) (o : Output) (g g' : Generated) : Prop where
  ready : Ready ctx g'
  literals_eq : g'.literals = g.literals.internAll o.strings
  code_eq : ∃ new, g'.code.toList = g.code.toList ++ new ∧ ∀ later, g'.literals.Extends later →
    new.mapM (Instruction.symbolic? later.strings) = some o.code
  size_blocks : g'.blocks.size = g.blocks.size
  blocks_other : ∀ i, i < k ∨ k + o.blocks.length ≤ i → g'.blocks[i]? = g.blocks[i]?
  blocks_eq : ∀ later, g'.literals.Extends later → ∀ j b, o.blocks[j]? = some b →
    ∃ c, g'.blocks[k + j]? = some (some c) ∧ c.symbolic? later.strings = some b

variable {ctx : GenerateContext} {k : Nat} {o o' : Output} {g g' g'' : Generated}

theorem Emits.refl (hready : Ready ctx g) (k : Nat) : Emits ctx k .nil g g :=
  ⟨hready, rfl, ⟨[], (List.append_nil _).symm, fun _ _ => rfl⟩, rfl, fun _ _ => rfl,
    fun _ _ _ _ h => by cases h⟩

theorem Emits.append (h : Emits ctx k o g g') (h' : Emits ctx (k + o.blocks.length) o' g' g'') :
    Emits ctx k (o ++ o') g g'' := by
  have hextends : g'.literals.Extends g''.literals := by
    rw [h'.literals_eq]
    exact LiteralTable.extends_internAll _ _
  refine ⟨h'.ready, ?_, ?_, h'.size_blocks.trans h.size_blocks, fun i hi => ?_,
    fun later hlater j b hb => ?_⟩
  · rw [h'.literals_eq, h.literals_eq, Output.append_eq, LiteralTable.internAll_append]
  · obtain ⟨new, hnew, hcode⟩ := h.code_eq
    obtain ⟨new', hnew', hcode'⟩ := h'.code_eq
    refine ⟨new ++ new', by rw [hnew', hnew, List.append_assoc], fun later hlater => ?_⟩
    rw [List.mapM_append, hcode later (hextends.trans hlater), hcode' later hlater]
    rfl
  · rw [Output.append_eq, List.length_append] at hi
    rw [h'.blocks_other i (by omega), h.blocks_other i (by omega)]
  · rw [Output.append_eq, List.getElem?_append] at hb
    split at hb
    · next hj =>
      obtain ⟨c, hc, hsymbolic⟩ := h.blocks_eq later (hextends.trans hlater) j b hb
      exact ⟨c, by rw [h'.blocks_other _ (Or.inl (by omega)), hc], hsymbolic⟩
    · next hj =>
      obtain ⟨c, hc, hsymbolic⟩ := h'.blocks_eq later hlater _ b hb
      refine ⟨c, ?_, hsymbolic⟩
      have hindex : k + j = k + o.blocks.length + (j - o.blocks.length) := by omega
      rw [hindex, hc]

/-- A step contributes an output if it fits, and exceeds a limit otherwise. -/
def Produces (ctx : GenerateContext) (k : Nat) (o : Output) (m : GenerateM Unit) (g : Generated) : Prop :=
  Yields m g (o.Fits g.literals) fun _ g' => Emits ctx k o g g'

theorem Produces.append {m : GenerateM Unit} {f : Unit → GenerateM Unit} (h : Produces ctx k o m g)
    (h' : ∀ g', Emits ctx k o g g' → Produces ctx (k + o.blocks.length) o' (f ()) g') :
    Produces ctx k (o ++ o') (m >>= f) g := by
  have hboth : Yields (m >>= f) g (o.Fits g.literals ∧ o'.Fits (g.literals.internAll o.strings))
      fun _ g' => Emits ctx k (o ++ o') g g' := by
    refine Yields.bind h fun _ g' _ hg' => ?_
    have hrest := h' g' hg'
    unfold Produces at hrest
    rw [hg'.literals_eq] at hrest
    exact hrest.imp Iff.rfl fun _ _ hg'' => hg'.append hg''
  exact hboth.imp (Output.fits_append_iff _ _ _).symm fun _ _ h => h

/-! ## Single instructions -/

/-- An instruction is added to the code, after the strings that it needs have been entered. -/
theorem emits_of_push {i : Instruction} {sym : SymbolicInstruction} {strings : List String}
    (hready : Ready ctx g') (hliterals : g'.literals = g.literals.internAll strings)
    (hcode : g'.code = g.code.push i) (hblocks : g'.blocks = g.blocks)
    (hi : ∀ later, g'.literals.Extends later → i.symbolic? later.strings = some sym) :
    Emits ctx k ⟨[sym], strings, []⟩ g g' := by
  refine ⟨hready, hliterals, ⟨[i], by rw [hcode, Array.toList_push], fun later hlater => ?_⟩,
    by rw [hblocks], fun _ _ => by rw [hblocks], fun _ _ _ _ h => by cases h⟩
  rw [List.mapM_cons, hi later hlater]
  rfl

theorem produces_emit (hready : Ready ctx g) {i : Instruction} {sym : SymbolicInstruction}
    (hi : ∀ literals, i.symbolic? literals = some sym) (hfits : sym.Fits) :
    Produces ctx k (.plain sym) (emit i) g := by
  have hok : emit i g = .ok () { g with code := g.code.push i } := rfl
  refine .of_ok hok ((Output.fits_plain_iff hready.size_le sym).mpr hfits) ?_
  exact emits_of_push ⟨hready.size_le, hready.file_eq⟩ rfl rfl rfl fun later _ => hi _

/-- A number can be an operand if it has 16 bits. -/
theorem yields_operand (n : Nat) (what : Quantity) (span : Span) (g : Generated) :
    Yields (operand n what span) g (n ≤ counterLimit) fun v g' => v.toNat = n ∧ g' = g := by
  unfold Yields operand
  by_cases hn : n ≤ counterLimit
  · rw [if_pos hn]
    have hlt : n < 65536 := Nat.lt_succ_of_le hn
    exact ⟨hn, UInt16.toNat_ofNat_of_lt' hlt, rfl⟩
  · rw [if_neg hn]
    exact ⟨hn, what, span, rfl⟩

/-- A string can be an operand if the literal table has room for it. -/
theorem yields_literal (s : String) (span : Span) (hsize : g.literals.size ≤ stringLimit) :
    Yields (literal s span) g ((g.literals.intern s).2.size ≤ stringLimit) fun v g' =>
      g' = { g with literals := (g.literals.intern s).2 } ∧
        (g.literals.intern s).2.get? v.toNat = some s := by
  have hok : (modifyGet fun g : Generated =>
      ((g.literals.intern s).1, { g with literals := (g.literals.intern s).2 }) : GenerateM Nat) g
      = .ok (g.literals.intern s).1 { g with literals := (g.literals.intern s).2 } := rfl
  refine Yields.bind_of_ok hok ?_
  refine (yields_operand _ .literals span _).imp (LiteralTable.intern_fst_le_iff hsize s) ?_
  rintro v g' ⟨hv, rfl⟩
  exact ⟨rfl, by rw [hv, LiteralTable.get?_intern]⟩

theorem produces_operand (hready : Ready ctx g) {n : Nat} {what : Quantity} {span : Span}
    {i : UInt16 → Instruction} {sym : SymbolicInstruction}
    (hi : ∀ v literals, v.toNat = n → (i v).symbolic? literals = some sym)
    (hfits : sym.Fits ↔ n ≤ counterLimit) :
    Produces ctx k (.plain sym) (do emit (i (← operand n what span))) g := by
  have hstep : ∀ v g', n ≤ counterLimit → v.toNat = n ∧ g' = g →
      Yields (emit (i v)) g' True fun _ g' => Emits ctx k (.plain sym) g g' := by
    rintro v g' - ⟨hv, rfl⟩
    have hok : emit (i v) g' = .ok () { g' with code := g'.code.push (i v) } := rfl
    refine .of_ok hok trivial ?_
    exact emits_of_push ⟨hready.size_le, hready.file_eq⟩ rfl rfl rfl fun later _ => hi v _ hv
  refine ((yields_operand n what span g).bind hstep).imp ?_ fun _ _ h => h
  rw [Output.fits_plain_iff hready.size_le, hfits, and_true]

theorem produces_literal (hready : Ready ctx g) {s : String} {span : Span} {i : UInt16 → Instruction}
    {sym : SymbolicInstruction}
    (hi : ∀ v literals, literals[v.toNat]? = some s → (i v).symbolic? literals = some sym)
    (hfits : sym.Fits) : Produces ctx k (.naming sym s) (do emit (i (← literal s span))) g := by
  have hstep : ∀ v g', (g.literals.intern s).2.size ≤ stringLimit →
      g' = { g with literals := (g.literals.intern s).2 } ∧
        (g.literals.intern s).2.get? v.toNat = some s →
      Yields (emit (i v)) g' True fun _ g' => Emits ctx k (.naming sym s) g g' := by
    rintro v g' hsize ⟨rfl, hv⟩
    have hok : emit (i v) { g with literals := (g.literals.intern s).2 }
        = .ok () { g with literals := (g.literals.intern s).2, code := g.code.push (i v) } := rfl
    refine .of_ok hok trivial ?_
    exact emits_of_push (hready.intern hsize rfl rfl) rfl rfl rfl fun later hlater => hi v _ (hlater _ _ hv)
  refine ((yields_literal s span hready.size_le).bind hstep).imp ?_ fun _ _ h => h
  rw [Output.fits_naming_iff, and_comm]
  exact and_congr_left fun _ => iff_of_true trivial hfits

/-- The operands of a message are checked one after the other. -/
theorem yields_message (s : String) (n : Nat) (span : Span)
    (hsize : g.literals.size ≤ stringLimit) :
    Yields (message s n span) g (n ≤ counterLimit ∧ (g.literals.intern s).2.size ≤ stringLimit)
      fun r g' => g' = { g with literals := (g.literals.intern s).2 } ∧ r.1.toNat = n ∧
        (g.literals.intern s).2.get? r.2.toNat = some s := by
  refine (yields_operand n .messageArguments span g).bind ?_
  rintro v g' - ⟨hv, rfl⟩
  have hstep : ∀ w g'', (g'.literals.intern s).2.size ≤ stringLimit →
      g'' = { g' with literals := (g'.literals.intern s).2 } ∧
        (g'.literals.intern s).2.get? w.toNat = some s →
      Yields (pure (v, w) : GenerateM (UInt16 × UInt16)) g'' True fun r g'' =>
        g'' = { g' with literals := (g'.literals.intern s).2 } ∧ r.1.toNat = n ∧
          (g'.literals.intern s).2.get? r.2.toNat = some s := by
    rintro w g'' - ⟨rfl, hw⟩
    exact .of_ok rfl trivial ⟨rfl, hv, hw⟩
  exact ((yields_literal s span hsize).bind hstep).imp (and_iff_left trivial) fun _ _ h => h

theorem produces_message (hready : Ready ctx g) {s : String} {n : Nat} {span : Span}
    {i : UInt16 → UInt16 → Instruction} {sym : SymbolicInstruction}
    (hi : ∀ v w literals, v.toNat = n → literals[w.toNat]? = some s →
      (i v w).symbolic? literals = some sym)
    (hfits : sym.Fits ↔ n ≤ counterLimit) :
    Produces ctx k (.naming sym s) (message s n span >>= fun r => emit (i r.1 r.2)) g := by
  have hstep : ∀ (r : UInt16 × UInt16) g', n ≤ counterLimit ∧ (g.literals.intern s).2.size ≤ stringLimit →
      g' = { g with literals := (g.literals.intern s).2 } ∧ r.1.toNat = n ∧
        (g.literals.intern s).2.get? r.2.toNat = some s →
      Yields (emit (i r.1 r.2)) g' True fun _ g' => Emits ctx k (.naming sym s) g g' := by
    rintro ⟨v, w⟩ g' ⟨-, hsize⟩ ⟨rfl, hv, hw⟩
    have hok : emit (i v w) { g with literals := (g.literals.intern s).2 }
        = .ok () { g with literals := (g.literals.intern s).2, code := g.code.push (i v w) } := rfl
    refine .of_ok hok trivial ?_
    exact emits_of_push (hready.intern hsize rfl rfl) rfl rfl rfl fun later hlater =>
      hi v w _ hv (hlater _ _ hw)
  refine ((yields_message s n span hready.size_le).bind hstep).imp ?_ fun _ _ h => h
  rw [Output.fits_naming_iff, hfits, and_true]

/-! ## Position marks -/

/-- The file name is entered once, and entering it again changes nothing. -/
theorem yields_fileLiteral (hready : Ready ctx g) (span : Span) :
    Yields (fileLiteral ctx span) g
      ((g.literals.intern ctx.options.fileName).2.size ≤ stringLimit) fun v g' =>
        Ready ctx g' ∧ g'.literals = (g.literals.intern ctx.options.fileName).2 ∧
          g'.code = g.code ∧ g'.blocks = g.blocks ∧
          g'.literals.get? v.toNat = some ctx.options.fileName := by
  have hget : (get : GenerateM Generated) g = .ok g g := rfl
  refine Yields.bind_of_ok hget ?_
  cases hfile : g.file with
  | some f =>
    have hf := hready.file_eq f hfile
    have hintern := LiteralTable.intern_of_get? hf
    rw [hintern]
    exact .of_ok rfl hready.size_le ⟨hready, rfl, rfl, rfl, hf⟩
  | none =>
    have hstep : ∀ v g', (g.literals.intern ctx.options.fileName).2.size ≤ stringLimit →
        g' = { g with literals := (g.literals.intern ctx.options.fileName).2 } ∧
          (g.literals.intern ctx.options.fileName).2.get? v.toNat = some ctx.options.fileName →
        Yields (do
            modify fun g : Generated => { g with file := some v }
            return v : GenerateM UInt16) g' True fun v g' =>
          Ready ctx g' ∧ g'.literals = (g.literals.intern ctx.options.fileName).2 ∧
            g'.code = g.code ∧ g'.blocks = g.blocks ∧
            g'.literals.get? v.toNat = some ctx.options.fileName := by
      rintro v g' hsize ⟨rfl, hv⟩
      have hok : (do
            modify fun g : Generated => { g with file := some v }
            return v : GenerateM UInt16) { g with literals := (g.literals.intern ctx.options.fileName).2 }
          = .ok v { g with
              literals := (g.literals.intern ctx.options.fileName).2
              file := some v } := rfl
      refine .of_ok hok trivial ⟨⟨hsize, fun f hf => ?_⟩, rfl, rfl, rfl, hv⟩
      cases hf
      exact hv
    exact ((yields_literal _ span hready.size_le).bind hstep).imp (and_iff_left trivial) fun _ _ h => h

theorem fits_mark_iff (file : String) (line column : Nat) :
    (SymbolicInstruction.mark file line column).Fits ↔ line ≤ counterLimit ∧ column ≤ counterLimit := by
  simp [SymbolicInstruction.Fits, SymbolicInstruction.numbers]

/-- A mark is added to the code, after the file name has been entered. -/
theorem emits_mark {file line column : UInt16} {p : Position} (hready : Ready ctx g')
    (hliterals : g'.literals = (g.literals.intern ctx.options.fileName).2) (hcode : g'.code = g.code)
    (hblocks : g'.blocks = g.blocks) (hfile : g'.literals.get? file.toNat = some ctx.options.fileName)
    (hline : line.toNat = p.line) (hcolumn : column.toNat = p.column - 1) :
    Emits ctx k (markOutput (some ctx.options.fileName) p) g
      { g' with code := g'.code.push (.mark file line column) } := by
  have hpush : g'.code.push (.mark file line column) = g.code.push (.mark file line column) := by
    rw [hcode]
  refine emits_of_push ⟨hready.size_le, hready.file_eq⟩ hliterals hpush hblocks fun later hlater => ?_
  have hget : later.strings[file.toNat]? = some ctx.options.fileName := hlater _ _ hfile
  rw [Instruction.symbolic?, hget, hline, hcolumn]
  rfl

theorem produces_mark (hready : Ready ctx g) (p : Position) :
    Produces ctx k (markOutput ctx.options.markedFile p) (mark ctx p) g := by
  by_cases hdebug : ctx.options.debugInfo
  · have hyields : Yields (mark ctx p) g
        ((g.literals.intern ctx.options.fileName).2.size ≤ stringLimit ∧
          p.line ≤ counterLimit ∧ p.column - 1 ≤ counterLimit ∧ True)
        fun _ g' => Emits ctx k (markOutput (some ctx.options.fileName) p) g g' := by
      rw [mark, if_pos hdebug]
      refine (yields_fileLiteral hready _).bind fun file g₁ _ hfile => ?_
      obtain ⟨hready₁, hliterals, hcode, hblocks, hget⟩ := hfile
      refine (yields_operand p.line .sourceLines _ g₁).bind fun line g₂ _ hline => ?_
      obtain ⟨hline, rfl⟩ := hline
      refine (yields_operand (p.column - 1) .columns _ g₂).bind fun column g₃ _ hcolumn => ?_
      obtain ⟨hcolumn, rfl⟩ := hcolumn
      have hok : emit (.mark file line column) g₃
          = .ok () { g₃ with code := g₃.code.push (.mark file line column) } := rfl
      exact .of_ok hok trivial (emits_mark hready₁ hliterals hcode hblocks hget hline hcolumn)
    have hnaming : markOutput ctx.options.markedFile p
        = .naming (.mark ctx.options.fileName p.line (p.column - 1)) ctx.options.fileName := by
      rw [CompileOptions.markedFile, if_pos hdebug]
      rfl
    rw [hnaming]
    refine hyields.imp ?_ fun _ _ h => h
    rw [Output.fits_naming_iff, fits_mark_iff, and_true, and_comm]
  · have hnil : markOutput ctx.options.markedFile p = .nil := by
      rw [CompileOptions.markedFile, if_neg hdebug]
      rfl
    have hok : mark ctx p g = .ok () g := by
      rw [mark, if_neg hdebug]
      rfl
    rw [hnil]
    exact .of_ok hok (Output.fits_nil hready.size_le) (.refl hready k)

end GenerateM

end Smalltalk
