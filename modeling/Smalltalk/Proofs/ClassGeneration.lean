import Mathlib
import Smalltalk.Proofs.Assembly
import Smalltalk.Proofs.Generation

/-!
# Generating methods and classes

The code of a method is collected from its statements and from the blocks in them. Every class has a
literal table of its own, which all its methods share. Once everything about a class has been checked,
generating its code gives its direct translation, unless the class does not fit into the machine.
-/

namespace Smalltalk

open ScopeTable Bytecode

theorem CompiledBlock.symbolicAll?_eq_some_iff {literals : Array String} {cs : List CompiledBlock}
    {bs : List SymbolicBlock} : symbolicAll? literals cs = some bs ↔
      List.Forall₂ (fun c b => c.symbolic? literals = some b) cs bs := by
  induction cs generalizing bs with
  | nil =>
    rw [symbolicAll?, List.forall₂_nil_left_iff, Option.some_inj, eq_comm]
  | cons c cs ih =>
    rw [symbolicAll?]
    constructor
    · intro h
      obtain ⟨b, hb, h⟩ := Option.bind_eq_some_iff.mp h
      obtain ⟨bs', hbs, h⟩ := Option.bind_eq_some_iff.mp h
      cases h
      exact .cons hb (ih.mp hbs)
    · rintro (_ | ⟨hb, hbs⟩)
      rw [hb, ih.mpr hbs]
      rfl

/-- The compiled form of a class: its direct translation, with the strings that it needs numbered in the
order in which they are entered. -/
def ClassDef.assembled (file : Option String) (classes : List ClassDef) (c : ClassDef) : CompiledClass :=
  (c.translate file classes).assemble (LiteralTable.empty.internAll (c.output file classes).strings).toList

namespace GenerateM

variable {ctx : GenerateContext} {owner scope : ScopeId} {g g' : Generated}

/-! ## Methods -/

/-- Everything that the stages before should have found out about a method has been found out. -/
structure Checked (ctx : GenerateContext) (owner scope : ScopeId) (m : MethodDef) : Prop where
  isScopeOf : ctx.table.IsScopeOf ctx.blocks owner scope m
  bound : ∀ entry ∈ Expr.bindingsOfAll ctx.resolveContext scope m.body.statements,
    ctx.bindings[entry.1]? = some entry.2
  quiet : Expr.complaintsAboutAll ctx.resolveContext scope m.body.statements = []
  proper : ∀ n ∈ Expr.nodesOfAll m.body.statements, n.IsProper

/-- The statements of a method stand in its surroundings. -/
theorem Checked.placed {m : MethodDef} {body : Body} (h : Checked ctx owner scope m)
    (hbody : m.body = .code body) {layers : List (List String)}
    (hsite : Site ctx owner (m.surroundings ctx.options.markedFile layers (ctx.table.scope owner).name
      body.locals)) :
    Placed ctx owner scope (m.surroundings ctx.options.markedFile layers (ctx.table.scope owner).name
      body.locals) 0 body.statements := by
  obtain ⟨hscope, hbound, hquiet, hproper⟩ := h
  rw [hbody] at hbound hquiet hproper
  have hholds := hscope.holdsBody
  rw [hbody] at hholds
  obtain ⟨-, hslots, -, hlimit, hlaid⟩ := hholds
  refine ⟨hsite, ?_, le_rfl, ?_, hlaid, hbound, hquiet, hproper⟩
  · exact .method hscope.kind_eq hscope.parent_eq hslots rfl hscope.name_eq.symm
      (by rw [hscope.name_eq]; rfl)
  · rw [Nat.zero_add]
    exact hlimit

theorem collectBlocks_ok (name : String) (index : Nat) (done : Array CompiledBlock)
    (cs : List CompiledBlock) :
    collectBlocks name index done (cs.map some) g = .ok (done.toList ++ cs) g := by
  induction cs generalizing index done with
  | nil =>
    rw [List.append_nil]
    rfl
  | cons c cs ih =>
    rw [List.map_cons, collectBlocks, ih, Array.toList_push, List.append_assoc]
    rfl

/-- Once all blocks of a method have been contributed, they can be collected. -/
theorem Emits.exists_blocks {o : Output} (h : Emits ctx 0 o g g') (hsize : g.blocks.size = o.blocks.length) :
    ∃ cs, g'.blocks.toList = cs.map some ∧ ∀ later, g'.literals.Extends later →
      CompiledBlock.symbolicAll? later.strings cs = some o.blocks := by
  have hlength : g'.blocks.toList.length = o.blocks.length := by
    rw [Array.length_toList, h.size_blocks, hsize]
  have hslot : ∀ later, g'.literals.Extends later → ∀ (j : Nat) b, o.blocks[j]? = some b →
      ∃ c : CompiledBlock, g'.blocks.toList[j]? = some (some c) ∧ c.symbolic? later.strings = some b := by
    intro later hlater j b hb
    obtain ⟨c, hc, hsymbolic⟩ := h.blocks_eq later hlater j b hb
    rw [Nat.zero_add, ← Array.getElem?_toList] at hc
    exact ⟨c, hc, hsymbolic⟩
  have hsome : ∀ c? ∈ g'.blocks.toList, c? ∈ Set.range some := by
    intro c? hc?
    obtain ⟨j, hj⟩ := List.mem_iff_getElem?.mp hc?
    have hlt : j < o.blocks.length := by
      rw [← hlength]
      exact (List.getElem?_eq_some_iff.mp hj).1
    obtain ⟨c, hc, -⟩ := hslot g'.literals (.refl _) j _ (List.getElem?_eq_getElem hlt)
    exact ⟨c, Option.some.inj (hc.symm.trans hj)⟩
  obtain ⟨cs, hcs⟩ : g'.blocks.toList ∈ Set.range (List.map some) := by
    rw [Set.range_list_map]
    exact hsome
  refine ⟨cs, hcs.symm, fun later hlater => CompiledBlock.symbolicAll?_eq_some_iff.mpr ?_⟩
  rw [← hcs, List.length_map] at hlength
  refine List.forall₂_iff_get.mpr ⟨hlength, fun j hj hj' => ?_⟩
  obtain ⟨c, hc, hsymbolic⟩ := hslot later hlater j _ (List.getElem?_eq_getElem hj')
  rw [← hcs, List.getElem?_map, List.getElem?_eq_getElem hj] at hc
  cases hc
  exact hsymbolic

/-- The compiled form of the method at a scope. -/
def methodBlock (ctx : GenerateContext) (scope : ScopeId) (localCount : Nat) (code : List UInt8)
    (blocks : List CompiledBlock) : CompiledBlock :=
  { name := (ctx.table.scope scope).name
    classSide := (ctx.table.scope scope).classSide
    qualifiedName := ctx.table.qualifiedName scope
    primitive := (ctx.table.scope scope).primitive
    argumentCount := (ctx.table.frameSize scope).1
    localCount := localCount
    code := code
    blocks := blocks }

/-- A method that is part of the machine has no code. -/
theorem method_primitive {m : MethodDef} {primitive : Ident} (hbody : m.body = .primitive primitive) :
    ∃ log, method ctx (sourceOfMethod (m, scope)) g
      = .ok (methodBlock ctx scope 0 [] []) { g with log := log } := by
  rw [sourceOfMethod, hbody]
  exact ⟨_, rfl⟩

/-- The code of a method comes from its statements, and then returns the receiver. -/
theorem method_code {m : MethodDef} {body : Body} (hbody : m.body = .code body) :
    method ctx (sourceOfMethod (m, scope)) = (do
      modify fun g : Generated =>
        { g with code := #[], blocks := Array.replicate (ctx.table.scope scope).blockCount none }
      ((exprs ctx true body.statements >>= fun _ => mark ctx m.close.start) >>= fun _ =>
        emit .pushSelf) >>= fun _ => emit .methodReturn
      let code ← endBody #[]
      let blocks ← collectBlocks (ctx.table.qualifiedName scope) 0 #[] (← get).blocks.toList
      note (.methodCode (ctx.table.qualifiedName scope) code.length blocks.length)
      return methodBlock ctx scope (ctx.table.frameSize scope).2 code blocks) := by
  rw [sourceOfMethod, hbody, bind_assoc, bind_assoc, bind_assoc]
  rfl

/-- A state comes after another one by entering strings, and compiled methods are `bs`, read with the
literal table as it is in the end. -/
structure Compiles (ctx : GenerateContext) (strings : List String) (bs : List SymbolicBlock)
    (cs : List CompiledBlock) (g g' : Generated) : Prop where
  ready : Ready ctx g'
  literals_eq : g'.literals = g.literals.internAll strings
  forall₂_symbolic : ∀ later, g'.literals.Extends later →
    List.Forall₂ (fun c b => c.symbolic? later.strings = some b) cs bs

theorem Compiles.append {strings strings' : List String} {bs bs' : List SymbolicBlock}
    {cs cs' : List CompiledBlock} {g'' : Generated} (h : Compiles ctx strings bs cs g g')
    (h' : Compiles ctx strings' bs' cs' g' g'') :
    Compiles ctx (strings ++ strings') (bs ++ bs') (cs ++ cs') g g'' := by
  refine ⟨h'.ready, ?_, fun later hlater => ?_⟩
  · rw [h'.literals_eq, h.literals_eq, LiteralTable.internAll_append]
  · have hextends : g'.literals.Extends g''.literals := by
      rw [h'.literals_eq]
      exact LiteralTable.extends_internAll _ _
    exact List.rel_append (h.forall₂_symbolic later (hextends.trans hlater))
      (h'.forall₂_symbolic later hlater)

section Method

variable {m : MethodDef} {layers : List (List String)}

/-- A compiled method is read back with the names and counts of its definition. -/
theorem symbolic?_methodBlock {locals : List Ident} (hscope : ctx.table.IsScopeOf ctx.blocks owner scope m)
    (hslots : ctx.table.HasSlots scope (namesOf m.params) (namesOf locals))
    (hsite : Site ctx owner (m.surroundings ctx.options.markedFile layers (ctx.table.scope owner).name
      locals)) {literals : Array String} {code : List Instruction} {sym : List SymbolicInstruction}
    {cs : List CompiledBlock} {bs : List SymbolicBlock}
    (hcode : code.mapM (Instruction.symbolic? literals) = some sym)
    (hblocks : CompiledBlock.symbolicAll? literals cs = some bs) :
    (methodBlock ctx scope locals.length (encode code) cs).symbolic? literals = some {
      name := m.selector.name
      classSide := m.classSide
      qualifiedName := String.intercalate ">>" [(ctx.table.scope owner).name, m.selector.name]
      primitive := (ctx.table.scope scope).primitive
      argumentCount := m.params.length
      localCount := locals.length
      code := sym
      blocks := bs } := by
  have hstands : Stands ctx.table owner scope
      (m.surroundings ctx.options.markedFile layers (ctx.table.scope owner).name locals) :=
    .method hscope.kind_eq hscope.parent_eq hslots rfl hscope.name_eq.symm
      (by rw [hscope.name_eq]; rfl)
  have hname := hstands.qualifiedName_eq hsite.valid hsite.owner_kind hsite.owner_parent hsite.unit_kind
  rw [methodBlock, CompiledBlock.symbolic?, symbolicCode?_encode, hcode, hblocks, hname,
    hscope.name_eq, hscope.classSide_eq, hslots.frameSize_eq]
  simp [namesOf, MethodDef.surroundings]

theorem produces_method {body : Body} (h : Checked ctx owner scope m) (hbody : m.body = .code body)
    (hsite : Site ctx owner (m.surroundings ctx.options.markedFile layers (ctx.table.scope owner).name
      body.locals)) (hready : Ready ctx g)
    (hsize : g.blocks.size = Expr.blockCountOfAll body.statements) :
    Produces ctx 0 (m.output ctx.options.markedFile layers (ctx.table.scope owner).name)
      (((exprs ctx true body.statements >>= fun _ => mark ctx m.close.start) >>= fun _ =>
        emit .pushSelf) >>= fun _ => emit .methodReturn) g := by
  rw [MethodDef.output, hbody]
  have hstatements := produces_statements (fun e _ => generates_expr e) (h.placed hbody hsite) hready
    (by rw [Nat.zero_add, hsize])
  refine ((hstatements.append fun g' hg' => produces_mark hg'.ready _).append fun g' hg' => ?_).append
    fun g' hg' => ?_
  · exact produces_emit hg'.ready (fun _ => rfl) (fits_of_numbers_eq_nil rfl)
  · exact produces_emit hg'.ready (fun _ => rfl) (fits_of_numbers_eq_nil rfl)

theorem length_blocks_output {body : Body} (hbody : m.body = .code body) (file : Option String)
    (owner : String) : (m.output file layers owner).blocks.length = Expr.blockCountOfAll body.statements := by
  rw [MethodDef.output, hbody]
  simp [Output.append_eq, Output.plain, markOutput, Expr.outputOfStatements,
    Expr.length_blocksOfAll fun e _ => e.length_blocks]

/-- Generating a method contributes exactly what its direct translation says. -/
theorem yields_method (h : Checked ctx owner scope m)
    (hsite : ∀ locals, Site ctx owner (m.surroundings ctx.options.markedFile layers
      (ctx.table.scope owner).name locals)) (hready : Ready ctx g) :
    Yields (method ctx (sourceOfMethod (m, scope))) g
      ((m.output ctx.options.markedFile layers (ctx.table.scope owner).name).Fits g.literals)
      fun c g' => Compiles ctx
        (m.output ctx.options.markedFile layers (ctx.table.scope owner).name).strings
        [m.translate ctx.options.markedFile layers (ctx.table.scope owner).name] [c] g g' := by
  have hholds := h.isScopeOf.holdsBody
  cases hbody : m.body with
  | primitive primitive =>
    rw [hbody] at hholds
    obtain ⟨hprimitive, hslots⟩ := hholds
    rw [MethodDef.output, hbody]
    obtain ⟨log, hok⟩ := @method_primitive ctx scope g m primitive hbody
    refine .of_ok hok (Output.fits_nil hready.size_le) ⟨⟨hready.size_le, hready.file_eq⟩, rfl, ?_⟩
    intro later _
    have hsymbolic := @symbolic?_methodBlock ctx owner scope m layers [] h.isScopeOf hslots (hsite [])
      later.strings [] [] [] [] rfl rfl
    rw [hprimitive] at hsymbolic
    rw [MethodDef.translate, hbody]
    exact .cons hsymbolic .nil
  | code body =>
    rw [hbody] at hholds
    obtain ⟨hprimitive, hslots, hcount, -, -⟩ := hholds
    rw [method_code hbody]
    have hbegin : (modify fun g : Generated => { g with
        code := #[], blocks := Array.replicate (ctx.table.scope scope).blockCount none } : GenerateM Unit) g
      = .ok () { g with
        code := #[], blocks := Array.replicate (ctx.table.scope scope).blockCount none } := rfl
    have hsize : (Array.replicate (ctx.table.scope scope).blockCount (none : Option CompiledBlock)).size
        = Expr.blockCountOfAll body.statements := by
      rw [Array.size_replicate, hcount]
    have hproduces := @produces_method ctx owner scope { g with
      code := #[], blocks := Array.replicate (ctx.table.scope scope).blockCount none } m layers body h
      hbody (hsite body.locals) ⟨hready.size_le, hready.file_eq⟩ hsize
    refine Yields.bind_of_ok hbegin ((Yields.bind hproduces fun _ g' _ hg' => ?_).imp
      (and_iff_left trivial) fun _ _ h => h)
    -- everything has been contributed, and the method is put together
    obtain ⟨cs, hcs, hblocks⟩ := hg'.exists_blocks
      (hsize.trans (length_blocks_output hbody _ _).symm)
    have hend : endBody #[] g' = .ok (encode g'.code.toList) { g' with code := #[] } := rfl
    have hget : (get : GenerateM Generated) { g' with code := #[] }
      = .ok { g' with code := #[] } { g' with code := #[] } := rfl
    refine Yields.bind_of_ok hend (Yields.bind_of_ok hget ?_)
    rw [hcs]
    refine Yields.bind_of_ok (collectBlocks_ok _ _ _ cs) (.of_ok rfl trivial ?_)
    refine ⟨⟨hg'.ready.size_le, hg'.ready.file_eq⟩, hg'.literals_eq, fun later hlater => ?_⟩
    obtain ⟨new, hnew, hcode⟩ := hg'.code_eq
    have hcode' := hcode later hlater
    rw [← List.nil_append new, ← hnew] at hcode'
    have hsymbolic := symbolic?_methodBlock h.isScopeOf hslots (hsite body.locals) hcode'
      (hblocks later hlater)
    have hlocals : (ctx.table.frameSize scope).2 = body.locals.length := by
      rw [hslots.frameSize_eq]
      exact List.length_map _
    rw [hprimitive] at hsymbolic
    rw [MethodDef.translate_of_code hbody, hlocals]
    exact .cons hsymbolic .nil

theorem methods_cons (done : Array CompiledBlock) (source : MethodSource) (sources : List MethodSource) :
    methods ctx done (source :: sources)
      = method ctx source >>= fun compiled => methods ctx (done.push compiled) sources := rfl

theorem yields_methods {scopes : List ScopeId} {ms : List MethodDef}
    (h : List.Forall₂ (Checked ctx owner) scopes ms)
    (hsite : ∀ m locals, Site ctx owner (MethodDef.surroundings ctx.options.markedFile layers
      (ctx.table.scope owner).name m locals)) (hready : Ready ctx g) (done : Array CompiledBlock) :
    Yields (methods ctx done ((ms.zip scopes).map sourceOfMethod)) g
      ((outputOfMethods ctx.options.markedFile layers (ctx.table.scope owner).name ms).Fits g.literals)
      fun cs g' => ∃ new, cs = done.toList ++ new ∧ Compiles ctx
        (outputOfMethods ctx.options.markedFile layers (ctx.table.scope owner).name ms).strings
        (ms.map (MethodDef.translate ctx.options.markedFile layers (ctx.table.scope owner).name)) new g g' := by
  induction h generalizing g done with
  | nil =>
    exact .of_ok rfl (Output.fits_nil hready.size_le)
      ⟨[], (List.append_nil _).symm, hready, rfl, fun _ _ => .nil⟩
  | @cons scope m scopes ms hm hms ih =>
    rw [List.zip_cons_cons, List.map_cons, methods_cons, outputOfMethods]
    refine ((yields_method hm (hsite m) hready).bind fun c g' _ hc => ?_).imp
      (Output.fits_append_iff _ _ _).symm fun _ _ h => h
    have hrest := ih hc.ready (done.push c)
    rw [hc.literals_eq] at hrest
    refine hrest.imp Iff.rfl fun cs g'' hcs => ?_
    obtain ⟨new, rfl, hnew⟩ := hcs
    exact ⟨c :: new, by rw [Array.toList_push, List.append_assoc]; rfl, hc.append hnew⟩

end Method

/-! ## Classes -/

/-- Everything that the stages before should have found out about a class has been found out. -/
structure CheckedClass (ctx : GenerateContext) (classes : List ClassDef)
    (entry : ScopeId × List ScopeId) (c : ClassDef) : Prop where
  isClassScope : ctx.table.IsClassScope entry.1 c.header
  layers_eq : ∃ rest, Chain ctx.table entry.1 rest ∧
    List.Forall₂ ctx.table.HasFields (entry.1 :: rest) (c.layers classes)
  methods : List.Forall₂ (Checked ctx entry.1) entry.2 c.methods

/-- A class with the scopes of its methods, as code generation goes through it. -/
def sourceOfClass (entry : ScopeId × List ScopeId) (c : ClassDef) : ScopeId × List MethodSource :=
  (entry.1, (c.methods.zip entry.2).map sourceOfMethod)

section Class

variable {classes : List ClassDef} {entry : ScopeId × List ScopeId} {c : ClassDef}

theorem yields_class (hvalid : ctx.table.Valid) (hunit : (ctx.table.scope unitScope).kind = .unit)
    (h : CheckedClass ctx classes entry c) :
    Yields (compiledClass ctx (sourceOfClass entry c).1 (sourceOfClass entry c).2) g
      ((c.output ctx.options.markedFile classes).Fits .empty)
      fun compiled _ => compiled = c.assembled ctx.options.markedFile classes ∧
        compiled.symbolic? = some (c.translate ctx.options.markedFile classes) := by
  have hscope := h.isClassScope
  have hname : (ctx.table.scope entry.1).name = c.name.name := hscope.name_eq
  have hsuperclass : (ctx.table.scope entry.1).superclass = c.superclassName := hscope.superclass_eq
  have hfields : ((ctx.table.symbolsOf entry.1).filter (·.kind = .field)).map (·.name) = namesOf c.fields :=
    hscope.hasFields.map_name
  have hsite : ∀ m locals, Site ctx entry.1 (MethodDef.surroundings ctx.options.markedFile
      (c.layers classes) (ctx.table.scope entry.1).name m locals) := fun m locals =>
    ⟨hvalid, hunit, hscope.kind_eq, hscope.parent_eq, h.layers_eq, rfl⟩
  have hbegin : (modify fun g : Generated => { g with literals := .empty, file := none }
      : GenerateM Unit) g = .ok () { g with literals := .empty, file := none } := rfl
  have hready : Ready ctx { g with literals := .empty, file := none } :=
    ⟨Nat.zero_le _, fun _ hf => by cases hf⟩
  have houtput : c.output ctx.options.markedFile classes = outputOfMethods ctx.options.markedFile
      (c.layers classes) (ctx.table.scope entry.1).name c.methods := by
    rw [ClassDef.output, hname]
  rw [houtput]
  refine Yields.bind_of_ok hbegin (((yields_methods h.methods hsite hready #[]).bind
    fun cs g' _ hcs => ?_).imp (and_iff_left trivial) fun _ _ h => h)
  obtain ⟨_, rfl, hnew⟩ := hcs
  have hmethods := CompiledBlock.symbolicAll?_eq_some_iff.mpr (hnew.forall₂_symbolic g'.literals (.refl _))
  refine .of_ok rfl trivial ?_
  generalize hcompiled : (CompiledClass.mk _ _ _ _ _) = compiled
  have hsymbolic : compiled.symbolic? = some (c.translate ctx.options.markedFile classes) := by
    rw [← hcompiled, CompiledClass.symbolic?, ClassDef.translate, ← hname, ← hsuperclass, ← hfields]
    show Option.bind (CompiledBlock.symbolicAll? g'.literals.strings cs) _ = _
    rw [hmethods]
    rfl
  have hliterals : compiled.literals = g'.literals.strings := by rw [← hcompiled]
  refine ⟨?_, hsymbolic⟩
  have hnodup : compiled.literals.toList.Nodup := hliterals ▸ g'.literals.nodup_toList
  rw [ClassDef.assembled, houtput, ← hnew.literals_eq]
  show _ = SymbolicClass.assemble g'.literals.strings.toList _
  rw [← hliterals, CompiledClass.assemble_of_symbolic? hnodup hsymbolic]

/-- Generating classes gives their direct translations. -/
theorem yields_classes (hvalid : ctx.table.Valid) (hunit : (ctx.table.scope unitScope).kind = .unit)
    {entries : List (ScopeId × List ScopeId)} {cs : List ClassDef}
    (h : List.Forall₂ (CheckedClass ctx classes) entries cs) (done : Array CompiledClass) :
    Yields (compiledClasses ctx done (List.zipWith sourceOfClass entries cs)) g
      (∀ c ∈ cs, (c.output ctx.options.markedFile classes).Fits .empty)
      fun compiled _ =>
        compiled = done.toList ++ cs.map (ClassDef.assembled ctx.options.markedFile classes) ∧
        (cs.map (ClassDef.assembled ctx.options.markedFile classes)).mapM CompiledClass.symbolic?
          = some (cs.map (ClassDef.translate ctx.options.markedFile classes)) := by
  induction h generalizing g done with
  | nil =>
    exact .of_ok rfl (fun _ hc => absurd hc List.not_mem_nil) ⟨(List.append_nil _).symm, rfl⟩
  | @cons entry c entries cs hc hcs ih =>
    rw [List.zipWith_cons_cons]
    refine ((yields_class hvalid hunit hc).bind fun compiled g' _ hcompiled => ?_).imp
      (List.forall_mem_cons (p := fun c : ClassDef => (c.output ctx.options.markedFile classes).Fits .empty)).symm
      fun _ _ h => h
    obtain ⟨rfl, hsymbolic⟩ := hcompiled
    refine (ih (done.push _)).imp Iff.rfl fun cs' g'' hcs' => ?_
    obtain ⟨rfl, hnew⟩ := hcs'
    refine ⟨by rw [Array.toList_push, List.append_assoc]; rfl, ?_⟩
    rw [List.map_cons, List.mapM_cons, hsymbolic, hnew]
    rfl

end Class

end GenerateM

end Smalltalk
