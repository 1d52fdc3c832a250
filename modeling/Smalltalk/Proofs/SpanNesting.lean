import Mathlib
import Smalltalk.Proofs.Arity
import Smalltalk.Proofs.Forest
import Smalltalk.Proofs.Spans

/-!
# Definitions follow the text, too

The methods of a class and the classes of a unit stand in the text one after the other, as expressions do,
and what belongs to a definition stands inside it. Together with the order of expressions this says how the
spans of a whole unit nest.
-/

namespace Smalltalk

/-! ## Rows of regions -/

namespace Span

/-- Whether a region lies inside another one. -/
def Inside (s t : Span) : Prop := t.start.offset ≤ s.start.offset ∧ s.stop.offset ≤ t.stop.offset

/-- Regions that stand one after the other between two offsets, none of them empty. -/
structure InRow (lo hi : Nat) (spans : List Span) : Prop where
  le : lo ≤ hi
  bounds : ∀ s ∈ spans, lo ≤ s.start.offset ∧ s.start.offset < s.stop.offset ∧ s.stop.offset ≤ hi
  pairwise : spans.Pairwise fun s t => s.stop.offset ≤ t.start.offset

namespace InRow

variable {lo lo' hi hi' mid : Nat} {s t : Span} {spans spans' : List Span}

theorem nil (h : lo ≤ hi) : InRow lo hi [] := ⟨h, by simp, .nil⟩

theorem singleton_iff : InRow lo hi [s] ↔
    lo ≤ s.start.offset ∧ s.start.offset < s.stop.offset ∧ s.stop.offset ≤ hi := by
  constructor
  · intro h
    exact h.bounds s List.mem_cons_self
  · rintro ⟨hlo, hlt, hhi⟩
    exact ⟨by omega, List.forall_mem_singleton.mpr ⟨hlo, hlt, hhi⟩, List.pairwise_singleton _ _⟩

theorem mono (h : InRow lo hi spans) (hlo : lo' ≤ lo) (hhi : hi ≤ hi') : InRow lo' hi' spans := by
  refine ⟨hlo.trans (h.le.trans hhi), fun s hs => ?_, h.pairwise⟩
  obtain ⟨hstart, hlt, hstop⟩ := h.bounds s hs
  exact ⟨hlo.trans hstart, hlt, hstop.trans hhi⟩

theorem append (h : InRow lo mid spans) (h' : InRow mid hi spans') : InRow lo hi (spans ++ spans') := by
  refine ⟨h.le.trans h'.le, List.forall_mem_append.mpr ⟨?_, ?_⟩,
    List.pairwise_append.mpr ⟨h.pairwise, h'.pairwise, ?_⟩⟩
  · exact (h.mono le_rfl h'.le).bounds
  · exact (h'.mono h.le le_rfl).bounds
  · intro s hs t ht
    exact (h.bounds s hs).2.2.trans (h'.bounds t ht).1

theorem tail (h : InRow lo hi (s :: spans)) : InRow s.stop.offset hi spans := by
  obtain ⟨hfirst, hrest⟩ := List.pairwise_cons.mp h.pairwise
  refine ⟨(h.bounds s List.mem_cons_self).2.2, fun t ht => ?_, hrest⟩
  obtain ⟨-, hlt, hstop⟩ := h.bounds t (List.mem_cons_of_mem s ht)
  exact ⟨hfirst t ht, hlt, hstop⟩

/-- What stands between the ends of a region lies inside it. -/
theorem inside (h : InRow lo hi spans) (hs : s ∈ spans) (hlo : t.start.offset ≤ lo) (hhi : hi ≤ t.stop.offset) :
    s.Inside t := by
  obtain ⟨hstart, -, hstop⟩ := h.bounds s hs
  exact ⟨hlo.trans hstart, hstop.trans hhi⟩

end InRow

end Span

open Smalltalk.Span

namespace Expr.Between

variable {lo hi : Nat} {es : List Expr}

theorem inRow (h : Between lo hi es) : InRow lo hi (es.map Expr.span) := by
  induction h with
  | nil hle => exact .nil hle
  | cons hlo hlt _ hrest _ ih => exact (InRow.singleton_iff.mpr ⟨hlo, hlt, le_rfl⟩).append ih

/-- Nodes at any depth stand where their trees do, with their own parts inside. -/
theorem forall_nodes (h : Between lo hi es) : ∀ e ∈ nodesOfAll es,
    InRow lo hi [e.span] ∧ InRow e.span.start.offset e.span.stop.offset (e.children.map Expr.span) := by
  induction h with
  | nil => simp
  | @cons lo hi e es hlo hlt hparts hrest ihparts ihrest =>
    have hstart : e.span.start.offset ≤ e.partsStart := Nat.le_add_right _ _
    rw [nodesOfAll_cons, nodes_eq, List.forall_mem_append, List.forall_mem_cons]
    refine ⟨⟨⟨?_, ?_⟩, fun part hpart => ?_⟩, fun e' he' => ?_⟩
    · exact InRow.singleton_iff.mpr ⟨hlo, hlt, hrest.le⟩
    · exact hparts.inRow.mono hstart le_rfl
    · obtain ⟨hin, hown⟩ := ihparts part hpart
      exact ⟨hin.mono (hlo.trans hstart) hrest.le, hown⟩
    · obtain ⟨hin, hown⟩ := ihrest e' he'
      exact ⟨hin.mono (hlo.trans hlt.le) le_rfl, hown⟩

/-- If the expressions of each definition stand inside it, those of a row of definitions are in order. -/
theorem flatMap {α : Type} {span : α → Span} {f : α → List Expr} {ds : List α}
    (hrow : InRow lo hi (ds.map span))
    (h : ∀ d ∈ ds, Between (span d).start.offset (span d).stop.offset (f d)) : Between lo hi (ds.flatMap f) := by
  induction ds generalizing lo with
  | nil => exact .nil hrow.le
  | cons d ds ih =>
    obtain ⟨hd, hds⟩ := List.forall_mem_cons.mp h
    have hstart := (hrow.bounds _ List.mem_cons_self).1
    rw [List.flatMap_cons]
    exact (hd.mono hstart le_rfl).append (ih hrow.tail hds)

end Expr.Between

/-! ## Definitions in place -/

/-- A method with all of its parts in place: its mark stands at the end, and the others before the mark. -/
structure MethodDef.InPlace (m : MethodDef) : Prop where
  selector : InRow m.span.start.offset m.close.start.offset [m.selector.span]
  params : InRow m.span.start.offset m.close.start.offset (m.params.map Ident.span)
  statements : Expr.Between m.span.start.offset m.close.start.offset m.body.statements
  close : m.close.start.offset < m.close.stop.offset
  stop : m.close.stop.offset = m.span.stop.offset

/-- The regions that a method consists of, its closing mark among them. -/
def MethodDef.partSpans (m : MethodDef) : List Span :=
  m.selector.span :: m.close :: (m.params.map Ident.span ++ m.body.statements.map Expr.span)

/-- Every part of a method is a region inside it. -/
theorem MethodDef.InPlace.forall_partSpans {m : MethodDef} (h : m.InPlace) :
    ∀ s ∈ m.partSpans, s.start.offset < s.stop.offset ∧ s.Inside m.span := by
  have hstop : m.close.start.offset ≤ m.span.stop.offset := h.close.le.trans_eq h.stop
  have hrow : ∀ {spans : List Span}, InRow m.span.start.offset m.close.start.offset spans →
      ∀ s ∈ spans, s.start.offset < s.stop.offset ∧ s.Inside m.span := by
    intro spans hspans s hs
    exact ⟨(hspans.bounds s hs).2.1, hspans.inside hs le_rfl hstop⟩
  have hselector := hrow h.selector _ List.mem_cons_self
  have hclose : m.close.Inside m.span := ⟨h.selector.le, h.stop.le⟩
  rw [partSpans, List.forall_mem_cons, List.forall_mem_cons, List.forall_mem_append]
  exact ⟨hselector, ⟨h.close, hclose⟩, hrow h.params, hrow h.statements.inRow⟩

theorem MethodDef.InPlace.between {m : MethodDef} (h : m.InPlace) :
    Expr.Between m.span.start.offset m.span.stop.offset m.body.statements :=
  h.statements.mono le_rfl (h.close.le.trans_eq h.stop)

/-- A class with its methods in place, one after the other. -/
structure ClassDef.InPlace (d : ClassDef) : Prop where
  row : InRow d.span.start.offset d.span.stop.offset (d.methods.map MethodDef.span)
  methods : ∀ m ∈ d.methods, m.InPlace

theorem ClassDef.InPlace.between {d : ClassDef} (h : d.InPlace) :
    Expr.Between d.span.start.offset d.span.stop.offset (statementsOfMethods d.methods) :=
  .flatMap h.row fun m hm => (h.methods m hm).between

namespace ReadM

open Smalltalk.Expr

variable {c c' : Cursor}

/-- Definitions that stand between an offset and a cursor. -/
structure DefinedBefore {α : Type} (span : α → Span) (placed : α → Prop) (lo : Nat) (c : Cursor)
    (ds : List α) : Prop where
  inOrder : InOrder c.tokens
  row : InRow lo c.place (ds.map span)
  placed : ∀ d ∈ ds, placed d

namespace DefinedBefore

variable {α : Type} {span : α → Span} {placed : α → Prop} {lo : Nat} {ds : List α}

theorem nil (hc : InOrder c.tokens) : DefinedBefore span placed c.place c [] :=
  ⟨hc, .nil le_rfl, by simp⟩

theorem append {ds' : List α} (h : DefinedBefore span placed lo c ds)
    (h' : DefinedBefore span placed c.place c' ds') : DefinedBefore span placed lo c' (ds ++ ds') := by
  refine ⟨h'.inOrder, ?_, List.forall_mem_append.mpr ⟨h.placed, h'.placed⟩⟩
  rw [List.map_append]
  exact h.row.append h'.row

end DefinedBefore

/-! ## Methods -/

section Methods

variable {n : Nat}

theorem inRow_of_isName {x : Ident} (hc : InOrder c.tokens) (h : c.current.IsName x) :
    InRow c.place c.next.place [x.span] := by
  rw [← h.2]
  exact InRow.singleton_iff.mpr
    ⟨le_rfl, start_lt_of_kind hc h.1 TokenKind.noConfusion, (taken_next hc).stop_le⟩

/-- A selector and parameters that stand between an offset and a cursor. The selector may be the current
token still. -/
structure HeaderBefore (lo : Nat) (c : Cursor) (selector : Ident) (params : List Ident) : Prop where
  inOrder : InOrder c.tokens
  start : lo ≤ selector.span.start.offset
  start_le : selector.span.start.offset ≤ c.place
  start_lt : selector.span.start.offset < selector.span.stop.offset
  stop_le : selector.span.stop.offset ≤ c.current.span.stop.offset
  params : InRow lo c.place (params.map Ident.span)

theorem KeywordHeaderRead.headerBefore {k lo : Nat} {word selector : Ident} {done xs : List Ident}
    (hword : HeaderBefore lo c word done) (h : KeywordHeaderRead k c word selector xs c') :
    HeaderBefore lo c' selector (done ++ xs) := by
  induction h generalizing done with
  | out | stop =>
    rw [List.append_nil]
    exact hword
  | @cons _ c c' word _ x xs _ keyword param _ ih =>
    have htaken := taken_next hword.inOrder
    have hparam := taken_next htaken.inOrder
    have hrow := inRow_of_isName htaken.inOrder param
    have hstart : (word.span.merge c.current.span).start = word.span.start := start_merge hword.start_le
    have hstop : (word.span.merge c.current.span).stop.offset = c.current.span.stop.offset :=
      offset_stop_merge hword.stop_le
    have hplace := htaken.proceeds.place_le.trans hparam.proceeds.place_le
    rw [List.append_cons]
    refine ih ⟨hparam.inOrder, ?_, ?_, ?_, ?_, ?_⟩
    · exact hstart ▸ hword.start
    · exact hstart ▸ hword.start_le.trans hplace
    · rw [hstart, hstop]
      exact hword.start_lt.trans_le hword.stop_le
    · rw [hstop]
      exact (htaken.stop_le.trans hparam.proceeds.place_le).trans (taken_next hparam.inOrder).start_le
    · rw [List.map_append]
      exact (hword.params.mono le_rfl htaken.proceeds.place_le).append hrow

/-- A selector of one token, with parameters after it. -/
theorem headerBefore_token {name : String} {params : List Ident} (hc : InOrder c.tokens)
    (hlt : c.current.span.start.offset < c.current.span.stop.offset) (hproceeds : Proceeds c.next c')
    (hrow : InRow c.next.place c'.place (params.map Ident.span)) :
    HeaderBefore c.place c' ⟨name, c.current.span⟩ params := by
  have htaken := taken_next hc
  have hstop := htaken.stop_le.trans hproceeds.place_le
  exact ⟨hproceeds.inOrder, le_rfl, htaken.proceeds.place_le.trans hproceeds.place_le, hlt,
    hstop.trans (taken_next hproceeds.inOrder).start_le, hrow.mono htaken.proceeds.place_le le_rfl⟩

theorem MethodHeaderRead.headerBefore {selector : Ident} {xs : List Ident} (hc : InOrder c.tokens)
    (h : MethodHeaderRead n c selector xs c') : HeaderBefore c.place c' selector xs := by
  have htaken := taken_next hc
  cases h with
  | unary word =>
    exact headerBefore_token hc (start_lt_of_kind hc word TokenKind.noConfusion) ⟨htaken.inOrder, le_rfl⟩
      (.nil le_rfl)
  | binary operator param =>
    have hne : c.current.kind ≠ .endOfInput := by
      intro hfinish
      rw [hfinish] at operator
      cases operator
    exact headerBefore_token hc (start_lt_of_kind hc rfl hne) (taken_next htaken.inOrder).proceeds
      (inRow_of_isName htaken.inOrder param)
  | keyword keyword words =>
    have hlt := start_lt_of_kind hc keyword TokenKind.noConfusion
    have hword : HeaderBefore c.place c ⟨"", c.current.span⟩ [] :=
      ⟨hc, le_rfl, le_rfl, hlt, le_rfl, .nil le_rfl⟩
    exact words.headerBefore hword

/-- What a method does and its closing mark, read from one cursor to another. -/
structure BodyBetween (c c' : Cursor) (body : MethodBody) (close : Span) : Prop where
  inOrder : InOrder c'.tokens
  statements : Between c.current.span.stop.offset close.start.offset body.statements
  start_lt : close.start.offset < close.stop.offset
  stop_le : close.stop.offset ≤ c'.place

theorem MethodBodyRead.bodyBetween {body : MethodBody} {close : Span} (hc : InOrder c.tokens)
    (h : MethodBodyRead n c body close c') : BodyBetween c c' body close := by
  have hopened := taken_next hc
  cases h with
  | code _ body closing =>
    have hstands := body.standsBefore (readsInPlace_expressionAt n (n + 1)) hopened.inOrder
    have hclosed := taken_next hstands.inOrder
    exact ⟨hclosed.inOrder, hstands.between.mono hopened.stop_le le_rfl, start_lt_of_isAt hstands.inOrder closing,
      hclosed.stop_le⟩
  | primitive _ _ _ closing =>
    have hkeyword := taken_next hopened.inOrder
    have hname := taken_next hkeyword.inOrder
    have hclosed := taken_next hname.inOrder
    have hstart := (hkeyword.proceeds.trans hname.proceeds).place_le
    exact ⟨hclosed.inOrder, .nil (hopened.stop_le.trans hstart),
      start_lt_of_kind hname.inOrder closing TokenKind.noConfusion, hclosed.stop_le⟩

/-- The current token ends no later than those after it. -/
theorem Moved.stop_current_le (h : Moved c c') (hc : InOrder c.tokens) :
    c.current.span.stop.offset ≤ c'.current.span.stop.offset := by
  induction h with
  | refl => exact le_rfl
  | @next c'' hmoved ih =>
    have htaken := taken_next (hmoved.proceeds hc).inOrder
    exact ih.trans (htaken.stop_le.trans (taken_next htaken.inOrder).start_le)

/-- A method stands from its first token to its closing mark. -/
theorem definedBefore_of_header {c₁ c₂ : Cursor} {start : Span} {selector : Ident} {params : List Ident}
    {classSide : Bool} {body : MethodBody} {close : Span} (hstart : start.start.offset ≤ start.stop.offset)
    (hheader : HeaderBefore start.start.offset c₁ selector params) (hbody : BodyBetween c₁ c₂ body close)
    (hle : start.stop.offset ≤ c₁.current.span.stop.offset) :
    DefinedBefore MethodDef.span MethodDef.InPlace start.start.offset c₂
      [{ selector, params, classSide, body, span := start.merge close, close }] := by
  have hmid := hbody.statements.le
  have hfrom : (start.merge close).start = start.start := start_merge (by omega)
  have hto : (start.merge close).stop.offset = close.stop.offset :=
    offset_stop_merge (hle.trans (hmid.trans hbody.start_lt.le))
  have hcurrent := (taken_next hheader.inOrder).start_le
  have hclose := hbody.start_lt
  refine ⟨hbody.inOrder, ?_, List.forall_mem_singleton.mpr ⟨?_, ?_, ?_, hclose, hto.symm⟩⟩
  · refine InRow.singleton_iff.mpr ⟨hfrom ▸ le_rfl, ?_, hto ▸ hbody.stop_le⟩
    rw [hfrom, hto]
    omega
  · rw [hfrom]
    exact InRow.singleton_iff.mpr ⟨hheader.start, hheader.start_lt, hheader.stop_le.trans hmid⟩
  · rw [hfrom]
    exact hheader.params.mono le_rfl (hcurrent.trans hmid)
  · rw [hfrom]
    exact hbody.statements.mono (hstart.trans hle) le_rfl

theorem MethodRead.definedBefore {m : MethodDef} (hc : InOrder c.tokens) (h : MethodRead n c m c') :
    DefinedBefore MethodDef.span MethodDef.InPlace c.place c' [m] := by
  have htaken := taken_next hc
  cases h with
  | classSide _ _ header code =>
    have hmoved := header.moved.of_next
    have hheader := header.headerBefore htaken.inOrder
    have hbody := code.bodyBetween hheader.inOrder
    refine definedBefore_of_header htaken.start_le ?_ hbody (hmoved.stop_current_le hc)
    exact ⟨hheader.inOrder, htaken.proceeds.place_le.trans hheader.start, hheader.start_le, hheader.start_lt,
      hheader.stop_le, hheader.params.mono htaken.proceeds.place_le le_rfl⟩
  | instanceSide header code =>
    have hheader := header.headerBefore hc
    have hbody := code.bodyBetween hheader.inOrder
    exact definedBefore_of_header htaken.start_le hheader hbody (header.moved.stop_current_le hc)

theorem MethodsRead.definedBefore {k : Nat} {ms : List MethodDef} (hc : InOrder c.tokens)
    (h : MethodsRead n k c ms c') :
    DefinedBefore MethodDef.span MethodDef.InPlace c.place c' ms := by
  induction h with
  | stop => exact .nil hc
  | cons head _ _ ih =>
    have hhead := head.definedBefore hc
    exact hhead.append (ih hhead.inOrder)

end Methods

/-! ## Classes -/

/-- A class stands from the name of its superclass to its closing bracket. -/
theorem ClassRead.definedBefore {n : Nat} {d : ClassDef} (hc : InOrder c.tokens) (h : ClassRead n c d c') :
    DefinedBefore ClassDef.span ClassDef.InPlace c.place c' [d] := by
  cases h with
  | @mk _ _ _ _ c₁ c₂ _ _ _ fields methods closing =>
    have htaken := taken_next hc
    have hproceeds := fields.moved.of_next.of_next.of_next.proceeds htaken.inOrder
    have hbefore := methods.definedBefore hproceeds.inOrder
    have hclosed := taken_next hbefore.inOrder
    have hlt := start_lt_of_isAt hbefore.inOrder closing
    have hstop := htaken.stop_le.trans (hproceeds.place_le.trans hbefore.row.le)
    have hfrom : (c.current.span.merge c₂.current.span).start = c.current.span.start :=
      start_merge (htaken.start_le.trans hstop)
    have hto : (c.current.span.merge c₂.current.span).stop.offset = c₂.current.span.stop.offset :=
      offset_stop_merge (hstop.trans hlt.le)
    refine ⟨hclosed.inOrder, ?_, List.forall_mem_singleton.mpr ⟨?_, hbefore.placed⟩⟩
    · refine InRow.singleton_iff.mpr ⟨hfrom ▸ le_rfl, ?_, hto ▸ hclosed.stop_le⟩
      rw [hfrom, hto]
      exact (htaken.start_le.trans hstop).trans_lt hlt
    · rw [hfrom, hto]
      refine hbefore.row.mono ?_ hlt.le
      exact htaken.start_le.trans (htaken.stop_le.trans hproceeds.place_le)

theorem ClassRun.definedBefore {n : Nat} {ds : List ClassDef} (hc : InOrder c.tokens) (h : ClassRun n c ds c') :
    DefinedBefore ClassDef.span ClassDef.InPlace c.place c' ds := by
  induction h with
  | nil => exact .nil hc
  | cons _ head _ ih =>
    have hhead := head.definedBefore hc
    exact hhead.append (ih hhead.inOrder)

end ReadM

open Smalltalk.Expr Smalltalk.ReadM

/-! ## Units -/

namespace SourceUnit

/-- A unit with its definitions in place before an offset: classes one after the other, and then the main
program. -/
structure InPlace (u : SourceUnit) (stop mid : Nat) : Prop where
  row : InRow 0 mid (u.classes.map ClassDef.span)
  classes : ∀ d ∈ u.classes, d.InPlace
  main : Between mid stop u.main.statements

theorem InPlace.between {u : SourceUnit} {stop mid : Nat} (h : u.InPlace stop mid) :
    Between 0 stop u.statements :=
  (Between.flatMap h.row fun d hd => (h.classes d hd).between).append h.main

theorem exists_inPlace_of_ofCursor {c : Cursor} {u : SourceUnit} (hc : InOrder c.tokens)
    (h : ofCursor c = .ok u) : ∃ mid, u.InPlace u.finish.start.offset mid := by
  cases unitRead_of_ok h with
  | mk run body =>
    have hclasses := run.definedBefore hc
    have hmain := body.standsBefore (readsInPlace_expressionAt _ _) hclasses.inOrder
    exact ⟨_, hclasses.row.mono (Nat.zero_le _) le_rfl, hclasses.placed, hmain.between⟩

variable {source : String} {u : SourceUnit}

/-- The statements of a text stand in it one after the other, each with its parts inside. -/
theorem between_of_ofSource (h : ofSource source = .ok u) : Between 0 u.finish.start.offset u.statements := by
  obtain ⟨mid, hplace⟩ := exists_inPlace_of_ofCursor (inOrder_ofTokens source) h
  exact hplace.between

/-- A unit ends where its text does. -/
theorem offset_finish_of_ofSource (h : ofSource source = .ok u) :
    u.finish.start.offset = source.utf8ByteSize := by
  obtain ⟨-, -, -, hfinish⟩ := phrases_of_ofSource h
  show u.finish.start.offset = source.toByteArray.size
  rw [hfinish, point, Position.offset_advance, ← String.toByteArray_ofList, String.ofList_toList]

/-- How the spans of a unit nest in a text of a given size. -/
structure SpansNest (size : Nat) (u : SourceUnit) : Prop where
  /-- Every node covers some of the text. -/
  nodes : ∀ e ∈ u.nodes, e.span.start.offset < e.span.stop.offset ∧ e.span.stop.offset ≤ size
  /-- The parts of a node, which are the statements if it is a block, stand inside it one after the other. -/
  children : ∀ e ∈ u.nodes, InRow e.span.start.offset e.span.stop.offset (e.children.map Expr.span)
  /-- So do the statements of every method and of the main program in the text. -/
  bodies : ∀ b ∈ u.bodies, InRow 0 size (b.statements.map Expr.span)
  /-- A method holds all that it consists of. -/
  parts : ∀ d ∈ u.classes, ∀ m ∈ d.methods, ∀ s ∈ m.partSpans,
    s.start.offset < s.stop.offset ∧ s.Inside m.span
  /-- The methods of a class stand inside it one after the other. -/
  methods : ∀ d ∈ u.classes, InRow d.span.start.offset d.span.stop.offset (d.methods.map MethodDef.span)
  /-- So do the classes in the text. -/
  classes : InRow 0 size (u.classes.map ClassDef.span)

theorem InPlace.inRow_of_mem_bodies {stop mid : Nat} (h : u.InPlace stop mid) :
    ∀ b ∈ u.bodies, InRow 0 stop (b.statements.map Expr.span) := by
  intro b hb
  rcases List.mem_append.mp hb with hb | hb
  · obtain ⟨d, hd, hb⟩ := List.mem_flatMap.mp hb
    obtain ⟨m, hm, hb⟩ := List.mem_filterMap.mp hb
    have hstatements : m.body.statements = b.statements := by
      cases hbody : m.body with
      | code body =>
        rw [hbody, MethodBody.code?, Option.some_inj] at hb
        rw [MethodBody.statements, hb]
      | primitive name =>
        rw [hbody, MethodBody.code?] at hb
        cases hb
    have hmethod := ((h.classes d hd).methods m hm).between.inRow
    obtain ⟨-, -, hinClass⟩ := (h.classes d hd).row.bounds _ (List.mem_map_of_mem hm)
    obtain ⟨-, -, hinText⟩ := h.row.bounds _ (List.mem_map_of_mem hd)
    rw [← hstatements]
    exact hmethod.mono (Nat.zero_le _) (hinClass.trans (hinText.trans h.main.le))
  · obtain rfl := List.mem_singleton.mp hb
    exact h.main.inRow.mono (Nat.zero_le _) le_rfl

/-- Spans nest and follow the order of the text. -/
theorem spansNest_of_ofSource (h : ofSource source = .ok u) : SpansNest source.utf8ByteSize u := by
  obtain ⟨mid, hplace⟩ := exists_inPlace_of_ofCursor (inOrder_ofTokens source) h
  rw [offset_finish_of_ofSource h] at hplace
  have hnodes := hplace.between.forall_nodes
  rw [← nodes_eq_nodesOfAll] at hnodes
  refine ⟨fun e he => ?_, fun e he => (hnodes e he).2, hplace.inRow_of_mem_bodies, ?_, ?_, ?_⟩
  · exact (InRow.singleton_iff.mp (hnodes e he).1).2
  · exact fun d hd m hm => ((hplace.classes d hd).methods m hm).forall_partSpans
  · exact fun d hd => (hplace.classes d hd).row
  · exact hplace.row.mono le_rfl hplace.main.le

/-- Two classes with methods of every form, among them one of the class side and a primitive, and a main
program; there are a letter of two bytes, parentheses, a negative number and a message to `super`. -/
def twoClasses : String :=
  "nil subclass: #A [ class at: i [ ^[ (i - -1) x ] ] p <primitive: #P> ] "
    ++ "A subclass: #B [ + o [ ^super + \x7b'ü'\x7d ] ] A at: 1"

theorem spansNest_of_ofSource_two_classes :
    ∃ u, ofSource twoClasses = .ok u ∧ u.classes.length = 2 ∧ u.nodes.length = 13 ∧ SpansNest 121 u := by
  have hcounts : (ofSource twoClasses).toOption.map (fun u => (u.classes.length, u.nodes.length))
      = some (2, 13) := by decide +kernel
  cases hread : ofSource twoClasses with
  | error errors =>
    rw [hread] at hcounts
    cases hcounts
  | ok u =>
    rw [hread] at hcounts
    obtain ⟨hclasses, hnodes⟩ := Prod.mk.inj (Option.some.inj hcounts)
    have hsize : twoClasses.utf8ByteSize = 121 := by decide +kernel
    exact ⟨u, rfl, hclasses, hnodes, hsize ▸ spansNest_of_ofSource hread⟩

end SourceUnit

end Smalltalk
