import Mathlib
import Smalltalk.Proofs.Lexemes
import Smalltalk.Proofs.Reading
import Smalltalk.Proofs.Recovery

/-!
# Spans follow the text

Tokens stand in a text one after the other, and so do the expressions that are read from them: each covers
a region of the text that is not empty, with its parts inside and in order. What a reader succeeds with
stands between the place where it started and the place where it ended.
-/

namespace Smalltalk

/-! ## Merged spans -/

namespace Span

theorem start_merge {s t : Span} (h : s.start.offset ≤ t.start.offset) : (s.merge t).start = s.start :=
  if_neg (Nat.not_lt.mpr h)

theorem offset_stop_merge {s t : Span} (h : s.stop.offset ≤ t.stop.offset) :
    (s.merge t).stop.offset = t.stop.offset := by
  show (if s.stop.offset < t.stop.offset then t.stop else s.stop).offset = _
  split
  · rfl
  · next hlt => exact le_antisymm h (Nat.le_of_not_lt hlt)

end Span

/-! ## Expressions in order -/

namespace Expr

/-- Where the parts of an expression can start: those of a block come after its bracket. -/
def partsStart (e : Expr) : Nat := e.span.start.offset + e.isBlock.toNat

/-- Expressions that stand one after the other between two offsets, each with its parts inside. -/
inductive Between : Nat → Nat → List Expr → Prop where
  | nil {lo hi : Nat} : lo ≤ hi → Between lo hi []
  | cons {lo hi : Nat} {e : Expr} {es : List Expr} :
    lo ≤ e.span.start.offset → e.span.start.offset < e.span.stop.offset →
    Between e.partsStart e.span.stop.offset e.children → Between e.span.stop.offset hi es →
    Between lo hi (e :: es)

namespace Between

variable {lo lo' hi hi' mid : Nat} {e : Expr} {es fs : List Expr}

theorem le (h : Between lo hi es) : lo ≤ hi := by
  induction h with
  | nil h => exact h
  | cons hlo hlt _ _ _ ih => omega

theorem append (h : Between lo mid es) (h' : Between mid hi fs) : Between lo hi (es ++ fs) := by
  induction h with
  | nil hle =>
    cases h' with
    | nil hle' => exact .nil (hle.trans hle')
    | cons hlo hlt hparts hrest => exact .cons (hle.trans hlo) hlt hparts hrest
  | cons hlo hlt hparts _ _ ih => exact .cons hlo hlt hparts (ih h')

theorem mono (h : Between lo hi es) (hlo : lo' ≤ lo) (hhi : hi ≤ hi') : Between lo' hi' es := by
  have hfront := append (.nil hlo) h
  have hback := append hfront (.nil hhi)
  rwa [List.nil_append, List.append_nil] at hback

theorem singleton_iff : Between lo hi [e] ↔
    lo ≤ e.span.start.offset ∧ e.span.start.offset < e.span.stop.offset ∧
      Between e.partsStart e.span.stop.offset e.children ∧ e.span.stop.offset ≤ hi := by
  constructor
  · intro h
    cases h with
    | cons hlo hlt hparts hrest => exact ⟨hlo, hlt, hparts, hrest.le⟩
  · rintro ⟨hlo, hlt, hparts, hle⟩
    exact .cons hlo hlt hparts (.nil hle)

/-- An expression stands just where its span says. -/
theorem self (h : Between lo hi [e]) : Between e.span.start.offset e.span.stop.offset [e] := by
  obtain ⟨-, hlt, hparts, -⟩ := singleton_iff.mp h
  exact singleton_iff.mpr ⟨le_rfl, hlt, hparts, le_rfl⟩

/-- A node whose span has given ends, with its parts between them. -/
theorem node {start stop : Nat} (hstart : e.span.start.offset = start) (hstop : e.span.stop.offset = stop)
    (hblock : e.isBlock = false) (hlt : start < stop) (hparts : Between start stop e.children)
    (hlo : lo ≤ start) (hhi : stop ≤ hi) : Between lo hi [e] := by
  subst hstart hstop
  refine singleton_iff.mpr ⟨hlo, hlt, ?_, hhi⟩
  rw [partsStart, hblock]
  exact hparts

end Between

end Expr

/-! ## Tokens in order -/

/-- Tokens that stand one after the other, up to the end of the text. -/
structure InOrder (ts : List Token) : Prop where
  pairwise : ts.Pairwise fun t u => t.span.stop.offset ≤ u.span.start.offset
  start_lt : ∀ t ∈ ts, t.isFinish = false → t.span.start.offset < t.span.stop.offset
  start_eq : ∀ t ∈ ts, t.isFinish = true → t.span.start.offset = t.span.stop.offset
  finish : ∃ front last, ts = front ++ [last] ∧ last.isFinish = true

/-- The place of the current token. -/
def Cursor.place (c : Cursor) : Nat := c.current.span.start.offset

namespace InOrder

theorem exists_cons {ts : List Token} (h : InOrder ts) : ∃ t rest, ts = t :: rest := by
  obtain ⟨front, last, rfl, -⟩ := h.finish
  cases front with
  | nil => exact ⟨last, [], rfl⟩
  | cons t front => exact ⟨t, front ++ [last], rfl⟩

theorem tail {t : Token} {ts : List Token} (h : InOrder (t :: ts)) (ht : t.isFinish = false) : InOrder ts := by
  refine ⟨(List.pairwise_cons.mp h.pairwise).2, fun u hu => h.start_lt u (List.mem_cons_of_mem t hu),
    fun u hu => h.start_eq u (List.mem_cons_of_mem t hu), ?_⟩
  obtain ⟨front, last, heq, hlast⟩ := h.finish
  cases front with
  | nil =>
    cases heq
    rw [ht] at hlast
    cases hlast
  | cons _ front =>
    cases heq
    exact ⟨front, last, rfl, hlast⟩

theorem cons {t : Token} {ts : List Token} (h : InOrder ts) (ht : t.isFinish = false)
    (hlt : t.span.start.offset < t.span.stop.offset)
    (hle : ∀ u ∈ ts, t.span.stop.offset ≤ u.span.start.offset) : InOrder (t :: ts) := by
  refine ⟨List.pairwise_cons.mpr ⟨hle, h.pairwise⟩, List.forall_mem_cons.mpr ⟨fun _ => hlt, h.start_lt⟩,
    List.forall_mem_cons.mpr ⟨fun htrue => ?_, h.start_eq⟩, ?_⟩
  · rw [ht] at htrue
    cases htrue
  · obtain ⟨front, last, rfl, hlast⟩ := h.finish
    exact ⟨t :: front, last, rfl, hlast⟩

theorem finish_singleton (p : Position) : InOrder [.finish p] where
  pairwise := List.pairwise_singleton _ _
  start_lt := by simp [Token.isFinish, Token.finish]
  start_eq := by simp [Token.finish, Span.point]
  finish := ⟨[], _, rfl, rfl⟩

/-- Tokens stay in order when some are left out, but not the last one. -/
theorem sublist {ts us : List Token} {last : Token} (h : InOrder (ts ++ [last])) (hsub : us.Sublist ts) :
    InOrder (us ++ [last]) := by
  have hall := hsub.append_right [last]
  refine ⟨h.pairwise.sublist hall, fun t ht => h.start_lt t (hall.subset ht),
    fun t ht => h.start_eq t (hall.subset ht), us, last, rfl, ?_⟩
  obtain ⟨front, last', heq, hlast⟩ := h.finish
  obtain rfl : last = last' := List.singleton_inj.mp (List.append_inj_right' heq rfl)
  exact hlast

end InOrder

namespace ReadM

open Smalltalk.Expr

variable {α : Type} {c c' c'' : Cursor} {t : Token}

/-- A token has been taken between two cursors. -/
structure Taken (c : Cursor) (t : Token) (c' : Cursor) : Prop where
  place_eq : c.place = t.span.start.offset
  start_le : t.span.start.offset ≤ t.span.stop.offset
  stop_le : t.span.stop.offset ≤ c'.place
  inOrder : InOrder c'.tokens

theorem taken_next (hc : InOrder c.tokens) : Taken c c.current c.next := by
  obtain ⟨t, rest, hts⟩ := hc.exists_cons
  obtain ⟨ts, nodes⟩ := c
  cases hts
  cases hfinish : t.isFinish with
  | true =>
    have hnext : Cursor.next ⟨t :: rest, nodes⟩ = ⟨t :: rest, nodes⟩ := if_pos hfinish
    have heq := hc.start_eq t List.mem_cons_self hfinish
    rw [hnext]
    exact ⟨rfl, heq.le, heq.ge, hc⟩
  | false =>
    have hnext : Cursor.next ⟨t :: rest, nodes⟩ = ⟨rest, nodes⟩ :=
      if_neg (Bool.eq_false_iff.mp hfinish)
    have hrest := hc.tail hfinish
    obtain ⟨u, rest', rfl⟩ := hrest.exists_cons
    rw [hnext]
    exact ⟨rfl, (hc.start_lt t List.mem_cons_self hfinish).le,
      (List.pairwise_cons.mp hc.pairwise).1 u List.mem_cons_self, hrest⟩

/-- Only the end of the text is empty. -/
theorem start_lt_of_kind (hc : InOrder c.tokens) {kind : TokenKind} (hkind : c.current.kind = kind)
    (hne : kind ≠ .endOfInput) : c.current.span.start.offset < c.current.span.stop.offset := by
  obtain ⟨t, rest, hts⟩ := hc.exists_cons
  have hcurrent : c.current = t := by rw [Cursor.current, hts, List.headD_cons]
  rw [hcurrent] at hkind ⊢
  refine hc.start_lt t (hts ▸ List.mem_cons_self) (decide_eq_false ?_)
  rw [hkind]
  exact hne

theorem start_lt_of_isAt (hc : InOrder c.tokens) {mark : Punctuation} (h : c.isAt mark = true) :
    c.current.span.start.offset < c.current.span.stop.offset :=
  start_lt_of_kind hc (of_decide_eq_true h) (by simp)

/-- A cursor has gone on in the text. -/
structure Proceeds (c c' : Cursor) : Prop where
  inOrder : InOrder c'.tokens
  place_le : c.place ≤ c'.place

theorem Taken.proceeds (h : Taken c t c') : Proceeds c c' :=
  ⟨h.inOrder, h.place_eq.trans_le (h.start_le.trans h.stop_le)⟩

theorem Proceeds.trans (h : Proceeds c c') (h' : Proceeds c' c'') : Proceeds c c'' :=
  ⟨h'.inOrder, h.place_le.trans h'.place_le⟩

theorem Moved.proceeds (h : Moved c c') (hc : InOrder c.tokens) : Proceeds c c' := by
  induction h with
  | refl => exact ⟨hc, le_rfl⟩
  | next _ ih => exact ih.trans (taken_next ih.inOrder).proceeds

/-! ## Values -/

/-- Expressions that stand between an offset and a cursor. -/
structure StandsBefore (lo : Nat) (c : Cursor) (es : List Expr) : Prop where
  inOrder : InOrder c.tokens
  between : Between lo c.place es

namespace StandsBefore

variable {lo : Nat} {es fs : List Expr}

theorem nil (hc : InOrder c.tokens) : StandsBefore c.place c [] := ⟨hc, .nil le_rfl⟩

theorem append (h : StandsBefore lo c es) (h' : StandsBefore c.place c' fs) :
    StandsBefore lo c' (es ++ fs) :=
  ⟨h'.inOrder, h.between.append h'.between⟩

theorem proceeds (h : StandsBefore lo c es) (hc : Proceeds c c') : StandsBefore lo c' es :=
  ⟨hc.inOrder, h.between.mono le_rfl hc.place_le⟩

/-- What stands after a later place stands after an earlier one. -/
theorem of_proceeds (h : StandsBefore c'.place c'' es) (hc : Proceeds c c') : StandsBefore c.place c'' es :=
  ⟨h.inOrder, h.between.mono hc.place_le le_rfl⟩

end StandsBefore

/-! ## Literals and messages -/

section Values

variable {n : Nat} {inner : ReadM Expr} {e : Expr}

/-- A node without parts stands where its token does. -/
theorem standsBefore_leaf {kind : TokenKind} {e : Expr} (hc : InOrder c.tokens) (hkind : c.current.kind = kind)
    (hne : kind ≠ .endOfInput) (hspan : e.span = c.current.span) (hleaf : e.children = [])
    (hblock : e.isBlock = false) : StandsBefore c.place c.next.numbered [e] := by
  have htaken := taken_next hc
  have hlt := start_lt_of_kind hc hkind hne
  refine ⟨htaken.inOrder, .node (by rw [hspan]) (by rw [hspan]) hblock hlt ?_ le_rfl htaken.stop_le⟩
  rw [hleaf]
  exact .nil hlt.le

/-- A node from the start of a token to the end of a later region, with its parts between them. -/
theorem between_node {e : Expr} {lo hi : Nat} {last : Span} (h : Taken c t c')
    (hspan : e.span = t.span.merge last) (hstart : t.span.stop.offset ≤ last.start.offset)
    (hlast : last.start.offset ≤ last.stop.offset) (hlt : t.span.start.offset < t.span.stop.offset)
    (hlo : t.span.start.offset + e.isBlock.toNat ≤ lo) (hparts : Between lo last.stop.offset e.children)
    (hhi : last.stop.offset ≤ hi) : Between c.place hi [e] := by
  have hfrom : e.span.start = t.span.start := by rw [hspan, Span.start_merge (by omega)]
  have hto : e.span.stop.offset = last.stop.offset := by rw [hspan, Span.offset_stop_merge (by omega)]
  refine Between.singleton_iff.mpr ⟨?_, ?_, ?_, ?_⟩
  · rw [hfrom, h.place_eq]
  · rw [hfrom, hto]
    omega
  · rw [partsStart, hfrom, hto]
    exact hparts.mono hlo le_rfl
  · rw [hto]
    exact hhi

theorem StandsFor.ne_finish {kind : TokenKind} {value : Atom} (h : StandsFor kind value) :
    kind ≠ .endOfInput := by
  cases h <;> exact (by simp)

/-- An operand that stands between two offsets, with the expression that it is, if it is one. -/
structure OperandBetween (lo hi : Nat) (operand : Operand) : Prop where
  start : lo ≤ operand.span.start.offset
  start_lt : operand.span.start.offset < operand.span.stop.offset
  stop : operand.span.stop.offset ≤ hi
  parts : Between operand.span.start.offset operand.span.stop.offset (operandParts operand)

namespace OperandBetween

variable {lo hi hi' : Nat} {operand : Operand} {e : Expr}

theorem expr_iff : OperandBetween lo hi (.expr e) ↔ Between lo hi [e] := by
  constructor
  · intro h
    exact h.parts.mono h.start h.stop
  · intro h
    obtain ⟨hstart, hlt, -, hstop⟩ := Between.singleton_iff.mp h
    exact ⟨hstart, hlt, hstop, h.self⟩

theorem mono (h : OperandBetween lo hi operand) (hhi : hi ≤ hi') : OperandBetween lo hi' operand :=
  ⟨h.start, h.start_lt, h.stop.trans hhi, h.parts⟩

end OperandBetween

/-- A message stands from the start of its receiver to the end of its last part. -/
theorem between_message {operand : Operand} {selector : Selector} {arguments : List Expr} {last : Span}
    {lo mid k : Nat} (hoperand : OperandBetween lo mid operand)
    (harguments : Between mid last.stop.offset arguments) (hlast : mid ≤ last.start.offset) :
    Between lo last.stop.offset [operand.message ⟨k, operand.span.merge last⟩ selector arguments] := by
  obtain ⟨hlo, hlt, hmid, hparts⟩ := hoperand
  have hstart : (operand.span.merge last).start.offset = operand.span.start.offset := by
    rw [Span.start_merge (by omega)]
  have hstop : (operand.span.merge last).stop.offset = last.stop.offset :=
    Span.offset_stop_merge (hmid.trans harguments.le)
  have hall := hparts.append (harguments.mono hmid le_rfl)
  have hlt' := hlt.trans_le (hmid.trans harguments.le)
  cases operand with
  | expr receiver => exact .node hstart hstop rfl hlt' hall hlo le_rfl
  | superWord span => exact .node hstart hstop rfl hlt' hall hlo le_rfl

/-- An operand that stands between an offset and a cursor. -/
structure OperandBefore (lo : Nat) (c : Cursor) (operand : Operand) : Prop where
  inOrder : InOrder c.tokens
  between : OperandBetween lo c.place operand

/-- A message whose last part stands before the cursor does so, too. -/
theorem operandBefore_message {operand : Operand} {selector : Selector} {arguments : List Expr} {last : Span}
    {lo mid k : Nat} (hc : InOrder c.tokens) (hoperand : OperandBetween lo mid operand)
    (harguments : Between mid last.stop.offset arguments) (hlast : mid ≤ last.start.offset)
    (hstop : last.stop.offset ≤ c.place) :
    OperandBefore lo c.numbered (.expr (operand.message ⟨k, operand.span.merge last⟩ selector arguments)) :=
  ⟨hc, OperandBetween.expr_iff.mpr ((between_message hoperand harguments hlast).mono le_rfl hstop)⟩

theorem UnaryMessagesRead.operandBefore {k lo : Nat} {operand result : Operand}
    (hoperand : OperandBefore lo c operand) (h : UnaryMessagesRead k c operand result c') :
    OperandBefore lo c' result := by
  induction h with
  | stop => exact hoperand
  | message _ _ ih =>
    have htaken := taken_next hoperand.inOrder
    exact ih (operandBefore_message htaken.inOrder hoperand.between (.nil htaken.start_le) le_rfl
      htaken.stop_le)

/-- The argument of a message, after the token that asks for it. -/
theorem OperandBefore.argument {mid : Nat} (h : OperandBefore mid c (.expr e)) :
    Between mid e.span.stop.offset [e] ∧ mid ≤ e.span.start.offset ∧ e.span.stop.offset ≤ c.place := by
  have hbetween := OperandBetween.expr_iff.mp h.between
  obtain ⟨hstart, -, -, hstop⟩ := Between.singleton_iff.mp hbetween
  exact ⟨hbetween.self.mono hstart le_rfl, hstart, hstop⟩

/-- Keywords and arguments that stand between an offset and a cursor: the last keyword part ends where
the last argument does. -/
structure PartsBefore (lo : Nat) (c : Cursor) (parts : List KeywordPart) (arguments : List Expr) : Prop where
  inOrder : InOrder c.tokens
  le_place : lo ≤ c.place
  last : ∀ part, parts.getLast? = some part →
    lo ≤ part.span.start.offset ∧ Between lo part.span.stop.offset arguments ∧ part.span.stop.offset ≤ c.place
  none : parts = [] → arguments = []

/-- A keyword with its argument in front of others. -/
theorem PartsBefore.cons {lo mid : Nat} {part : KeywordPart} {parts : List KeywordPart} {arguments : List Expr}
    (hstart : lo ≤ part.span.start.offset) (hargument : Between lo part.span.stop.offset [e])
    (hstop : part.span.stop.offset ≤ mid) (h : PartsBefore mid c parts arguments) :
    PartsBefore lo c (part :: parts) (e :: arguments) := by
  have hmid : lo ≤ mid := hargument.le.trans hstop
  refine ⟨h.inOrder, hmid.trans h.le_place, fun last hlast => ?_, fun hnil => absurd hnil (List.cons_ne_nil _ _)⟩
  rw [List.getLast?_cons] at hlast
  obtain rfl := Option.some.inj hlast
  cases hparts : parts.getLast? with
  | none =>
    rw [h.none (List.getLast?_eq_none_iff.mp hparts)]
    exact ⟨hstart, hargument, hstop.trans h.le_place⟩
  | some last =>
    obtain ⟨hlo, hbetween, hplace⟩ := h.last last hparts
    exact ⟨hmid.trans hlo, hargument.append (hbetween.mono hstop le_rfl), hplace⟩

/-! ## Expressions -/

/-- A step that reads an expression from the place of the cursor on. -/
def ReadsInPlace (m : ReadM Expr) : Prop :=
  ∀ c e c', InOrder c.tokens → m c = .ok e c' → StandsBefore c.place c' [e]

variable (hinner : ReadsInPlace inner) (hc : InOrder c.tokens)

include hinner hc

theorem StatementRead.standsBefore (h : StatementRead inner c e c') : StandsBefore c.place c' [e] := by
  have htaken := taken_next hc
  cases h with
  | ret caret value =>
    have hlt := start_lt_of_isAt hc caret
    have hin := hinner _ _ _ htaken.inOrder value
    obtain ⟨hstart, hvalue, -, hstop⟩ := Between.singleton_iff.mp hin.between
    exact ⟨hin.inOrder, between_node htaken rfl (htaken.stop_le.trans hstart) hvalue.le hlt
      (hlt.le.trans (htaken.stop_le.trans hstart)) hin.between.self hstop⟩
  | @assign x e c₁ target _ value =>
    have hlt := start_lt_of_kind hc target (by simp)
    have hassigned := taken_next htaken.inOrder
    have hin := hinner c.next.next.numbered _ _ hassigned.inOrder value
    obtain ⟨hstart, hvalue, -, hstop⟩ := Between.singleton_iff.mp hin.between
    have hnext : c.current.span.stop.offset ≤ e.span.start.offset :=
      htaken.stop_le.trans (hassigned.proceeds.place_le.trans hstart)
    -- the target is the first part, and stands where its token does
    have htarget : Between c.current.span.start.offset e.span.start.offset [.name ⟨c.nodes, c.current.span⟩ x] :=
      .node rfl rfl rfl hlt (.nil hlt.le) le_rfl hnext
    exact ⟨hin.inOrder, between_node htaken rfl hnext hvalue.le hlt le_rfl
      (htarget.append hin.between.self) hstop⟩
  | expression value => exact hinner _ _ _ hc value

theorem StatementsRead.standsBefore {close : BodyEnd} {k : Nat} {es : List Expr}
    (h : StatementsRead n inner close k c es c') : StandsBefore c.place c' es := by
  induction h with
  | out => exact .nil hc
  | finish dots => exact (StandsBefore.nil hc).proceeds (dots.moved.proceeds hc)
  | last dots head =>
    have hdots := dots.moved.proceeds hc
    exact (head.standsBefore hinner hdots.inOrder).of_proceeds hdots
  | cons dots head _ _ _ ih =>
    have hdots := dots.moved.proceeds hc
    have hhead := (head.standsBefore hinner hdots.inOrder).of_proceeds hdots
    exact hhead.append (ih hhead.inOrder)

theorem BodyRead.standsBefore {close : BodyEnd} {b : Body} (h : BodyRead n inner close c b c') :
    StandsBefore c.place c' b.statements := by
  cases h with
  | mk locals statements =>
    have hlocals := locals.moved.proceeds hc
    exact (statements.standsBefore hinner hlocals.inOrder).of_proceeds hlocals

theorem BlockRead.standsBefore (hopening : c.isAt .leftBracket = true) (h : BlockRead n inner c e c') :
    StandsBefore c.place c' [e] := by
  cases h with
  | @mk xs b c₁ c₂ c₃ params bar body _ =>
    have htaken := taken_next hc
    have hlt := start_lt_of_isAt hc hopening
    have hparams := (params.taken.moved.trans bar.moved).proceeds htaken.inOrder
    have hbody := (body.standsBefore hinner hparams.inOrder).of_proceeds hparams
    have hclosed := taken_next hbody.inOrder
    have hend : c₃.place ≤ c₃.current.span.stop.offset := hclosed.start_le
    exact ⟨hclosed.inOrder, between_node htaken rfl (htaken.stop_le.trans hbody.between.le) hclosed.start_le hlt
      (hlt.trans_le htaken.stop_le) (hbody.between.mono le_rfl hend) hclosed.stop_le⟩

theorem ElementsRead.standsBefore {k : Nat} {es : List Expr} (h : ElementsRead n inner k c es c') :
    StandsBefore c.place c' es := by
  induction h with
  | finish dots => exact (StandsBefore.nil hc).proceeds (dots.moved.proceeds hc)
  | cons dots head _ _ _ ih =>
    have hdots := dots.moved.proceeds hc
    have hhead := (hinner _ _ _ hdots.inOrder head).of_proceeds hdots
    exact hhead.append (ih hhead.inOrder)

theorem ArrayRead.standsBefore (hopening : c.isAt .leftBrace = true) (h : ArrayRead n inner c e c') :
    StandsBefore c.place c' [e] := by
  cases h with
  | mk items =>
    have htaken := taken_next hc
    have hlt := start_lt_of_isAt hc hopening
    have hitems := items.standsBefore hinner htaken.inOrder
    have hclosed := taken_next hitems.inOrder
    exact ⟨hclosed.inOrder, between_node htaken rfl (htaken.stop_le.trans hitems.between.le) hclosed.start_le hlt
      (hlt.le.trans htaken.stop_le) (hitems.between.mono le_rfl hclosed.start_le) hclosed.stop_le⟩

theorem PrimaryRead.standsBefore (h : PrimaryRead n inner c e c') : StandsBefore c.place c' [e] := by
  have htaken := taken_next hc
  cases h with
  | literal token => exact standsBefore_leaf hc rfl token.ne_finish rfl rfl rfl
  | negative minus _ =>
    have hlt := start_lt_of_kind hc minus (by simp)
    have hnumber := taken_next htaken.inOrder
    exact ⟨hnumber.inOrder, between_node htaken rfl htaken.stop_le hnumber.start_le hlt hlt.le
      (.nil (htaken.stop_le.trans hnumber.start_le)) hnumber.stop_le⟩
  | name token => exact standsBefore_leaf hc token (by simp) rfl rfl rfl
  | parentheses _ nested _ =>
    have hstands := hinner _ _ _ htaken.inOrder nested
    exact (hstands.of_proceeds htaken.proceeds).proceeds (taken_next hstands.inOrder).proceeds
  | block opening block => exact block.standsBefore hinner hc opening
  | array opening array => exact array.standsBefore hinner hc opening

/-! ## Messages -/

theorem UnaryOperandRead.operandBefore {operand : Operand} (h : UnaryOperandRead n inner c operand c') :
    OperandBefore c.place c' operand := by
  cases h with
  | super word messages =>
    have htaken := taken_next hc
    have hlt := start_lt_of_kind hc word (by simp)
    have hword : OperandBetween c.place c.next.place (.superWord c.current.span) :=
      ⟨le_rfl, hlt, htaken.stop_le, .nil hlt.le⟩
    exact messages.operandBefore ⟨htaken.inOrder, hword⟩
  | primary head messages =>
    have hstands := head.standsBefore hinner hc
    exact messages.operandBefore ⟨hstands.inOrder, OperandBetween.expr_iff.mpr hstands.between⟩

omit hc in
theorem BinaryMessagesRead.operandBefore {k lo : Nat} {operand result : Operand}
    (hoperand : OperandBefore lo c operand) (h : BinaryMessagesRead n inner k c operand result c') :
    OperandBefore lo c' result := by
  induction h with
  | stop => exact hoperand
  | message _ argument _ ih =>
    have hproceeds := (taken_next hoperand.inOrder).proceeds
    have hbefore := argument.operandBefore hinner hproceeds.inOrder
    obtain ⟨hargument, hstart, hstop⟩ := hbefore.argument
    exact ih (operandBefore_message hbefore.inOrder (hoperand.between.mono hproceeds.place_le) hargument
      hstart hstop)

theorem BinaryOperandRead.operandBefore {operand : Operand} (h : BinaryOperandRead n inner c operand c') :
    OperandBefore c.place c' operand := by
  cases h with
  | mk head messages => exact messages.operandBefore hinner (head.operandBefore hinner hc)

theorem KeywordPartsRead.partsBefore {k : Nat} {parts : List (KeywordPart × Expr)}
    (h : KeywordPartsRead n inner k c parts c') :
    PartsBefore c.place c' (parts.map (·.1)) (parts.map (·.2)) := by
  induction h with
  | nil => exact ⟨hc, le_rfl, fun _ hlast => by simp at hlast, fun _ => rfl⟩
  | @cons _ c c₁ c' word e parts _ argument _ ih =>
    have htaken := taken_next hc
    have hbefore := argument.operandBefore hinner htaken.inOrder
    obtain ⟨hargument, hstart, hstop⟩ := hbefore.argument
    have hfirst : (c.current.span.merge e.span).start = c.current.span.start :=
      Span.start_merge (htaken.start_le.trans (htaken.stop_le.trans hstart))
    have hend : (c.current.span.merge e.span).stop.offset = e.span.stop.offset :=
      Span.offset_stop_merge (htaken.stop_le.trans hargument.le)
    refine .cons (hfirst ▸ le_rfl) ?_ (hend ▸ hstop) (ih hbefore.inOrder)
    rw [hend]
    exact hargument.mono htaken.proceeds.place_le le_rfl

theorem ExpressionRead.standsBefore (h : ExpressionRead n inner c e c') : StandsBefore c.place c' [e] := by
  cases h with
  | plain head =>
    have hbefore := head.operandBefore hinner hc
    exact ⟨hbefore.inOrder, OperandBetween.expr_iff.mp hbefore.between⟩
  | keywords head messages isLast =>
    have hbefore := head.operandBefore hinner hc
    have hparts := messages.partsBefore hinner hbefore.inOrder
    obtain ⟨hstart, harguments, hstop⟩ := hparts.last _ isLast
    exact ⟨hparts.inOrder, (between_message hbefore.between harguments hstart).mono le_rfl hstop⟩

end Values

/-- An expression at any level of nesting stands where it was read. -/
theorem readsInPlace_expressionAt (n depth : Nat) : ReadsInPlace (expressionAt n depth) := by
  induction depth with
  | zero => exact fun c e c' _ h => absurd h unexpected_ne_ok
  | succ depth ih => exact fun c e c' hc h => (expressionWith_eq_ok_iff.mp h).standsBefore ih hc

end ReadM

/-- The tokens of a text stand one after the other. -/
theorem inOrder_tokensFrom (done : Array Token) (p : Position) (cs : List Char) :
    ∃ ts finish, (tokensFrom done p cs).toList = done.toList ++ (ts ++ [finish]) ∧
      finish.isFinish = true ∧ InOrder (ts ++ [finish]) ∧
      ∀ t ∈ ts ++ [finish], p.offset ≤ t.span.start.offset := by
  fun_induction tokensFrom done p cs with
  | case1 done p cs start h =>
    refine ⟨[], .finish start, by simp, rfl, .finish_singleton start, ?_⟩
    simpa [Token.finish, Span.point] using p.offset_le_advance _
  | case2 done p cs start c rest h hlt scanned stop ih =>
    obtain ⟨ts, finish, hts, hfinish, hsorted, hge⟩ := ih
    have hstart : p.offset ≤ start.offset := p.offset_le_advance _
    have hstop : start.offset < stop.offset := start.offset_lt_advance (scan_text_ne_nil c rest)
    refine ⟨⟨scanned.kind, ⟨start, stop⟩, String.ofList scanned.text⟩ :: ts, finish, by simp [hts],
      hfinish, ?_, ?_⟩
    · exact hsorted.cons (decide_eq_false (scan_kind_ne c rest)) hstop hge
    · refine List.forall_mem_cons.mpr ⟨hstart, fun t ht => ?_⟩
      exact hstart.trans (hstop.le.trans (hge t ht))

/-- The tokens that a unit is read from stand one after the other. -/
theorem inOrder_ofTokens (source : String) : InOrder (Cursor.ofTokens (tokens source)).tokens := by
  obtain ⟨ts, finish, htokens, hfinish, hsorted, -⟩ := inOrder_tokensFrom #[] {} source.toList
  have hread : Cursor.ofTokens (tokens source) = ⟨ts.filter (!·.isComment) ++ [finish], 0⟩ := by
    rw [tokens, htokens]
    exact Cursor.ofTokens_filter (of_decide_eq_true hfinish)
  rw [hread]
  exact hsorted.sublist List.filter_sublist

end Smalltalk
