import Mathlib
import Smalltalk.Proofs.PairedReading
import Smalltalk.Proofs.Scanning

/-!
# Reading does not look at places

A reader decides by the kinds and the lexemes of tokens alone. Places only go from tokens to the nodes and
errors that come out. So reading tokens without their places gives the same tree without its places, and the
same errors.

A run on tokens with places and one on the same tokens without them are two runs that correspond.
-/

namespace Smalltalk

/-! ## Trees without places -/

/-- A name without its place. -/
def Ident.unplaced (i : Ident) : Ident := { i with span := {} }

/-- The number of a node without its place. -/
def NodeInfo.unplaced (info : NodeInfo) : NodeInfo := { info with span := {} }

/-- A keyword without its place. -/
def KeywordPart.unplaced (part : KeywordPart) : KeywordPart := ⟨part.keyword.unplaced, {}⟩

/-- A selector without its place. -/
def Selector.unplaced : Selector → Selector
  | unary word => .unary word.unplaced
  | binary operator => .binary operator.unplaced
  | keyword parts => .keyword (parts.map KeywordPart.unplaced)

theorem Selector.joined_unplaced (parts : List KeywordPart) :
    joined (parts.map KeywordPart.unplaced) = joined parts := by
  rw [joined, joined, List.map_map]
  rfl

/-- Without places, the keywords of a selector are joined to a name without a place. -/
theorem Selector.ident_unplaced (selector : Selector) : selector.unplaced.ident = selector.ident.unplaced := by
  cases selector with
  | unary word => rfl
  | binary operator => rfl
  | keyword parts =>
    have hspan : joinedSpan (parts.map KeywordPart.unplaced) = {} := by
      cases parts with
      | nil => rfl
      | cons part parts =>
        rw [List.map_cons, joinedSpan]
        simp only [← List.map_cons, List.getLast_map]
        rfl
    rw [unplaced, ident, ident, joined_unplaced, hspan]
    rfl

namespace Expr

mutual

/-- An expression without the places of its nodes. -/
def unplaced : Expr → Expr
  | atom info value => .atom info.unplaced value
  | name info x => .name info.unplaced x
  | array info items => .array info.unplaced (unplacedAll items)
  | block info params locals statements _ =>
    .block info.unplaced (params.map Ident.unplaced) (locals.map Ident.unplaced) (unplacedAll statements) {}
  | send info receiver selector arguments =>
    .send info.unplaced receiver.unplaced selector.unplaced (unplacedAll arguments)
  | superSend info selector arguments => .superSend info.unplaced selector.unplaced (unplacedAll arguments)
  | assign info target value => .assign info.unplaced target.unplaced value.unplaced
  | ret info value => .ret info.unplaced value.unplaced

/-- Several expressions without the places of their nodes. -/
def unplacedAll : List Expr → List Expr
  | [] => []
  | e :: es => e.unplaced :: unplacedAll es

end

theorem unplacedAll_eq_map (es : List Expr) : unplacedAll es = es.map unplaced := by
  induction es with
  | nil => rw [unplacedAll, List.map_nil]
  | cons e es ih => rw [unplacedAll, ih, List.map_cons]

end Expr

/-- A body without places. -/
def Body.unplaced (b : Body) : Body := ⟨b.locals.map Ident.unplaced, b.statements.map Expr.unplaced⟩

/-- What a method does, without places. -/
def MethodBody.unplaced : MethodBody → MethodBody
  | code body => .code body.unplaced
  | primitive name => .primitive name.unplaced

/-- A method without places. -/
def MethodDef.unplaced (m : MethodDef) : MethodDef :=
  { selector := m.selector.unplaced
    params := m.params.map Ident.unplaced
    classSide := m.classSide
    body := m.body.unplaced }

/-- A class without places. -/
def ClassDef.unplaced (c : ClassDef) : ClassDef :=
  { name := c.name.unplaced
    superclass := c.superclass.map Ident.unplaced
    fields := c.fields.map Ident.unplaced
    methods := c.methods.map MethodDef.unplaced }

/-- A unit without places. -/
def SourceUnit.unplaced (u : SourceUnit) : SourceUnit :=
  { classes := u.classes.map ClassDef.unplaced
    main := u.main.unplaced
    nodeCount := u.nodeCount }

/-- A syntax error without its place. -/
def SyntaxError.unplaced (e : SyntaxError) : SyntaxError := { e with span := {} }

/-! ## Cursors -/

namespace Cursor

/-- A cursor before tokens without places. -/
def unplaced (c : Cursor) : Cursor := { c with tokens := c.tokens.map Token.unplaced }

variable (c : Cursor)

theorem current_unplaced : c.unplaced.current = c.current.unplaced := by
  rw [current, current, unplaced]
  cases c.tokens <;> rfl

theorem following_unplaced : c.unplaced.following = c.following.unplaced := by
  rw [following, following, current_unplaced, unplaced]
  rcases c.tokens with _ | ⟨t, _ | ⟨t', ts⟩⟩ <;> rfl

theorem kind_current_unplaced : c.unplaced.current.kind = c.current.kind := by
  rw [current_unplaced]
  rfl

/-- A reader looks at the kind of the second token too, and this is the same. -/
theorem kind_following_unplaced : c.unplaced.following.kind = c.following.kind := by
  rw [following_unplaced]
  rfl

theorem isFinish_current_unplaced : c.unplaced.current.isFinish = c.current.isFinish := by
  rw [Token.isFinish, Token.isFinish, kind_current_unplaced]

/-- A step goes to the same token with places and without. -/
theorem next_unplaced : c.unplaced.next = c.next.unplaced := by
  rw [next, next, isFinish_current_unplaced]
  split
  · rfl
  · rw [unplaced, unplaced, List.map_tail]

end Cursor

/-! ## Trees that are alike but for places -/

/-- Things that are alike where the second has no places. -/
def Likeness.placeless : Likeness where
  spans _ s' := s' = {}
  counts k l := l = k

/-- Lists whose items are related by a function are related by its map. -/
theorem eq_map_of_forall₂ {α β : Type} {R : α → β → Prop} (f : α → β) (hR : ∀ a b, R a b → b = f a)
    {xs : List α} {ys : List β} (h : List.Forall₂ R xs ys) : ys = xs.map f := by
  induction h with
  | nil => rfl
  | cons hab _ ih => rw [hR _ _ hab, ih, List.map_cons]

namespace Likeness

theorem Idents.eq_unplaced {x x' : Ident} (h : placeless.Idents x x') : x' = x.unplaced := by
  obtain ⟨x', span⟩ := x'
  obtain ⟨rfl, rfl⟩ := h
  rfl

theorem Infos.eq_unplaced {i i' : NodeInfo} (h : placeless.Infos i i') : i' = i.unplaced := by
  obtain ⟨id, span⟩ := i'
  obtain ⟨rfl, rfl⟩ := h
  rfl

theorem Parts.eq_unplaced {p p' : KeywordPart} (h : placeless.Parts p p') : p' = p.unplaced := by
  obtain ⟨keyword, span⟩ := p'
  obtain ⟨hkeyword, rfl⟩ := h
  rw [KeywordPart.unplaced, ← hkeyword.eq_unplaced]

theorem Selectors.eq_unplaced {m m' : Selector} (h : placeless.Selectors m m') : m' = m.unplaced := by
  cases h with
  | unary word => rw [Selector.unplaced, word.eq_unplaced]
  | binary operator => rw [Selector.unplaced, operator.eq_unplaced]
  | keyword parts => rw [Selector.unplaced, eq_map_of_forall₂ KeywordPart.unplaced (fun _ _ => Parts.eq_unplaced) parts]

/-- Names alike but for places are the names without places. -/
theorem idents_eq_map {xs xs' : List Ident} (h : List.Forall₂ placeless.Idents xs xs') :
    xs' = xs.map Ident.unplaced := eq_map_of_forall₂ Ident.unplaced (fun _ _ => Idents.eq_unplaced) h

mutual

/-- A tree alike but for places is the tree without places. -/
theorem Exprs.eq_unplaced : ∀ {e e' : Expr}, placeless.Exprs e e' → e' = e.unplaced
  | _, _, .atom info => by rw [Expr.unplaced, info.eq_unplaced]
  | _, _, .name info => by rw [Expr.unplaced, info.eq_unplaced]
  | _, _, .array info items => by rw [Expr.unplaced, info.eq_unplaced, exprs_eq_unplacedAll items]
  | _, _, .block info params locals statements close => by
    rw [Expr.unplaced, info.eq_unplaced, idents_eq_map params, idents_eq_map locals,
      exprs_eq_unplacedAll statements, close]
  | _, _, .send info receiver selector arguments => by
    rw [Expr.unplaced, info.eq_unplaced, receiver.eq_unplaced, selector.eq_unplaced,
      exprs_eq_unplacedAll arguments]
  | _, _, .superSend info selector arguments => by
    rw [Expr.unplaced, info.eq_unplaced, selector.eq_unplaced, Selector.ident_unplaced,
      exprs_eq_unplacedAll arguments]
  | _, _, .assign info target value => by
    rw [Expr.unplaced, info.eq_unplaced, target.eq_unplaced, value.eq_unplaced]
  | _, _, .ret info value => by rw [Expr.unplaced, info.eq_unplaced, value.eq_unplaced]

/-- Several trees alike but for places are the trees without places. -/
theorem exprs_eq_unplacedAll : ∀ {es es' : List Expr},
    List.Forall₂ placeless.Exprs es es' → es' = Expr.unplacedAll es
  | _, _, .nil => by rw [Expr.unplacedAll]
  | _, _, .cons h hs => by rw [Expr.unplacedAll, h.eq_unplaced, exprs_eq_unplacedAll hs]

end

/-- A body alike but for places is the body without places. -/
theorem Bodies.eq_unplaced {b b' : Body} (h : placeless.Bodies b b') : b' = b.unplaced := by
  obtain ⟨locals, statements⟩ := b'
  obtain ⟨hlocals, hstatements⟩ := h
  rw [Body.unplaced, ← Expr.unplacedAll_eq_map, ← idents_eq_map hlocals, ← exprs_eq_unplacedAll hstatements]

theorem MethodBodies.eq_unplaced {b b' : MethodBody} (h : placeless.MethodBodies b b') : b' = b.unplaced := by
  cases h with
  | code body => rw [MethodBody.unplaced, body.eq_unplaced]
  | primitive name => rw [MethodBody.unplaced, name.eq_unplaced]

theorem Methods.eq_unplaced {m m' : MethodDef} (h : placeless.Methods m m') : m' = m.unplaced := by
  obtain ⟨selector, params, side, body, span, close⟩ := m'
  obtain ⟨hselector, hparams, rfl, hbody, rfl, rfl⟩ := h
  rw [MethodDef.unplaced, ← hselector.eq_unplaced, ← idents_eq_map hparams, ← hbody.eq_unplaced]

/-- A class alike but for places is the class without places. -/
theorem Classes.eq_unplaced {d d' : ClassDef} (h : placeless.Classes d d') : d' = d.unplaced := by
  obtain ⟨name, superclass, fields, methods, span⟩ := d'
  obtain ⟨hname, hsuperclass, hfields, hmethods, rfl⟩ := h
  have hsuperclass : superclass = d.superclass.map Ident.unplaced := by
    generalize d.superclass = superclass' at hsuperclass
    cases hsuperclass with
    | none => rfl
    | some hsuper => rw [hsuper.eq_unplaced, Option.map_some]
  rw [ClassDef.unplaced, ← hname.eq_unplaced, ← hsuperclass, ← idents_eq_map hfields,
    ← eq_map_of_forall₂ MethodDef.unplaced (fun _ _ => Methods.eq_unplaced) hmethods]

/-- An error alike but for its place is the error without its place. -/
theorem Errors.eq_unplaced {e e' : SyntaxError} (h : placeless.Errors e e') : e' = e.unplaced := by
  obtain ⟨cause, span⟩ := e'
  obtain ⟨rfl, rfl⟩ := h
  rfl

end Likeness

/-! ## Readers -/

namespace Cursor

/-- At most `j` tokens are left, and the end of the text is one of them. -/
structure Within (c : Cursor) (j : Nat) : Prop where
  length_le : c.tokens.length ≤ j
  finish : ∃ t ∈ c.tokens, t.kind = .endOfInput

variable {c : Cursor} {i j : Nat}

theorem Within.mono (h : c.Within i) (hij : i ≤ j) : c.Within j := ⟨h.length_le.trans hij, h.finish⟩

/-- The end of the text is always left. -/
theorem Within.exists_succ (h : c.Within j) : ∃ i, j = i + 1 := by
  obtain ⟨t, ht, -⟩ := h.finish
  have hpos : 0 < c.tokens.length := List.length_pos_of_mem ht
  exact Nat.exists_eq_succ_of_ne_zero (Nat.ne_of_gt (hpos.trans_le h.length_le))

/-- A step leaves one token less, and the end of the text. -/
theorem Within.next (h : c.Within (j + 1)) (hne : c.current.kind ≠ .endOfInput) : c.next.Within j := by
  obtain ⟨hlength, t, ht, hkind⟩ := h
  rw [tokens_eq_cons hne] at hlength ht
  refine ⟨Nat.le_of_succ_le_succ hlength, t, ?_, hkind⟩
  rcases List.mem_cons.mp ht with rfl | ht
  · exact absurd hkind hne
  · exact ht

/-- Both cursors stand on the same token, but for its place. -/
theorem tokens_current_unplaced (c : Cursor) :
    Likeness.placeless.Tokens c.current c.unplaced.current := by
  rw [current_unplaced]
  exact ⟨rfl, rfl, rfl⟩

/-- A cursor corresponds to the one before the same tokens without places. -/
def placeless : Pairing where
  toLikeness := .placeless
  cursors _ j c c' := c' = c.unplaced ∧ c.Within j
  heads j c c' := c' = c.unplaced ∧ c.Within j
  spans_merge := by
    rintro _ _ _ _ rfl rfl
    rfl
  mono h hij := ⟨h.1, h.2.mono hij⟩
  numbered := by
    rintro d j c _ ⟨rfl, h⟩
    exact ⟨rfl, h.length_le, h.finish⟩
  counts_nodes := by
    rintro d j c _ ⟨rfl, -⟩
    rfl
  exists_succ h := h.2.exists_succ
  current := by
    rintro d j c _ ⟨rfl, -⟩
    exact c.tokens_current_unplaced
  following := by
    rintro d j c _ ⟨rfl, -⟩ -
    exact c.kind_following_unplaced
  next := by
    rintro d j c _ ⟨rfl, h⟩ hne
    exact ⟨c.next_unplaced, h.next hne⟩
  heads_counts_nodes := by
    rintro j c _ ⟨rfl, -⟩
    rfl
  heads_exists_succ h := h.2.exists_succ
  heads_current := by
    rintro j c _ ⟨rfl, -⟩
    exact c.tokens_current_unplaced
  heads_next := by
    rintro j c _ ⟨rfl, h⟩ hne -
    exact ⟨c.next_unplaced, h.next hne⟩
  heads_opening := by
    rintro j c _ ⟨rfl, h⟩ hbracket
    exact ⟨c.next_unplaced, h.next (hbracket ▸ TokenKind.noConfusion)⟩

end Cursor

/-! ## Units -/

namespace Cursor

/-- A class starts at the same tokens with places and without. -/
theorem isAtClass_unplaced (c : Cursor) : c.unplaced.isAtClass = c.isAtClass := by
  rw [isAtClass, isAtClass, kind_current_unplaced, kind_following_unplaced]

/-- Brackets are matched by the kinds of tokens alone. -/
theorem afterBrackets_unplaced (depth : Nat) (ts : List Token) :
    afterBrackets depth (ts.map Token.unplaced) = (afterBrackets depth ts).map Token.unplaced := by
  induction ts generalizing depth with
  | nil => rfl
  | cons t ts ih =>
    obtain ⟨kind, span, lexeme⟩ := t
    rw [List.map_cons, afterBrackets.eq_def, afterBrackets.eq_def]
    cases kind with
    | punctuation mark =>
      cases mark with
      | leftBracket => exact ih (depth + 1)
      | rightBracket =>
        simp only [Token.unplaced]
        split
        · rfl
        · exact ih (depth - 1)
      | _ => exact ih depth
    | endOfInput => rfl
    | _ => exact ih depth

/-- After an error, reading goes on from the same token with places and without. -/
theorem skipClass_unplaced (c : Cursor) : c.unplaced.skipClass = c.skipClass.unplaced := by
  rw [skipClass, skipClass, unplaced, unplaced, List.dropWhile_map, afterBrackets_unplaced]
  rfl

/-- The end of the text is never passed over. -/
theorem afterBrackets_spec (depth : Nat) {ts : List Token} (h : ∃ t ∈ ts, t.kind = .endOfInput) :
    (afterBrackets depth ts).length ≤ ts.length ∧ ∃ t ∈ afterBrackets depth ts, t.kind = .endOfInput := by
  fun_induction afterBrackets depth ts with
  | case1 => simp at h
  | case2 depth t ts hkind ih | case4 depth t ts hkind _ ih =>
    obtain ⟨hlength, hfinish⟩ := ih (by simpa [hkind] using h)
    exact ⟨hlength.trans (Nat.le_succ _), hfinish⟩
  | case6 depth t ts _ _ hkind ih =>
    have hne : t.kind ≠ .endOfInput := hkind
    obtain ⟨hlength, hfinish⟩ := ih (by simpa [hne] using h)
    exact ⟨hlength.trans (Nat.le_succ _), hfinish⟩
  | case3 depth t ts hkind _ => exact ⟨Nat.le_succ _, by simpa [hkind] using h⟩
  | case5 depth t ts _ => exact ⟨le_rfl, h⟩

/-- What is passed over of a class that cannot be read is not the end of the text. -/
theorem Within.skipClass {c : Cursor} {j : Nat} (h : c.Within j) : c.skipClass.Within j := by
  obtain ⟨hlength, t, ht, hkind⟩ := h
  rw [Cursor.skipClass]
  generalize hopening : (fun t : Token => !decide (t.kind = .punctuation .leftBracket) && !t.isFinish) = p
  have hp : p t = false := by simp [← hopening, Token.isFinish, hkind]
  have hfinish : t ∈ c.tokens.dropWhile p := by
    rw [← List.takeWhile_append_dropWhile (p := p) (l := c.tokens)] at ht
    rcases List.mem_append.mp ht with hbefore | hafter
    · exact absurd (List.mem_takeWhile_imp hbefore) (by simp [hp])
    · exact hafter
  obtain ⟨hrest, hfinish⟩ := afterBrackets_spec 0 ⟨t, hfinish, hkind⟩
  exact ⟨(hrest.trans (List.dropWhile_sublist p).length_le).trans hlength, hfinish⟩

/-- A cursor before the tokens of a text has the end of the text before it, which is added if need be. -/
theorem within_ofTokens (ts : List Token) : (ofTokens ts).Within (ofTokens ts).tokens.length := by
  refine ⟨le_rfl, ?_⟩
  unfold ofTokens
  dsimp only
  split
  · exact ⟨.finish {}, by simp, rfl⟩
  · next last hlast =>
    split
    · next hfinish => exact ⟨last, List.mem_of_getLast? hlast, of_decide_eq_true hfinish⟩
    · exact ⟨.finish last.span.stop, by simp, rfl⟩

/-- Comments are left out, and an end is added, whether or not there are places. -/
theorem ofTokens_unplaced (ts : List Token) : ofTokens (ts.map Token.unplaced) = (ofTokens ts).unplaced := by
  have hfilter : (ts.map Token.unplaced).filter (!·.isComment) = (ts.filter (!·.isComment)).map Token.unplaced :=
    List.filter_map ..
  rw [ofTokens, ofTokens, hfilter, List.getLast?_map]
  cases (ts.filter (!·.isComment)).getLast? with
  | none => rfl
  | some last =>
    have hlast : last.unplaced.isFinish = last.isFinish := rfl
    simp only [Option.map_some, hlast]
    split
    · rfl
    · rw [unplaced, List.map_append]
      rfl

end Cursor

/-- Classes read so far, without places. -/
def ClassesRead.unplaced (r : ClassesRead) : ClassesRead :=
  ⟨r.classes.map ClassDef.unplaced, r.errors.map SyntaxError.unplaced, r.cursor.unplaced⟩

/-- Classes are read, or passed over, in the same way with places and without. -/
theorem readClasses_unplaced (n k : Nat) {r : ClassesRead} (h : r.cursor.Within n) :
    readClasses n k r.unplaced = (readClasses n k r).unplaced ∧ (readClasses n k r).cursor.Within n := by
  induction k generalizing r with
  | zero => exact ⟨rfl, h⟩
  | succ k ih =>
    have hat : r.unplaced.cursor.isAtClass = r.cursor.isAtClass := r.cursor.isAtClass_unplaced
    rw [readClasses, readClasses, hat]
    by_cases hclass : r.cursor.isAtClass = true
    · rw [if_pos hclass, if_pos hclass]
      have hheads : Cursor.placeless.heads n r.cursor r.unplaced.cursor := ⟨rfl, h⟩
      have hpaired := Pairing.paired_classDef hheads hclass (min_self n).ge
      unfold Pairing.Paired at hpaired
      generalize ReadM.classDef n r.cursor = read, ReadM.classDef n r.unplaced.cursor = read' at hpaired
      cases hpaired with
      | @ok d d' c c' hd hc =>
        obtain ⟨rfl, hwithin⟩ := hc
        obtain rfl : d' = d.unplaced := Likeness.Classes.eq_unplaced hd
        have hrest := ih (r := { r with classes := r.classes.push d, cursor := c }) hwithin
        rw [ClassesRead.unplaced, Array.map_push] at hrest
        exact hrest
      | @error e e' c c' he hcounts =>
        obtain rfl : e' = e.unplaced := Likeness.Errors.eq_unplaced he
        obtain ⟨tokens', nodes'⟩ := c'
        obtain rfl : nodes' = c.nodes := hcounts
        have hskip : ({ r.cursor with nodes := c.nodes } : Cursor).Within n := ⟨h.length_le, h.finish⟩
        have hrest := ih (r := { r with
          errors := r.errors.push e, cursor := { r.cursor with nodes := c.nodes }.skipClass }) hskip.skipClass
        rw [ClassesRead.unplaced, Array.map_push, ← Cursor.skipClass_unplaced] at hrest
        exact hrest
    · rw [if_neg hclass, if_neg hclass]
      exact ⟨rfl, h⟩

/-- The outcome of reading a unit, without places. -/
def SourceUnit.unplacedResult : Except (List SyntaxError) SourceUnit → Except (List SyntaxError) SourceUnit
  | .ok u => .ok u.unplaced
  | .error es => .error (es.map SyntaxError.unplaced)

/-- A unit is read in the same way with places and without: its classes first, and then its main program. -/
theorem SourceUnit.ofCursor_unplaced {c : Cursor} (h : c.Within c.tokens.length) :
    ofCursor c.unplaced = unplacedResult (ofCursor c) := by
  have hlength : c.unplaced.tokens.length = c.tokens.length := List.length_map ..
  obtain ⟨hread, hwithin⟩ := readClasses_unplaced c.tokens.length c.tokens.length (r := { cursor := c }) h
  have hstart : ClassesRead.unplaced { cursor := c } = { cursor := c.unplaced } := by
    rw [ClassesRead.unplaced, Array.map_empty, Array.map_empty]
  rw [hstart] at hread
  rw [ofCursor, ofCursor, hlength, hread]
  generalize c.tokens.length = n at hwithin ⊢
  generalize readClasses n n { cursor := c } = read at hwithin ⊢
  have hcursors : Cursor.placeless.cursors 2 n read.cursor read.unplaced.cursor := ⟨rfl, hwithin⟩
  have hpaired := Pairing.paired_body (Pairing.nested_expressionWithin n n) hcursors
    (.inr (Nat.succ_pos 0) : BodyEnd.finish = .bracket ∨ 0 < 1) (min_self n).ge (min_self n).ge
  unfold Pairing.Paired at hpaired
  generalize ReadM.body n (ReadM.expressionWithin n) .finish read.cursor = body,
    ReadM.body n (ReadM.expressionWithin n) .finish read.unplaced.cursor = body' at hpaired
  cases hpaired with
  | @ok main main' c c' hmain hc =>
    obtain ⟨rfl, -⟩ := hc
    obtain rfl : main' = main.unplaced := Likeness.Bodies.eq_unplaced hmain
    have hempty : (read.errors.map SyntaxError.unplaced).isEmpty = read.errors.isEmpty := by
      rw [Array.isEmpty, Array.isEmpty, Array.size_map]
    simp only [ClassesRead.unplaced, hempty]
    split
    · simp only [unplacedResult, unplaced, Array.toList_map, Cursor.current_unplaced]
      rfl
    · simp only [unplacedResult, Array.toList_map]
  | @error e e' c c' he _ =>
    obtain rfl : e' = e.unplaced := Likeness.Errors.eq_unplaced he
    simp only [ClassesRead.unplaced, unplacedResult, ← Array.map_push, Array.toList_map]

/-- Reading tokens without places gives the tree, or the errors, without places. -/
theorem SourceUnit.ofTokens_unplaced (ts : List Token) :
    ofTokens (ts.map Token.unplaced) = unplacedResult (ofTokens ts) := by
  rw [ofTokens, ofTokens, Cursor.ofTokens_unplaced, ofCursor_unplaced (Cursor.within_ofTokens ts)]

end Smalltalk
