import Mathlib
import Smalltalk.Proofs.IndexedReading
import Smalltalk.Proofs.Reading

/-!
# The machine follows the readers

As long as the last token is the end of the text, the machine comes to a result with enough fuel, and to the same one
as the reader of the same name. It leaves its index where the reader leaves the cursor. On the way the index only
moves forward, token by token, and it stays on the tokens.

A reader that succeeds has taken at least one token, wherever a loop or a nested expression depends on it. So the
bound that a reader gets for its rounds, the number of tokens that are left, plays no part.

The machine is a program of its own, so it is compared with the readers function by function: a lemma here belongs to
one function of the machine and to the reader of its name, and a change to one of them is a change to both. What can be
said of the readers alone is said once, in the relations that they satisfy and in their correspondence between two runs.
-/

namespace Smalltalk.Indexed

/-! ## The way of the index -/

/-- Where reading is: the index, and the first token of the class definition that is being read. -/
structure Place where
  index : Nat
  header : Option Nat

/-- What an event does to the place, where the last token has the index `last`. The index moves by one token and
not beyond the last one. Only within a class definition it is set back, and only to where the definition starts. A
class definition is left behind, whether it has been read or passed over. -/
inductive Takes (last : Nat) : Event → Place → Place → Prop where
  | moved {index : Nat} {header : Option Nat} :
    index < last → Takes last (.moved (index + 1)) ⟨index, header⟩ ⟨index + 1, header⟩
  | classMet {index : Nat} : Takes last (.classMet index) ⟨index, none⟩ ⟨index, some index⟩
  | classRead {index header : Nat} :
    header < index → Takes last (.classRead header) ⟨index, some header⟩ ⟨index, none⟩
  | setBack {index header : Nat} : Takes last (.setBack header) ⟨index, some header⟩ ⟨header, some header⟩
  | classPassed {index header : Nat} :
    header < index → Takes last (.classPassed header) ⟨index, some header⟩ ⟨index, none⟩

/-- Events that lead from one place to another. -/
inductive Trail (last : Nat) : Place → List Event → Place → Prop where
  | nil {p : Place} : Trail last p [] p
  | cons {p q r : Place} {event : Event} {events : List Event} :
    Takes last event p q → Trail last q events r → Trail last p (event :: events) r

/-- Ways can be joined where one ends and the other starts. -/
theorem Trail.append {last : Nat} {p q r : Place} {events events' : List Event} (h : Trail last p events q)
    (h' : Trail last q events' r) : Trail last p (events ++ events') r := by
  induction h with
  | nil => exact h'
  | cons htakes _ ih => exact .cons htakes (ih h')

/-! ## States -/

namespace State

variable {s s' s'' : State}

/-- The cursor that stands where the machine does. -/
def cursor (s : State) : Cursor := ⟨s.tokens.toList.drop s.index, s.arena.size⟩

/-- How many tokens are left. -/
def rest (s : State) : Nat := s.tokens.size - s.index

/-- The index of the last token. -/
def last (s : State) : Nat := s.tokens.size - 1

/-- The arena knows the place of an expression. -/
def Holds (s : State) (e : Expr) : Prop := s.arena[e.id]? = some e.span

/-- The index is on the tokens, the last of which is the end of the text, and every integer has a negative. -/
structure Sound (s : State) : Prop where
  index_lt : s.index < s.tokens.size
  isFinish_last : ∀ token, s.tokens[s.last]? = some token → token.isFinish = true
  integer_gt : ∀ token ∈ s.tokens, ∀ v, token.kind = .integer v → -9223372036854775808 < v

/-- What steps do that stay within a class definition: they take tokens and make nodes. -/
structure Continues (s s' : State) : Prop where
  tokens_eq : s'.tokens = s.tokens
  errors_eq : s'.errors = s.errors
  index_le : s.index ≤ s'.index
  index_lt : s'.index < s.tokens.size
  arena_kept : ∀ (i : Nat) span, s.arena[i]? = some span → s'.arena[i]? = some span
  log_eq : ∃ events, s'.log = s.log ++ events ∧
    ∀ header, Trail s.last ⟨s.index, header⟩ events ⟨s'.index, header⟩

theorem length_tokens_cursor (s : State) : s.cursor.tokens.length = s.rest := by
  simp [cursor, rest]

theorem rest_le_of_index_le (htokens : s'.tokens = s.tokens) (hindex : s.index ≤ s'.index) : s'.rest ≤ s.rest := by
  rw [rest, rest, htokens]
  exact Nat.sub_le_sub_left hindex _

namespace Sound

variable (hs : s.Sound)

include hs

theorem of_tokens_eq (htokens : s'.tokens = s.tokens) (hindex : s'.index < s.tokens.size) : s'.Sound := by
  refine ⟨htokens.symm ▸ hindex, ?_, ?_⟩
  · rw [last, htokens]
    exact hs.isFinish_last
  · rw [htokens]
    exact hs.integer_gt

theorem rest_pos : 0 < s.rest := Nat.sub_pos_of_lt hs.index_lt

theorem drop_eq : s.tokens.toList.drop s.index = s.cursor.current :: s.tokens.toList.drop (s.index + 1) := by
  have hlt : s.index < s.tokens.toList.length := by simpa using hs.index_lt
  rw [Cursor.current, cursor, List.drop_eq_getElem_cons hlt]
  rfl

theorem getElem?_index : s.tokens[s.index]? = some s.cursor.current := by
  have hget := congrArg List.head? hs.drop_eq
  rw [List.head?_drop, List.head?_cons, Array.getElem?_toList] at hget
  exact hget

theorem current_mem : s.cursor.current ∈ s.tokens := Array.mem_of_getElem? hs.getElem?_index

/-- Only at the end of the text the index is on the last token. -/
theorem index_lt_last (hcurrent : s.cursor.current.isFinish = false) : s.index < s.last := by
  have hne : s.index ≠ s.last := fun heq => by
    rw [hs.isFinish_last _ (heq ▸ hs.getElem?_index)] at hcurrent
    cases hcurrent
  have hlt := hs.index_lt
  unfold last at hne ⊢
  omega

/-- The token after the current one, or the last one. -/
theorem getElem?_following : s.tokens[min (s.index + 1) s.last]? = some s.cursor.following := by
  have htail : s.cursor.tokens.tail = s.tokens.toList.drop (s.index + 1) := by
    rw [cursor, List.tail_drop]
  rw [Cursor.following, htail]
  by_cases hlt : s.index + 1 < s.tokens.size
  · rw [min_eq_left (by unfold last; omega), List.drop_eq_getElem_cons (by simpa using hlt)]
    simp [hlt]
  · have hlast : min (s.index + 1) s.last = s.index := by
      have hindex := hs.index_lt
      unfold last
      omega
    rw [hlast, hs.getElem?_index, List.drop_eq_nil_of_le (by simpa using hlt)]
    rfl

end Sound

namespace Continues

theorem refl (hs : s.Sound) : s.Continues s :=
  ⟨rfl, rfl, le_rfl, hs.index_lt, fun _ _ h => h, [], (List.append_nil _).symm, fun _ => .nil⟩

theorem trans (h : s.Continues s') (h' : s'.Continues s'') : s.Continues s'' := by
  obtain ⟨events, hlog, htrail⟩ := h.log_eq
  obtain ⟨events', hlog', htrail'⟩ := h'.log_eq
  have hlast : s'.last = s.last := by rw [last, last, h.tokens_eq]
  refine ⟨h'.tokens_eq.trans h.tokens_eq, h'.errors_eq.trans h.errors_eq, h.index_le.trans h'.index_le,
    h.tokens_eq ▸ h'.index_lt, fun i span hi => h'.arena_kept i span (h.arena_kept i span hi), events ++ events',
    ?_, fun header => (htrail header).append (hlast ▸ htrail' header)⟩
  rw [hlog', hlog, List.append_assoc]

theorem sound (h : s.Continues s') (hs : s.Sound) : s'.Sound := hs.of_tokens_eq h.tokens_eq h.index_lt

theorem rest_le (h : s.Continues s') : s'.rest ≤ s.rest := rest_le_of_index_le h.tokens_eq h.index_le

theorem holds (h : s.Continues s') {e : Expr} (he : s.Holds e) : s'.Holds e := h.arena_kept _ _ he

end Continues

end State

open State

/-! ## Steps abreast -/

variable {α β : Type} {P : State → α → Prop} {Q : State → β → Prop} {s : State}

theorem bind_of_ok {m' : IndexM α} {k' : α → IndexM β} {a : α} {s' : State} (h : m' s = some (.ok a, s')) :
    (m' >>= k') s = k' a s' := by
  show ((m' s).bind fun r => ExceptT.bindCont k' r.1 r.2) = _
  rw [h]
  rfl

/-- With enough fuel, a step comes to a result. -/
def Comes (m' : Nat → IndexM α) (s : State) (r : Except SyntaxError α) (s' : State) : Prop :=
  ∃ enough, ∀ fuel, enough ≤ fuel → m' fuel s = some (r, s')

namespace Comes

variable {m' : Nat → IndexM α} {k' : Nat → α → IndexM β} {s₁ s₂ : State}

/-- A step that needs no fuel. -/
theorem of_run {m' : IndexM α} {r : Except SyntaxError α} (h : m' s = some (r, s₁)) : Comes (fun _ => m') s r s₁ :=
  ⟨0, fun _ _ => h⟩

/-- Steps come to a result one after the other, with fuel enough for both. -/
theorem bind {a : α} {r : Except SyntaxError β} (hm : Comes m' s (.ok a) s₁)
    (hk : Comes (fun fuel => k' fuel a) s₁ r s₂) : Comes (fun fuel => m' fuel >>= k' fuel) s r s₂ := by
  obtain ⟨enough, hm⟩ := hm
  obtain ⟨enough₁, hk⟩ := hk
  refine ⟨max enough enough₁, fun fuel hfuel => ?_⟩
  exact (bind_of_ok (hm fuel (le_of_max_le_left hfuel))).trans (hk fuel (le_of_max_le_right hfuel))

theorem bind_of_error {e : SyntaxError} (hm : Comes m' s (.error e) s₁) :
    Comes (fun fuel => m' fuel >>= k' fuel) s (.error e) s₁ := by
  obtain ⟨enough, hm⟩ := hm
  refine ⟨enough, fun fuel hfuel => ?_⟩
  show ((m' fuel s).bind fun r => ExceptT.bindCont (k' fuel) r.1 r.2) = _
  rw [hm fuel hfuel]
  rfl

/-- A call takes fuel. -/
theorem call {m₁' : Nat → IndexM α} {r : Except SyntaxError α} (hcall : ∀ fuel, m' (fuel + 1) = m₁' fuel)
    (h : Comes m₁' s r s₁) : Comes m' s r s₁ := by
  obtain ⟨enough, h⟩ := h
  refine ⟨enough + 1, fun fuel hfuel => ?_⟩
  obtain ⟨fuel, rfl⟩ := Nat.exists_eq_succ_of_ne_zero (Nat.ne_zero_of_lt hfuel)
  rw [hcall]
  exact h fuel (Nat.le_of_succ_le_succ hfuel)

end Comes

/-- With enough fuel, the machine comes to the result of a reader, and leaves the index where that leaves the cursor.
If it succeeds, then so that `P` holds. -/
inductive Agrees (P : State → α → Prop) (s : State) (m' : Nat → IndexM α) :
    EStateM.Result SyntaxError Cursor α → Prop where
  | ok {a : α} {s' : State} : s.Continues s' → P s' a → Comes m' s (.ok a) s' → Agrees P s m' (.ok a s'.cursor)
  | error {e : SyntaxError} {s' : State} :
    s.Continues s' → Comes m' s (.error e) s' → Agrees P s m' (.error e s'.cursor)

/-- Agreement carries over to a step that comes to the same results. -/
theorem Agrees.imp {R : State → α → Prop} {m' m₁' : Nat → IndexM α} {read : EStateM.Result SyntaxError Cursor α}
    (h : Agrees P s m' read) (hP : ∀ s' a, s.Continues s' → P s' a → R s' a)
    (hcomes : ∀ r s', Comes m' s r s' → Comes m₁' s r s') : Agrees R s m₁' read := by
  cases h with
  | ok hcontinues hholds hrun => exact .ok hcontinues (hP _ _ hcontinues hholds) (hcomes _ _ hrun)
  | error hcontinues hrun => exact .error hcontinues (hcomes _ _ hrun)

/-- From a sound state, a step of the machine follows a reader. -/
def Follows (P : State → α → Prop) (m : ReadM α) (m' : Nat → IndexM α) (s : State) : Prop :=
  s.Sound → Agrees P s m' (m s.cursor)

namespace Follows

variable {m : ReadM α} {m' m₁' : Nat → IndexM α} {k : α → ReadM β} {k' : Nat → α → IndexM β}

/-- Steps follow a reader one after the other. -/
theorem bind (hm : Follows P m m' s)
    (hk : ∀ a s', s.Continues s' → P s' a → Follows Q (k a) (fun fuel => k' fuel a) s') :
    Follows Q (m >>= k) (fun fuel => m' fuel >>= k' fuel) s := by
  intro hs
  have hread : (m >>= k) s.cursor = EStateM.bind m k s.cursor := rfl
  rw [hread, EStateM.bind]
  have hagrees := hm hs
  generalize m s.cursor = read at hagrees ⊢
  cases hagrees with
  | @ok a s₁ hcontinues hP hcomes =>
    have hrest := hk a s₁ hcontinues hP (hcontinues.sound hs)
    show Agrees Q s _ (k a s₁.cursor)
    generalize k a s₁.cursor = read at hrest ⊢
    cases hrest with
    | ok hcontinues' hQ hcomes' => exact .ok (hcontinues.trans hcontinues') hQ (hcomes.bind hcomes')
    | error hcontinues' hcomes' => exact .error (hcontinues.trans hcontinues') (hcomes.bind hcomes')
  | error hcontinues hcomes => exact .error hcontinues hcomes.bind_of_error

theorem imp {R : State → α → Prop} (hm : Follows P m m' s) (h : ∀ s' a, s.Continues s' → P s' a → R s' a) :
    Follows R m m' s :=
  fun hs => (hm hs).imp h fun _ _ hrun => hrun

theorem call (hcall : ∀ fuel, m' (fuel + 1) = m₁' fuel) (h : Follows P m m₁' s) : Follows P m m' s :=
  fun hs => (h hs).imp (fun _ _ _ hP => hP) fun _ _ => .call hcall

theorem ite {p : Prop} [Decidable p] {m₁ m₂ : ReadM α} {m₁' m₂' : Nat → IndexM α}
    (h₁ : p → Follows P m₁ m₁' s) (h₂ : ¬ p → Follows P m₂ m₂' s) :
    Follows P (if p then m₁ else m₂) (fun fuel => if p then m₁' fuel else m₂' fuel) s := by
  split
  · next h => exact h₁ h
  · next h => exact h₂ h

/-- Only the machine makes a choice. -/
theorem ofPos {p : Prop} [Decidable p] {m₂' : Nat → IndexM α} (hp : p) (h : Follows P m m' s) :
    Follows P m (fun fuel => if p then m' fuel else m₂' fuel) s := by
  simp only [if_pos hp]
  exact h

theorem ofNeg {p : Prop} [Decidable p] {m₁' : Nat → IndexM α} (hp : ¬ p) (h : Follows P m m' s) :
    Follows P m (fun fuel => if p then m₁' fuel else m' fuel) s := by
  simp only [if_neg hp]
  exact h

end Follows

theorem follows_pure {a : α} (h : P s a) : Follows P (pure a) (fun _ => pure a) s :=
  fun hs => .ok (.refl hs) h (.of_run rfl)

theorem follows_fail (cause : SyntaxCause) (span : Span) :
    Follows P (ReadM.fail cause span) (fun _ => fail cause span) s :=
  fun hs => .error (.refl hs) (.of_run rfl)

/-- The machine may look at something without a change, where the reader takes no step. -/
theorem Follows.look {m : ReadM α} {m' : IndexM β} {k' : Nat → β → IndexM α} {b : β}
    (hm : s.Sound → m' s = some (.ok b, s)) (h : Follows P m (fun fuel => k' fuel b) s) :
    Follows P m (fun fuel => m' >>= k' fuel) s := by
  intro hs
  have hlook : Comes (fun _ => m') s (.ok b) s := .of_run (hm hs)
  exact (h hs).imp (fun _ _ _ hP => hP) fun _ _ hrun => hlook.bind hrun

/-- A reader that only looks has no counterpart in the machine. -/
theorem Follows.lookRead {m : ReadM β} {k : β → ReadM α} {m' : Nat → IndexM α} {b : β}
    (hm : m s.cursor = .ok b s.cursor) (h : Follows P (k b) m' s) : Follows P (m >>= k) m' s := by
  intro hs
  have hread : (m >>= k) s.cursor = k b s.cursor := by
    show EStateM.bind m k s.cursor = _
    rw [EStateM.bind, hm]
  rw [hread]
  exact h hs

theorem Follows.lookPresent {m : ReadM α} {value : Option β} {k' : Nat → β → IndexM α} {b : β}
    (hvalue : value = some b) (h : Follows P m (fun fuel => k' fuel b) s) :
    Follows P m (fun fuel => present value >>= k' fuel) s :=
  .look (fun _ => by rw [hvalue]; rfl) h

/-! ## Tokens -/

theorem peek_zero (hs : s.Sound) : peek 0 s = some (.ok s.cursor.current, s) := by
  have hindex : min (s.index + 0) (s.tokens.size - 1) = s.index := by
    have hlt := hs.index_lt
    omega
  show (s.tokens[min (s.index + 0) (s.tokens.size - 1)]?).map _ = _
  rw [hindex, hs.getElem?_index]
  rfl

/-- The machine looks at the token after the current one, and not beyond the last. -/
theorem peek_one (hs : s.Sound) : peek 1 s = some (.ok s.cursor.following, s) := by
  show (s.tokens[min (s.index + 1) s.last]?).map _ = _
  rw [hs.getElem?_following]
  rfl

/-- What follows a look at the current token may depend on it. -/
theorem follows_peek {m : ReadM α} {k' : Nat → Token → IndexM α}
    (h : Follows P m (fun fuel => k' fuel s.cursor.current) s) : Follows P m (fun fuel => peek 0 >>= k' fuel) s :=
  .look (fun hs => peek_zero hs) h

theorem follows_peekNext {m : ReadM α} {k' : Nat → Token → IndexM α}
    (h : Follows P m (fun fuel => k' fuel s.cursor.following) s) : Follows P m (fun fuel => peek 1 >>= k' fuel) s :=
  .look (fun hs => peek_one hs) h

/-- A reader that starts with a look at the cursor. -/
theorem follows_get {k : Cursor → ReadM α} {m' : Nat → IndexM α} (h : Follows P (k s.cursor) m' s) :
    Follows P (get >>= k) m' s := h

/-- Both look at the current token. -/
theorem follows_current {k : Cursor → ReadM α} {k' : Nat → Token → IndexM α}
    (h : Follows P (k s.cursor) (fun fuel => k' fuel s.cursor.current) s) :
    Follows P (get >>= k) (fun fuel => peek 0 >>= k' fuel) s :=
  follows_get (follows_peek h)

/-- Moving on from a token that is not the end of the text. -/
theorem continues_movedOn (hs : s.Sound) (hcurrent : s.cursor.current.isFinish = false) :
    s.Continues s.movedOn := by
  have hlt := hs.index_lt_last hcurrent
  refine ⟨rfl, rfl, Nat.le_succ _, ?_, fun _ _ h => h, [.moved (s.index + 1)], rfl, fun header => ?_⟩
  · have hsize : s.last < s.tokens.size := Nat.sub_lt (Nat.zero_lt_of_lt hs.index_lt) Nat.one_pos
    exact Nat.lt_of_le_of_lt hlt hsize
  · exact .cons (.moved hlt) .nil

theorem rest_movedOn (hs : s.Sound) : s.movedOn.rest < s.rest :=
  Nat.sub_lt_sub_left hs.index_lt (Nat.lt_succ_self s.index)

theorem advance_of_isFinish (hs : s.Sound) (hcurrent : s.cursor.current.isFinish = true) :
    advance s = some (.ok s.cursor.current, s) := by
  rw [advance, bind_of_ok (peek_zero hs), hcurrent]
  rfl

/-- The index moves by one token, and an event says so. -/
theorem advance_of_not_isFinish (hs : s.Sound) (hcurrent : s.cursor.current.isFinish = false) :
    advance s = some (.ok s.cursor.current, s.movedOn) := by
  rw [advance, bind_of_ok (peek_zero hs), hcurrent]
  rfl

/-- Taking a token that is not the end of the text leaves fewer of them. -/
theorem follows_advance : Follows (fun s' token => token = s.cursor.current ∧
    (s.cursor.current.isFinish = false → s'.rest < s.rest)) ReadM.advance (fun _ => advance) s := by
  intro hs
  show Agrees _ s _ (.ok s.cursor.current s.cursor.next)
  cases hcurrent : s.cursor.current.isFinish with
  | true =>
    rw [Cursor.next, if_pos hcurrent]
    exact .ok (.refl hs) ⟨rfl, fun h => absurd h (by simp)⟩ (.of_run (advance_of_isFinish hs hcurrent))
  | false =>
    have hnext : s.cursor.next = s.movedOn.cursor := by
      rw [Cursor.next, if_neg (by simp [hcurrent]), cursor, cursor, List.tail_drop]
      rfl
    rw [hnext]
    exact .ok (continues_movedOn hs hcurrent) ⟨rfl, fun _ => rest_movedOn hs⟩
      (.of_run (advance_of_not_isFinish hs hcurrent))

theorem follows_take {kind : TokenKind} (hkind : s.cursor.current.kind = kind) (hne : kind ≠ .endOfInput) :
    Follows (fun s' token => token = s.cursor.current ∧ s'.rest < s.rest) ReadM.advance (fun _ => advance) s :=
  follows_advance.imp fun _ _ _ h => ⟨h.1, h.2 (decide_eq_false fun hfinish => hne (hkind.symm.trans hfinish))⟩

theorem follows_unexpected (wanted : Wanted) :
    Follows P (ReadM.unexpected wanted) (fun _ => unexpected wanted) s := by
  refine follows_current ?_
  obtain ⟨kind, span, lexeme⟩ := s.cursor.current
  cases kind <;> exact follows_fail _ _

/-- What follows a look at a mark may depend on whether it stands there. -/
theorem follows_isAt {mark : Punctuation} {m : ReadM α} {k' : Nat → Bool → IndexM α}
    (h : Follows P m (fun fuel => k' fuel (s.cursor.isAt mark)) s) :
    Follows P m (fun fuel => isAt mark >>= k' fuel) s :=
  .look (fun hs => bind_of_ok (peek_zero hs)) h

/-- Both look at a mark. -/
theorem follows_mark {mark : Punctuation} {k : Bool → ReadM α} {k' : Nat → Bool → IndexM α}
    (h : Follows P (k (s.cursor.isAt mark)) (fun fuel => k' fuel (s.cursor.isAt mark)) s) :
    Follows P (ReadM.isAt mark >>= k) (fun fuel => isAt mark >>= k' fuel) s :=
  follows_isAt h

/-- Both go on by whether a mark stands there. -/
theorem follows_ifAt {mark : Punctuation} {m₁ m₂ : ReadM α} {m₁' m₂' : Nat → IndexM α}
    (h₁ : s.cursor.current.kind = .punctuation mark → Follows P m₁ m₁' s)
    (h₂ : s.cursor.current.kind ≠ .punctuation mark → Follows P m₂ m₂' s) :
    Follows P (ReadM.isAt mark >>= fun b => if b then m₁ else m₂)
      (fun fuel => isAt mark >>= fun b => if b then m₁' fuel else m₂' fuel) s :=
  follows_mark (.ite (fun h => h₁ (of_decide_eq_true h)) fun h => h₂ fun hkind => h (decide_eq_true hkind))

theorem follows_ifAtEnd {close : BodyEnd} {m₁ m₂ : ReadM α} {m₁' m₂' : Nat → IndexM α}
    (h₁ : Follows P m₁ m₁' s) (h₂ : Follows P m₂ m₂' s) :
    Follows P (get >>= fun c => if c.isAtEnd close then m₁ else m₂)
      (fun fuel => isAtEnd close >>= fun b => if b then m₁' fuel else m₂' fuel) s :=
  .look (b := s.cursor.isAtEnd close) (fun hs => bind_of_ok (peek_zero hs)) (.ite (fun _ => h₁) fun _ => h₂)

theorem follows_expect (mark : Punctuation) :
    Follows (fun _ _ => True) (ReadM.expect mark) (fun _ => expect mark) s :=
  follows_ifAt (fun _ => follows_advance.imp fun _ _ _ _ => trivial) fun _ => follows_unexpected _

/-- A name takes a token, so a loop over names ends. -/
theorem follows_identifier : Follows (fun s' _ => s'.rest < s.rest) ReadM.identifier (fun _ => identifier) s := by
  refine follows_current ?_
  cases hkind : s.cursor.current.kind with
  | identifier name => exact (follows_take hkind (by simp)).bind fun token s₁ _ htoken => follows_pure htoken.2
  | _ => exact follows_unexpected _

/-! ### Loops over tokens -/

/-- A loop of the machine has no bound of its own; the tokens that are left are bound enough for the
reader's. -/
theorem follows_namesUpToBar {n : Nat} (hn : s.rest ≤ n) (done : Array Ident) :
    Follows (fun _ _ => True) (ReadM.namesUpToBar n done) (namesUpToBar · done) s := by
  induction n generalizing s done with
  | zero => exact fun hs => absurd hs.rest_pos (by omega)
  | succ n ih =>
    rw [ReadM.namesUpToBar]
    refine .call (fun _ => rfl) ?_
    refine follows_ifAt (fun _ => ?_) fun _ => ?_
    · exact follows_advance.bind fun _ _ _ _ => follows_pure trivial
    · exact follows_identifier.bind fun name s₁ _ hlt => ih (by omega) (done.push name)

theorem follows_variableList {n : Nat} (hn : s.rest ≤ n) :
    Follows (fun _ _ => True) (ReadM.variableList n) variableList s := by
  refine follows_ifAt (fun hbar => ?_) fun _ => follows_pure trivial
  have htake : Follows (fun _ _ => True) ReadM.advance (fun _ => expect .bar) s := by
    refine follows_isAt ?_
    rw [Cursor.isAt, decide_eq_true hbar]
    exact follows_advance.imp fun _ _ _ _ => trivial
  exact htake.bind fun _ s₁ hs₁ _ => follows_namesUpToBar (hs₁.rest_le.trans hn) #[]

theorem follows_skipDots {n : Nat} (hn : s.rest ≤ n) :
    Follows (fun _ _ => True) (ReadM.skipDots n) skipDots s := by
  induction n generalizing s with
  | zero => exact fun hs => absurd hs.rest_pos (by omega)
  | succ n ih =>
    rw [ReadM.skipDots]
    refine .call (fun _ => rfl) ?_
    refine follows_ifAt (fun hdot => ?_) fun _ => follows_pure trivial
    exact (follows_take hdot (by simp)).bind fun _ s₁ _ htoken => ih (by omega)

theorem follows_blockParams {n : Nat} (hn : s.rest ≤ n) (done : Array Ident) :
    Follows (fun _ _ => True) (ReadM.blockParams n done) (blockParams · done) s := by
  induction n generalizing s done with
  | zero => exact fun hs => absurd hs.rest_pos (by omega)
  | succ n ih =>
    rw [ReadM.blockParams]
    refine .call (fun _ => rfl) ?_
    refine follows_current ?_
    cases hkind : s.cursor.current.kind with
    | blockArgument name => exact (follows_take hkind (by simp)).bind fun token s₁ _ htoken => ih (by omega) _
    | _ => exact follows_pure trivial

/-! ## Nodes -/

/-- The machine after a node has been made. -/
def State.grown (s : State) (span : Span) : State := { s with arena := s.arena.push span }

theorem continues_grown (hs : s.Sound) (span : Span) : s.Continues (s.grown span) := by
  refine ⟨rfl, rfl, le_rfl, hs.index_lt, fun i span' hi => ?_, [], (List.append_nil _).symm, fun _ => .nil⟩
  have hlt : i < s.arena.size := (Array.getElem?_eq_some_iff.mp hi).1
  rw [grown, Array.getElem?_push, if_neg hlt.ne, hi]

/-- A new node gets the next place of the arena. -/
theorem follows_newNode (span : Span) :
    Follows (fun s' info => ∀ e : Expr, e.info = info → s'.Holds e) (ReadM.newNode span)
      (fun _ => newNode span) s := by
  intro hs
  have hcursor : (s.grown span).cursor = { s.cursor with nodes := s.cursor.nodes + 1 } := by
    simp [grown, cursor]
  have hread : ReadM.newNode span s.cursor = .ok ⟨s.arena.size, span⟩ (s.grown span).cursor := by
    rw [hcursor]
    rfl
  rw [hread]
  refine .ok (continues_grown hs span) (fun e he => ?_) (.of_run rfl)
  rw [Holds, Expr.id, Expr.span, he, grown, Array.getElem?_push, if_pos rfl]

/-- An expression has been read: tokens have been taken, and the arena knows its place. -/
def State.Reads (s s' : State) (e : Expr) : Prop := s'.rest < s.rest ∧ s'.Holds e

/-- The arena knows the place of an operand. -/
def State.HoldsOperand (s : State) : Operand → Prop
  | .expr e => s.Holds e
  | .superWord _ => True

theorem follows_spanOf {e : Expr} {m : ReadM α} {k' : Nat → Span → IndexM α} (he : s.Holds e)
    (h : Follows P m (fun fuel => k' fuel e.span) s) : Follows P m (fun fuel => spanOf e >>= k' fuel) s :=
  .look (fun _ => congrArg (Option.map _) he) h

theorem follows_finish {operand : Operand} (hoperand : s.HoldsOperand operand) :
    Follows State.Holds operand.finish (fun _ => finish operand) s := by
  cases operand with
  | expr e => exact follows_pure hoperand
  | superWord span => exact follows_fail _ _

/-- A message becomes a node of the arena, as it becomes one of the tree. -/
theorem follows_send {operand : Operand} (hoperand : s.HoldsOperand operand) (selector : Selector)
    (arguments : List Expr) (last : Span) :
    Follows State.Holds (operand.send selector arguments last) (fun _ => send operand selector arguments last) s := by
  cases operand with
  | expr e =>
    exact follows_spanOf hoperand ((follows_newNode _).bind fun info s₁ _ hinfo => follows_pure (hinfo _ rfl))
  | superWord span =>
    exact .look (fun _ => rfl) ((follows_newNode _).bind fun info s₁ _ hinfo => follows_pure (hinfo _ rfl))

theorem follows_wordInteger (value : Int) (span : Span) :
    Follows (fun _ _ => True) (ReadM.wordInteger value span) (fun _ => wordInteger value span) s :=
  .ite (fun _ => follows_pure trivial) fun _ => follows_fail _ _

theorem follows_atomAt (span : Span) (value : Atom) :
    Follows State.Holds (ReadM.newNode span >>= fun info => pure (.atom info value))
      (fun _ => newNode span >>= fun info => pure (.atom info value)) s :=
  (follows_newNode span).bind fun _ _ _ hinfo => follows_pure (hinfo _ rfl)

/-- What takes a token first and then comes to an expression, reads it. -/
theorem Follows.reads {s₁ : State} {m : ReadM Expr} {m' : Nat → IndexM Expr} (hlt : s₁.rest < s.rest)
    (h : Follows State.Holds m m' s₁) : Follows s.Reads m m' s₁ :=
  h.imp fun _ _ hcontinues hholds => ⟨hcontinues.rest_le.trans_lt hlt, hholds⟩

theorem follows_atom {kind : TokenKind} (hkind : s.cursor.current.kind = kind) (hne : kind ≠ .endOfInput)
    (value : Atom) : Follows s.Reads (ReadM.atom value) (fun _ => atom value) s :=
  (follows_take hkind hne).bind fun _ _ _ htoken => (follows_atomAt _ value).reads htoken.2

/-- An integer of the text has a negative in 64 bits. -/
theorem negated_eq (hs : s.Sound) {v : Int} (hv : s.cursor.current.kind = .integer v) : negated v = some (-v) := by
  have hgt := hs.integer_gt _ hs.current_mem v hv
  rw [negated, if_neg (by omega)]

theorem follows_negative {kind : TokenKind} (hkind : s.cursor.current.kind = kind) (hne : kind ≠ .endOfInput) :
    Follows s.Reads ReadM.negative (fun _ => negative) s := by
  refine (follows_take hkind hne).bind fun minus s₁ _ htoken => follows_current (.reads htoken.2 ?_)
  have hrest : ∀ {m : ReadM Atom} {m' : Nat → IndexM Atom} {span : Span}, Follows (fun _ _ => True) m m' s₁ →
      Follows State.Holds (do let value ← m; let _ ← ReadM.advance; return .atom (← ReadM.newNode span) value)
        (fun fuel => do let value ← m' fuel; let _ ← advance; return .atom (← newNode span) value) s₁ :=
    fun hm => hm.bind fun value _ _ _ => follows_advance.bind fun _ _ _ _ => follows_atomAt _ value
  dsimp only
  cases hnumber : s₁.cursor.current.kind with
  | integer v =>
    exact fun hs₁ => Follows.lookPresent (negated_eq hs₁ hnumber) (hrest (follows_wordInteger _ _)) hs₁
  | float bits => exact hrest (follows_pure trivial)
  | _ => exact hrest (follows_unexpected _)

/-! ## Expressions -/

theorem State.Continues.holdsOperand {s₁ : State} (h : s.Continues s₁) {operand : Operand}
    (hoperand : s.HoldsOperand operand) : s₁.HoldsOperand operand := by
  cases operand with
  | expr e => exact h.holds hoperand
  | superWord span => trivial

theorem follows_unaryMessages {n : Nat} (hn : s.rest ≤ n) (operand : Operand) (hoperand : s.HoldsOperand operand) :
    Follows State.HoldsOperand (ReadM.unaryMessages n operand) (unaryMessages · operand) s := by
  induction n generalizing s operand with
  | zero => exact fun hs => absurd hs.rest_pos (by omega)
  | succ n ih =>
    rw [ReadM.unaryMessages]
    refine .call (fun _ => rfl) ?_
    refine follows_current ?_
    cases hkind : s.cursor.current.kind with
    | identifier name =>
      refine (follows_take hkind (by simp)).bind fun token s₁ hs₁ htoken => ?_
      refine (follows_send (hs₁.holdsOperand hoperand) _ _ _).bind fun e s₂ hs₂ he => ?_
      exact ih (Nat.le_of_lt_succ (hs₂.rest_le.trans_lt (htoken.2.trans_le hn))) (.expr e) he
    | _ => exact follows_pure hoperand

section Nested

-- `inner` reads nested expressions, wherever fewer than `r` tokens are left
variable {n r : Nat} {inner : ReadM Expr} (hinner : ∀ s : State, s.rest < r → Follows s.Reads inner expression s)

include hinner

/-- The machine tells statements apart as the reader does. -/
theorem follows_statement (hr : s.rest < r) : Follows s.Reads (ReadM.statement inner) statement s := by
  refine .call (fun _ => rfl) ?_
  refine follows_get (follows_isAt (.ite (fun hcaret => ?_) fun _ =>
    follows_peekNext (.ite (fun _ => ?_) fun _ => ?_)))
  · refine (follows_take (of_decide_eq_true hcaret) (by simp)).bind fun caret s₁ _ htoken => ?_
    refine (hinner s₁ (htoken.2.trans hr)).bind fun value s₂ hs₂ hvalue => follows_spanOf hvalue.2 ?_
    exact (follows_newNode _).bind fun info s₃ hs₃ hinfo =>
      follows_pure ⟨hs₃.rest_le.trans_lt (hvalue.1.trans htoken.2), hinfo _ rfl⟩
  · refine follows_advance.bind fun token s₁ hs₁ htoken => ?_
    obtain ⟨rfl, hlt⟩ := htoken
    cases hkind : s.cursor.current.kind with
    | identifier name =>
      have hlt₁ : s₁.rest < s.rest := hlt (by rw [Token.isFinish, hkind]; rfl)
      refine follows_advance.bind fun _ s₂ hs₂ _ => (follows_newNode _).bind fun target s₃ hs₃ _ => ?_
      have hlt₃ : s₃.rest < s.rest := hs₃.rest_le.trans_lt (hs₂.rest_le.trans_lt hlt₁)
      refine (hinner s₃ (hlt₃.trans hr)).bind fun value s₄ hs₄ hvalue => follows_spanOf hvalue.2 ?_
      exact (follows_newNode _).bind fun info s₅ hs₅ hinfo =>
        follows_pure ⟨hs₅.rest_le.trans_lt (hvalue.1.trans hlt₃), hinfo _ rfl⟩
    | _ => exact follows_fail _ _
  · exact hinner s hr

/-- The machine follows the loop over statements, round by round. -/
theorem follows_statements {close : BodyEnd} {k : Nat} (hk : s.rest ≤ k) (hn : s.rest ≤ n) (hr : s.rest < r)
    (done : Array Expr) :
    Follows (fun _ _ => True) (ReadM.statements n inner close k done) (statements · close done) s := by
  induction k generalizing s done with
  | zero => exact fun hs => absurd hs.rest_pos (by omega)
  | succ k ih =>
    rw [ReadM.statements]
    refine .call (fun _ => rfl) ?_
    refine (follows_skipDots hn).bind fun _ s₁ hs₁ _ => follows_ifAtEnd (follows_pure trivial) ?_
    refine (follows_statement hinner (hs₁.rest_le.trans_lt hr)).bind fun e s₂ hs₂ he => ?_
    have hlt : s₂.rest < s.rest := he.1.trans_le hs₁.rest_le
    refine follows_ifAt (fun _ => ?_) fun _ => follows_pure trivial
    exact ih (by omega) (by omega) (by omega) (done.push e)

theorem follows_body (close : BodyEnd) (hn : s.rest ≤ n) (hr : s.rest < r) :
    Follows (fun _ _ => True) (ReadM.body n inner close) (body · close) s := by
  refine .call (fun _ => rfl) ?_
  refine (follows_variableList hn).bind fun locals s₁ hs₁ _ => ?_
  have hle := hs₁.rest_le
  refine (follows_statements hinner (hle.trans hn) (hle.trans hn) (hle.trans_lt hr) #[]).bind fun _ s₂ _ _ => ?_
  exact follows_ifAtEnd (follows_pure trivial) (follows_unexpected _)

theorem follows_block {kind : TokenKind} (hkind : s.cursor.current.kind = kind) (hne : kind ≠ .endOfInput)
    (hn : s.rest ≤ n) (hr : s.rest ≤ r) : Follows s.Reads (ReadM.block n inner) block s := by
  refine .call (fun _ => rfl) ?_
  refine (follows_take hkind hne).bind fun opening s₁ _ htoken => .reads htoken.2 ?_
  refine (follows_blockParams (htoken.2.le.trans hn) #[]).bind fun params s₂ hs₂ _ => ?_
  -- what follows the parameters is the same whether or not there is a bar
  have hrest : ∀ s₃ : State, s₂.Continues s₃ → Follows State.Holds (do
        let body ← ReadM.body n inner .bracket
        let close ← ReadM.expect .rightBracket
        let info ← ReadM.newNode (opening.span.merge close.span)
        return .block info params body.locals body.statements close.span) (fun fuel => do
        let body ← body fuel .bracket
        let close ← expect .rightBracket
        let info ← newNode (opening.span.merge close.span)
        return .block info params body.locals body.statements close.span) s₃ := by
    intro s₃ hs₃
    have hlt : s₃.rest < s.rest := (hs₃.rest_le.trans hs₂.rest_le).trans_lt htoken.2
    exact (follows_body hinner .bracket (hlt.le.trans hn) (hlt.trans_le hr)).bind fun _ _ _ _ =>
      (follows_expect _).bind fun _ _ _ _ => (follows_newNode _).bind fun _ _ _ hinfo => follows_pure (hinfo _ rfl)
  refine .ite (fun _ => follows_mark (.ite (fun _ => ?_) fun _ hs => ?_)) fun _ hs => ?_
  · exact (follows_expect _).bind fun _ s₃ hs₃ _ => hrest s₃ hs₃
  · exact hrest s₂ (.refl hs) hs
  · exact hrest s₂ (.refl hs) hs

theorem follows_elements {k : Nat} (hk : s.rest ≤ k) (hn : s.rest ≤ n) (hr : s.rest < r) (done : Array Expr) :
    Follows (fun _ _ => True) (ReadM.elements n inner k done) (elements · done) s := by
  induction k generalizing s done with
  | zero => exact fun hs => absurd hs.rest_pos (by omega)
  | succ k ih =>
    rw [ReadM.elements]
    refine .call (fun _ => rfl) ?_
    refine (follows_skipDots hn).bind fun _ s₁ hs₁ _ => follows_ifAt (fun _ => follows_pure trivial) fun _ => ?_
    refine (hinner s₁ (hs₁.rest_le.trans_lt hr)).bind fun e s₂ hs₂ he => ?_
    have hlt : s₂.rest < s.rest := he.1.trans_le hs₁.rest_le
    refine follows_mark (follows_mark (.ite (fun _ => ?_) fun _ => follows_unexpected _))
    exact ih (by omega) (by omega) (by omega) (done.push e)

theorem follows_array {kind : TokenKind} (hkind : s.cursor.current.kind = kind) (hne : kind ≠ .endOfInput)
    (hn : s.rest ≤ n) (hr : s.rest ≤ r) : Follows s.Reads (ReadM.array n inner) array s := by
  refine .call (fun _ => rfl) ?_
  refine (follows_take hkind hne).bind fun opening s₁ _ htoken => .reads htoken.2 ?_
  have hle := htoken.2.le.trans hn
  refine (follows_elements hinner hle hle (htoken.2.trans_le hr) #[]).bind fun items s₂ _ _ => ?_
  exact follows_advance.bind fun _ _ _ _ => (follows_newNode _).bind fun _ _ _ hinfo => follows_pure (hinfo _ rfl)

/-- The machine follows the reader of primary expressions, whatever the first token. -/
theorem follows_primary (hn : s.rest ≤ n) (hr : s.rest ≤ r) :
    Follows s.Reads (ReadM.primary n inner) primary s := by
  refine .call (fun _ => rfl) ?_
  refine follows_current ?_
  dsimp only
  cases hkind : s.cursor.current.kind with
  | integer v =>
    exact (follows_take hkind (by simp)).bind fun _ _ _ htoken =>
      .reads htoken.2 ((follows_wordInteger v _).bind fun value _ _ _ => follows_atomAt _ value)
  | character c =>
    exact (follows_take hkind (by simp)).bind fun _ _ _ htoken =>
      .reads htoken.2 (.ite (fun _ => follows_fail _ _) fun _ => follows_atomAt _ _)
  | identifier name =>
    exact (follows_take hkind (by simp)).bind fun _ _ _ htoken =>
      .reads htoken.2 ((follows_newNode _).bind fun _ _ _ hinfo => follows_pure (hinfo _ rfl))
  | float bits => exact follows_atom hkind (by simp) _
  | string x => exact follows_atom hkind (by simp) _
  | reserved word =>
    cases word with
    | superWord => exact follows_unexpected _
    | _ => exact follows_atom hkind (by simp) _
  | operator op => exact .ite (fun _ => follows_negative hkind (by simp)) fun _ => follows_unexpected _
  | punctuation mark =>
    cases mark with
    | leftParen =>
      refine (follows_take hkind (by simp)).bind fun _ s₁ _ htoken => .reads htoken.2 ?_
      refine (hinner s₁ (htoken.2.trans_le hr)).bind fun e s₂ _ he => ?_
      exact (follows_expect _).bind fun _ _ hs₃ _ => follows_pure (hs₃.holds he.2)
    | leftBracket => exact follows_block hinner hkind (by simp) hn hr
    | leftBrace => exact follows_array hinner hkind (by simp) hn hr
    | caret => exact follows_fail _ _
    | _ => exact follows_unexpected _
  | symbol name => exact follows_fail _ _
  | _ => exact follows_unexpected _

/-! ### Messages -/

/-- An operand takes a token, unless it fails. -/
theorem follows_unaryOperand (hn : s.rest ≤ n) (hr : s.rest ≤ r) :
    Follows (fun s' operand => s'.rest < s.rest ∧ s'.HoldsOperand operand) (ReadM.unaryOperand n inner)
      unaryOperand s := by
  refine .call (fun _ => rfl) ?_
  refine follows_current (.ite (fun hkind => ?_) fun _ => ?_)
  · refine (follows_take hkind (by simp)).bind fun token s₁ _ htoken => ?_
    refine (follows_unaryMessages (htoken.2.le.trans hn) (.superWord token.span) trivial).imp ?_
    exact fun _ _ hs₂ hoperand => ⟨hs₂.rest_le.trans_lt htoken.2, hoperand⟩
  · refine (follows_primary hinner hn hr).bind fun e s₁ _ he => ?_
    refine (follows_unaryMessages (he.1.le.trans hn) (.expr e) he.2).imp ?_
    exact fun _ _ hs₂ hoperand => ⟨hs₂.rest_le.trans_lt he.1, hoperand⟩

theorem follows_binaryMessages {k : Nat} (hk : s.rest ≤ k) (hn : s.rest ≤ n) (hr : s.rest ≤ r) {operand : Operand}
    (hoperand : s.HoldsOperand operand) :
    Follows State.HoldsOperand (ReadM.binaryMessages n inner k operand) (binaryMessages · operand) s := by
  induction k generalizing s operand with
  | zero => exact fun hs => absurd hs.rest_pos (by omega)
  | succ k ih =>
    rw [ReadM.binaryMessages]
    refine .call (fun _ => rfl) ?_
    refine follows_current (.ite (fun hoperator => ?_) fun _ => follows_pure hoperand)
    have hne : s.cursor.current.kind ≠ .endOfInput := fun hfinish => by
      rw [hfinish] at hoperator
      cases hoperator
    refine (follows_take rfl hne).bind fun op s₁ hs₁ htoken => ?_
    have hle := htoken.2.le
    refine (follows_unaryOperand hinner (hle.trans hn) (hle.trans hr)).bind fun right s₂ hs₂ hright => ?_
    refine (follows_finish hright.2).bind fun argument s₃ hs₃ hargument => follows_spanOf hargument ?_
    have hoperand₃ := hs₃.holdsOperand (hs₂.holdsOperand (hs₁.holdsOperand hoperand))
    refine (follows_send hoperand₃ _ _ _).bind fun e s₄ hs₄ he => ?_
    have hlt : s₄.rest < s.rest := (hs₄.rest_le.trans hs₃.rest_le).trans_lt (hright.1.trans htoken.2)
    exact ih (by omega) (by omega) (by omega) he

theorem follows_binaryOperand (hn : s.rest ≤ n) (hr : s.rest ≤ r) :
    Follows (fun s' operand => s'.rest < s.rest ∧ s'.HoldsOperand operand) (ReadM.binaryOperand n inner)
      binaryOperand s := by
  refine .call (fun _ => rfl) ?_
  refine (follows_unaryOperand hinner hn hr).bind fun operand s₁ hs₁ hoperand => ?_
  have hle := hoperand.1.le
  refine (follows_binaryMessages hinner (hle.trans hn) (hle.trans hn) (hle.trans hr) hoperand.2).imp ?_
  exact fun _ _ hs₂ hresult => ⟨hs₂.rest_le.trans_lt hoperand.1, hresult⟩

/-- At a keyword, the loop comes to at least one. -/
theorem follows_keywordParts {k : Nat} (hk : s.rest ≤ k) (hn : s.rest ≤ n) (hr : s.rest ≤ r)
    (parts : Array KeywordPart) (arguments : Array Expr) :
    Follows (fun _ read => parts.size ≤ read.1.length ∧
        ((∃ word, s.cursor.current.kind = .keyword word) → parts.size < read.1.length))
      (ReadM.keywordParts n inner k parts arguments) (keywordParts · parts arguments) s := by
  induction k generalizing s parts arguments with
  | zero => exact fun hs => absurd hs.rest_pos (by omega)
  | succ k ih =>
    rw [ReadM.keywordParts]
    refine .call (fun _ => rfl) ?_
    refine follows_current ?_
    cases hkind : s.cursor.current.kind with
    | keyword word =>
      refine (follows_take hkind (by simp)).bind fun token s₁ hs₁ htoken => ?_
      have hle := htoken.2.le
      refine (follows_binaryOperand hinner (hle.trans hn) (hle.trans hr)).bind fun right s₂ hs₂ hright => ?_
      refine (follows_finish hright.2).bind fun argument s₃ hs₃ hargument => follows_spanOf hargument ?_
      have hlt : s₃.rest < s.rest := hs₃.rest_le.trans_lt (hright.1.trans htoken.2)
      refine (ih (by omega) (by omega) (by omega) (parts.push _) (arguments.push argument)).imp ?_
      intro _ read _ hread
      have hsize := hread.1
      rw [Array.size_push] at hsize
      exact ⟨by omega, fun _ => hsize⟩
    | _ => exact follows_pure ⟨le_of_eq (by simp), fun hword => by simp at hword⟩

omit hinner in
theorem keywordParts_of_not_keyword {k : Nat} {c : Cursor} (hkind : ∀ word, c.current.kind ≠ .keyword word) :
    ReadM.keywordParts n inner k #[] #[] c = .ok ([], []) c :=
  ReadM.keywordParts_eq_ok_iff.mpr ⟨[], rfl, .nil (.inr hkind)⟩

/-- The machine follows the reader of expressions if it does so on fewer tokens. -/
theorem follows_expressionWith (hn : s.rest ≤ n) (hr : s.rest ≤ r) :
    Follows s.Reads (ReadM.expressionWith n inner) expression s := by
  refine .call (fun _ => rfl) ?_
  refine (follows_binaryOperand hinner hn hr).bind fun operand s₁ hs₁ hoperand => .reads hoperand.1 (follows_peek ?_)
  have hle := hs₁.rest_le
  cases hkind : s₁.cursor.current.kind with
  | keyword word =>
    have hparts := follows_keywordParts hinner (hle.trans hn) (hle.trans hn) (hle.trans hr) #[] #[]
    refine hparts.bind fun read s₂ hs₂ hread => ?_
    obtain ⟨parts, arguments⟩ := read
    have hparts : parts ≠ [] := List.ne_nil_of_length_pos (hread.2 ⟨word, hkind⟩)
    refine .lookPresent (List.head?_eq_some_head hparts) (.lookPresent (List.getLast?_eq_some_getLast hparts) ?_)
    dsimp only
    rw [List.getLast?_eq_some_getLast hparts]
    exact follows_send (hs₂.holdsOperand hoperand.2) _ _ _
  | _ =>
    refine .lookRead (keywordParts_of_not_keyword fun word hword => ?_) (follows_finish hoperand.2)
    rw [hkind] at hword
    cases hword

end Nested

/-- However many tokens and levels of nesting a reader is given, as long as it is as many as there are left, the
machine reads the same expression. -/
theorem follows_expressionAt {n depth : Nat} (hn : s.rest ≤ n) (hdepth : s.rest ≤ depth) :
    Follows s.Reads (ReadM.expressionAt n depth) expression s := by
  induction depth generalizing s with
  | zero => exact fun hs => absurd hs.rest_pos (by omega)
  | succ depth ih => exact follows_expressionWith (fun s₁ hs₁ => ih (by omega) (by omega)) hn le_rfl

theorem follows_expressionWithin {n : Nat} (hn : s.rest ≤ n) :
    Follows s.Reads (ReadM.expressionWithin n) expression s :=
  follows_expressionAt hn (hn.trans n.le_succ)

theorem follows_expression : Follows s.Reads ReadM.expression expression s := by
  intro hs
  show Agrees s.Reads s expression (ReadM.expressionWithin s.cursor.tokens.length s.cursor)
  exact follows_expressionWithin s.length_tokens_cursor.ge hs

/-- The body of a method, or the main program. -/
theorem follows_outerBody {n : Nat} (close : BodyEnd) (hn : s.rest ≤ n) :
    Follows (fun _ _ => True) (ReadM.body n (ReadM.expressionWithin n) close) (body · close) s :=
  follows_body (fun _ hlt => follows_expressionWithin (Nat.le_of_lt_succ hlt)) close hn (Nat.lt_succ_of_le hn)

/-! ## Definitions -/

theorem follows_keywordHeader {n : Nat} (hn : s.rest ≤ n) (word : Ident) (params : Array Ident) :
    Follows (fun s' _ => (∃ keyword, s.cursor.current.kind = .keyword keyword) → s'.rest < s.rest)
      (ReadM.keywordHeader n word params) (keywordHeader · word params) s := by
  induction n generalizing s word params with
  | zero => exact fun hs => absurd hs.rest_pos (by omega)
  | succ n ih =>
    rw [ReadM.keywordHeader]
    refine .call (fun _ => rfl) ?_
    refine follows_current ?_
    cases hkind : s.cursor.current.kind with
    | keyword keyword =>
      refine (follows_take hkind (by simp)).bind fun token s₁ hs₁ htoken => ?_
      refine follows_identifier.bind fun param s₂ hs₂ hlt => ?_
      exact (ih (by omega) _ _).imp fun _ _ hs₃ _ _ => hs₃.rest_le.trans_lt (hlt.trans htoken.2)
    | _ => exact follows_pure fun hkeyword => by simp at hkeyword

/-- The head of a method takes a token, so a loop over methods ends. -/
theorem follows_methodHeader {n : Nat} (hn : s.rest ≤ n) :
    Follows (fun s' _ => s'.rest < s.rest) (ReadM.methodHeader n) methodHeader s := by
  refine follows_current ?_
  dsimp only
  have hbinary : ∀ {kind : TokenKind}, s.cursor.current.kind = kind → kind ≠ .endOfInput →
      ∀ {f : Ident → Ident × List Ident}, Follows (fun s' _ => s'.rest < s.rest)
        (do let _ ← ReadM.advance; let param ← ReadM.identifier; return f param)
        (fun _ => do let _ ← advance; let param ← identifier; return f param) s := fun hkind hne f =>
    (follows_take hkind hne).bind fun _ _ _ htoken => follows_identifier.bind fun _ _ _ hlt =>
      follows_pure (hlt.trans htoken.2)
  cases hkind : s.cursor.current.kind with
  | identifier name => exact (follows_take hkind (by simp)).bind fun _ _ _ htoken => follows_pure htoken.2
  | operator op => exact hbinary hkind (by simp)
  | punctuation mark =>
    cases mark with
    | bar => exact hbinary hkind (by simp)
    | _ => exact follows_unexpected _
  | keyword word => exact (follows_keywordHeader hn _ _).imp fun _ _ _ hlt => hlt ⟨word, hkind⟩
  | _ => exact follows_unexpected _

theorem follows_methodBody {n : Nat} (hn : s.rest ≤ n) :
    Follows (fun _ _ => True) (ReadM.methodBody n) methodBody s := by
  refine follows_current ?_
  cases s.cursor.current.kind with
  | punctuation mark =>
    cases mark with
    | leftBracket =>
      refine follows_advance.bind fun _ s₁ hs₁ _ => ?_
      exact (follows_outerBody .bracket (hs₁.rest_le.trans hn)).bind fun _ _ _ _ =>
        (follows_expect _).bind fun _ _ _ _ => follows_pure trivial
    | _ => exact follows_unexpected _
  | operator op =>
    by_cases hop : op = "<"
    · subst hop
      refine follows_advance.bind fun _ s₁ _ _ => follows_current ?_
      refine .ite (fun _ => ?_) fun _ => (follows_unexpected (P := fun _ _ => False) _).bind fun _ _ _ h => h.elim
      refine follows_advance.bind fun _ s₂ _ _ => follows_current ?_
      cases s₂.cursor.current.kind with
      | symbol name =>
        refine follows_advance.bind fun _ s₃ _ _ => follows_current (.ite (fun _ => ?_) fun _ => follows_unexpected _)
        exact follows_advance.bind fun _ _ _ _ => follows_pure trivial
      | _ => exact follows_unexpected _
    · -- `simp only` takes the last case of both matches by this
      have hne : TokenKind.operator op = .operator "<" → False := fun h => hop (TokenKind.operator.inj h)
      simp only
      exact follows_unexpected _
  | _ => exact follows_unexpected _

theorem follows_method {n : Nat} (hn : s.rest ≤ n) :
    Follows (fun s' _ => s'.rest < s.rest) (ReadM.method n) method s := by
  refine follows_get (follows_peek (follows_peekNext ?_))
  dsimp only
  -- what follows is the same whether or not the method belongs to the class side
  have hrest : ∀ s₁ : State, s.Continues s₁ → ∀ f : Ident × List Ident → MethodBody × Span → MethodDef,
      Follows (fun s' _ => s'.rest < s.rest)
        (do let header ← ReadM.methodHeader n; let code ← ReadM.methodBody n; return f header code)
        (fun fuel => do let header ← methodHeader fuel; let code ← methodBody fuel; return f header code) s₁ := by
    intro s₁ hs₁ f
    refine (follows_methodHeader (hs₁.rest_le.trans hn)).bind fun header s₂ hs₂ hlt => ?_
    have hlt₂ := hlt.trans_le hs₁.rest_le
    exact (follows_methodBody (hlt₂.le.trans hn)).bind fun _ _ hs₃ _ => follows_pure (hs₃.rest_le.trans_lt hlt₂)
  refine .ite (fun _ => ?_) fun _ hs => ?_
  · exact follows_advance.bind fun _ s₁ hs₁ _ =>
      hrest s₁ hs₁ fun header code => ⟨header.1, header.2, _, code.1, _, code.2⟩
  · exact hrest s (.refl hs) (fun header code => ⟨header.1, header.2, _, code.1, _, code.2⟩) hs

/-- The machine follows the loop over methods, round by round. -/
theorem follows_methods {n k : Nat} (hk : s.rest ≤ k) (hn : s.rest ≤ n) (done : Array MethodDef) :
    Follows (fun _ _ => True) (ReadM.methods n k done) (methods · done) s := by
  induction k generalizing s done with
  | zero => exact fun hs => absurd hs.rest_pos (by omega)
  | succ k ih =>
    rw [ReadM.methods]
    refine .call (fun _ => rfl) ?_
    refine follows_current (.ite (fun _ => follows_pure trivial) fun _ => ?_)
    exact (follows_method hn).bind fun m s₁ _ hlt => ih (by omega) (by omega) (done.push m)

/-- At a token that is not the end of the text, reading a class definition takes it. -/
theorem follows_classDef {n : Nat} (hn : s.rest ≤ n) (hcurrent : s.cursor.current.kind ≠ .endOfInput) :
    Follows (fun s' _ => s'.rest < s.rest) (ReadM.classDef n) classDef s := by
  refine (follows_take rfl hcurrent).bind fun head s₁ _ hhead => follows_advance.bind fun _ s₂ hs₂ _ => ?_
  have hlt : s₂.rest < s.rest := hs₂.rest_le.trans_lt hhead.2
  refine follows_current ?_
  cases hkind : s₂.cursor.current.kind with
  | symbol name =>
    refine follows_advance.bind fun token s₃ hs₃ _ => (follows_expect _).bind fun _ s₄ hs₄ _ => ?_
    have hlt₄ : s₄.rest < s.rest := (hs₄.rest_le.trans hs₃.rest_le).trans_lt hlt
    refine (follows_variableList (hlt₄.le.trans hn)).bind fun fields s₅ hs₅ _ => ?_
    have hlt₅ : s₅.rest < s.rest := hs₅.rest_le.trans_lt hlt₄
    refine (follows_methods (hlt₅.le.trans hn) (hlt₅.le.trans hn) #[]).bind fun methods s₆ hs₆ _ => ?_
    exact (follows_expect _).bind fun _ s₇ hs₇ _ => follows_pure ((hs₇.rest_le.trans hs₆.rest_le).trans_lt hlt₅)
  | _ => exact follows_unexpected _

end Smalltalk.Indexed
