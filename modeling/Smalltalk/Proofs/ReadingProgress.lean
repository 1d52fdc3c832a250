import Mathlib
import Smalltalk.Proofs.Forest
import Smalltalk.Proofs.IndexedAgreement

/-!
# Reading comes to an end

With enough fuel, the machine comes to a result on all tokens, and to that of the readers. What could keep it going is
the loop over class definitions, for this sets the index back. But passing over a definition leads beyond its first
token, so every round starts at a later token than the one before.
-/

namespace Smalltalk.Indexed

open State

variable {s : State}

/-! ## Passing over a class definition -/

/-- Goes on at other tokens. -/
def goOn (f : List Token → List Token) : ReadM Unit := modify fun c => { c with tokens := f c.tokens }

section GoOn

variable {P : State → Unit → Prop} {f g : List Token → List Token}

/-- Going on at other tokens may begin with taking the current one. -/
theorem follows_goOn_of_take {k' : Nat → Token → IndexM Unit} (hcurrent : s.cursor.current.isFinish = false)
    (hf : ∀ rest, f (s.cursor.current :: rest) = g rest)
    (h : ∀ s₁, s.Continues s₁ → s₁.rest < s.rest → Follows P (goOn g) (fun fuel => k' fuel s.cursor.current) s₁) :
    Follows P (goOn f) (fun fuel => advance >>= k' fuel) s := by
  intro hs
  have hnext : s.cursor.next = { s.cursor with tokens := s.tokens.toList.drop (s.index + 1) } := by
    rw [Cursor.next, if_neg (by simp [hcurrent]), cursor, List.tail_drop]
  have hread : goOn f s.cursor = (ReadM.advance >>= fun _ => goOn g) s.cursor := by
    show EStateM.Result.ok () { s.cursor with tokens := f (s.tokens.toList.drop s.index) }
      = .ok () { s.cursor.next with tokens := g s.cursor.next.tokens }
    rw [hs.drop_eq, hf, hnext]
  rw [hread]
  refine (follows_advance.bind fun token s₁ hs₁ htoken => ?_) hs
  rw [htoken.1]
  exact h s₁ hs₁ (htoken.2 hcurrent)

theorem follows_goOn_of_stay {m' : Nat → IndexM Unit}
    (hf : ∀ rest, f (s.cursor.current :: rest) = s.cursor.current :: rest) (h : Follows P (pure ()) m' s) :
    Follows P (goOn f) m' s := by
  intro hs
  have hread : goOn f s.cursor = .ok () s.cursor := by
    show EStateM.Result.ok () { s.cursor with tokens := f (s.tokens.toList.drop s.index) } = _
    rw [hs.drop_eq, hf, ← hs.drop_eq]
    rfl
  rw [hread]
  exact h hs

end GoOn

/-- An opening bracket, or the end of the text. -/
def Stops (token : Token) : Prop := token.kind = .punctuation .leftBracket ∨ token.isFinish = true

/-- Tokens from the first opening bracket on, or from the end of the text. -/
def fromBracket : List Token → List Token :=
  List.dropWhile fun t => !decide (t.kind = .punctuation .leftBracket) && !t.isFinish

theorem fromBracket_of_stops {token : Token} (h : Stops token) (rest : List Token) :
    fromBracket (token :: rest) = token :: rest := by
  rcases h with h | h <;> simp [fromBracket, h]

theorem fromBracket_of_not_stops {token : Token} (h : ¬ Stops token) (rest : List Token) :
    fromBracket (token :: rest) = fromBracket rest := by
  obtain ⟨hopen, hfinish⟩ := not_or.mp h
  simp [fromBracket, hopen, hfinish]

theorem follows_skipToBracket {n : Nat} (hn : s.rest ≤ n) :
    Follows (fun s' _ => Stops s'.cursor.current ∧ (¬ Stops s.cursor.current → s'.rest < s.rest))
      (goOn fromBracket) skipToBracket s := by
  induction n generalizing s with
  | zero => exact fun hs => absurd hs.rest_pos (by omega)
  | succ n ih =>
    refine .call (fun _ => rfl) (follows_peek ?_)
    by_cases hstops : Stops s.cursor.current
    · refine .ofNeg (by rcases hstops with h | h <;> simp [h]) ?_
      exact follows_goOn_of_stay (fromBracket_of_stops hstops) (follows_pure ⟨hstops, fun h => absurd hstops h⟩)
    · obtain ⟨hopen, hfinish⟩ := not_or.mp hstops
      refine .ofPos (by simp [hopen, hfinish]) ?_
      refine follows_goOn_of_take (Bool.eq_false_iff.mpr hfinish) (fromBracket_of_not_stops hstops) fun s₁ _ hlt => ?_
      exact (ih (by omega)).imp fun s₂ _ hs₂ h => ⟨h.1, fun _ => hs₂.rest_le.trans_lt hlt⟩

/-- The count of open brackets does not become negative, because it starts with an opening one. -/
theorem follows_skipBrackets {n : Nat} (hn : s.rest ≤ n) {depth : Nat} (hdepth : depth = 0 → Stops s.cursor.current) :
    Follows (fun _ _ => True) (goOn (Cursor.afterBrackets depth)) (skipBrackets · depth) s := by
  induction n generalizing s depth with
  | zero => exact fun hs => absurd hs.rest_pos (by omega)
  | succ n ih =>
    refine .call (fun _ => rfl) ?_
    have hpos : ¬ Stops s.cursor.current → depth ≠ 0 := fun hstops hzero => hstops (hdepth hzero)
    -- any other token is taken, and no bracket is counted
    have hother : ∀ k' : Nat → Token → IndexM Unit, ¬ Stops s.cursor.current →
        (∀ fuel, k' fuel s.cursor.current = skipBrackets fuel depth) →
        (∀ rest, Cursor.afterBrackets depth (s.cursor.current :: rest) = Cursor.afterBrackets depth rest) →
        Follows (fun _ _ => True) (goOn (Cursor.afterBrackets depth)) (fun fuel => advance >>= k' fuel) s := by
      intro k' hstops hk' hafter
      refine follows_goOn_of_take (Bool.eq_false_iff.mpr (not_or.mp hstops).2) hafter fun s₁ _ hlt => ?_
      simp only [hk']
      exact ih (by omega) fun hzero => absurd hzero (hpos hstops)
    cases hkind : s.cursor.current.kind with
    | endOfInput =>
      refine follows_goOn_of_stay (fun rest => by simp only [Cursor.afterBrackets, hkind]) ?_
      refine .look (fun hs => advance_of_isFinish hs (decide_eq_true hkind)) ?_
      rw [hkind]
      exact follows_pure trivial
    | punctuation mark =>
      have hcurrent : s.cursor.current.isFinish = false := by simp [Token.isFinish, hkind]
      cases mark with
      | leftBracket =>
        refine follows_goOn_of_take (g := Cursor.afterBrackets (depth + 1)) hcurrent
          (fun rest => by simp only [Cursor.afterBrackets, hkind]) fun s₁ _ hlt => ?_
        rw [hkind]
        exact ih (by omega) fun hzero => absurd hzero (Nat.succ_ne_zero depth)
      | rightBracket =>
        obtain ⟨more, rfl⟩ := Nat.exists_eq_succ_of_ne_zero (hpos (by simp [Stops, hkind, hcurrent]))
        cases more with
        | zero =>
          refine follows_goOn_of_take (g := id) hcurrent
            (fun rest => by simp [Cursor.afterBrackets, hkind]) fun s₁ _ _ => ?_
          rw [hkind]
          refine .lookPresent (b := 0) rfl ?_
          exact follows_goOn_of_stay (fun _ => rfl) (follows_pure trivial)
        | succ more =>
          refine follows_goOn_of_take (g := Cursor.afterBrackets (more + 1)) hcurrent
            (fun rest => by simp [Cursor.afterBrackets, hkind]) fun s₁ _ hlt => ?_
          rw [hkind]
          refine .lookPresent (b := more + 1) rfl ?_
          refine .ofPos (Nat.succ_ne_zero more) ?_
          exact ih (by omega) fun hzero => absurd hzero (Nat.succ_ne_zero more)
      | _ =>
        exact hother _ (by simp [Stops, hkind, hcurrent]) (fun fuel => by simp only [hkind])
          fun rest => by simp only [Cursor.afterBrackets, hkind]
    | _ =>
      exact hother _ (by simp [Stops, hkind, Token.isFinish]) (fun fuel => by simp only [hkind])
        fun rest => by simp only [Cursor.afterBrackets, hkind]

/-- The way from the first token of a class definition to behind its last bracket. -/
theorem follows_skipBody (hstops : ¬ Stops s.cursor.current) :
    Follows (fun s' _ => s'.rest < s.rest) (modify Cursor.skipClass)
      (fun fuel => skipToBracket fuel >>= fun _ => skipBrackets fuel 0) s := by
  have hskip : Follows (fun s' _ => s'.rest < s.rest) (goOn fromBracket >>= fun _ => goOn (Cursor.afterBrackets 0))
      (fun fuel => skipToBracket fuel >>= fun _ => skipBrackets fuel 0) s :=
    (follows_skipToBracket le_rfl).bind fun _ s₁ _ h =>
      (follows_skipBrackets le_rfl fun _ => h.1).imp fun s₂ _ hs₂ _ => hs₂.rest_le.trans_lt (h.2 hstops)
  exact hskip

/-! ## Runs -/

/-- What whole definitions and texts do: they leave behind every class definition they meet. -/
structure State.Proceeds (s s' : State) : Prop where
  tokens_eq : s'.tokens = s.tokens
  index_le : s.index ≤ s'.index
  index_lt : s'.index < s.tokens.size
  size_le : s.arena.size ≤ s'.arena.size
  log_eq : ∃ events, s'.log = s.log ++ events ∧ Trail s.last ⟨s.index, none⟩ events ⟨s'.index, none⟩

namespace State

variable {s' s'' : State}

theorem Continues.size_le (h : s.Continues s') : s.arena.size ≤ s'.arena.size := by
  by_contra hlt
  have hkept := h.arena_kept s'.arena.size _ (Array.getElem?_eq_getElem (Nat.lt_of_not_le hlt))
  simp at hkept

theorem Continues.proceeds (h : s.Continues s') : s.Proceeds s' := by
  obtain ⟨events, hlog, htrail⟩ := h.log_eq
  exact ⟨h.tokens_eq, h.index_le, h.index_lt, h.size_le, events, hlog, htrail none⟩

namespace Proceeds

theorem refl (hs : s.Sound) : s.Proceeds s := (Continues.refl hs).proceeds

theorem trans (h : s.Proceeds s') (h' : s'.Proceeds s'') : s.Proceeds s'' := by
  obtain ⟨events, hlog, htrail⟩ := h.log_eq
  obtain ⟨events', hlog', htrail'⟩ := h'.log_eq
  have hlast : s'.last = s.last := by rw [last, last, h.tokens_eq]
  refine ⟨h'.tokens_eq.trans h.tokens_eq, h.index_le.trans h'.index_le, h.tokens_eq ▸ h'.index_lt,
    h.size_le.trans h'.size_le, events ++ events', ?_, htrail.append (hlast ▸ htrail')⟩
  rw [hlog', hlog, List.append_assoc]

theorem sound (h : s.Proceeds s') (hs : s.Sound) : s'.Sound := hs.of_tokens_eq h.tokens_eq h.index_lt

theorem rest_le (h : s.Proceeds s') : s'.rest ≤ s.rest := rest_le_of_index_le h.tokens_eq h.index_le

end Proceeds

end State

/-- A step that follows a reader comes to a result. -/
theorem Follows.exists_comes {α : Type} {P : State → α → Prop} {m : ReadM α} {m' : Nat → IndexM α}
    (h : Follows P m m' s) (hs : s.Sound) : ∃ s', s.Continues s' ∧
      ((∃ a, m s.cursor = .ok a s'.cursor ∧ Comes m' s (.ok a) s' ∧ P s' a) ∨
        ∃ e, m s.cursor = .error e s'.cursor ∧ Comes m' s (.error e) s') := by
  have hagrees := h hs
  generalize m s.cursor = read at hagrees ⊢
  cases hagrees with
  | ok hcontinues hP hcomes => exact ⟨_, hcontinues, .inl ⟨_, rfl, hcomes, hP⟩⟩
  | error hcontinues hcomes => exact ⟨_, hcontinues, .inr ⟨_, rfl, hcomes⟩⟩

theorem Comes.attempt {α : Type} {m' : Nat → IndexM α} {r : Except SyntaxError α} {s' : State} (h : Comes m' s r s') :
    Comes (fun fuel => attempt (m' fuel)) s (.ok r) s' := by
  obtain ⟨enough, h⟩ := h
  refine ⟨enough, fun fuel hfuel => ?_⟩
  show (m' fuel s).map _ = _
  rw [h fuel hfuel]
  rfl

/-! ## Class definitions -/

theorem isAtClass_run (hs : s.Sound) : isAtClass s = some (.ok s.cursor.isAtClass, s) := by
  rw [isAtClass, bind_of_ok (peek_zero hs), bind_of_ok (peek_one hs)]
  rfl

theorem not_stops_of_isAtClass (hclass : s.cursor.isAtClass = true) : ¬ Stops s.cursor.current := by
  rw [Cursor.isAtClass, Bool.and_eq_true] at hclass
  have hhead := hclass.1
  rw [Stops, Token.isFinish]
  generalize s.cursor.current.kind = kind at hhead ⊢
  cases kind <;> simp at hhead ⊢

section Round

variable {done : Array ClassDef} {r : Except SyntaxError (Array ClassDef)} {s₁ s₂ s' : State}

/-- A round of the loop over class definitions, with one that can be read. -/
theorem comes_classes_of_read (hs : s.Sound) (hclass : s.cursor.isAtClass = true) {c : ClassDef}
    (hread : Comes classDef (s.noted (.classMet s.index)) (.ok c) s₁)
    (h : Comes (classes · (done.push c)) (s₁.noted (.classRead s.index)) r s') : Comes (classes · done) s r s' := by
  refine .call (fun _ => rfl) (.bind (.of_run (isAtClass_run hs)) ?_)
  simp only [hclass, if_true]
  refine .bind (a := s) (.of_run rfl) (.bind (a := ()) (.of_run rfl) (.bind hread.attempt ?_))
  exact .bind (a := ()) (.of_run rfl) h

theorem comes_classes_of_refused (hs : s.Sound) (hclass : s.cursor.isAtClass = true) {e : SyntaxError}
    (hread : Comes classDef (s.noted (.classMet s.index)) (.error e) s₁)
    (hskip : Comes (fun fuel => skipToBracket fuel >>= fun _ => skipBrackets fuel 0)
      ((s₁.recorded e).setBack s.index) (.ok ()) s₂)
    (h : Comes (classes · done) (s₂.noted (.classPassed s.index)) r s') : Comes (classes · done) s r s' := by
  refine .call (fun _ => rfl) (.bind (.of_run (isAtClass_run hs)) ?_)
  simp only [hclass, if_true]
  refine .bind (a := s) (.of_run rfl) (.bind (a := ()) (.of_run rfl) (.bind hread.attempt ?_))
  have hpass : Comes (skipClass · s.index) (s₁.recorded e) (.ok ()) s₂ := .bind (a := ()) (.of_run rfl) hskip
  exact .bind (a := ()) (.of_run rfl) (.bind hpass (.bind (a := ()) (.of_run rfl) h))

end Round

theorem index_lt_of_rest_lt {s' : State} (htokens : s'.tokens = s.tokens) (h : s'.rest < s.rest) :
    s.index < s'.index := by
  rw [rest, rest, htokens] at h
  omega

theorem proceeds_of_read {s₁ : State} (hs₁ : (s.noted (.classMet s.index)).Continues s₁) (hlt : s₁.rest < s.rest) :
    s.Proceeds (s₁.noted (.classRead s.index)) := by
  obtain ⟨events, hlog, htrail⟩ := hs₁.log_eq
  have hbeyond : s.index < s₁.index := index_lt_of_rest_lt hs₁.tokens_eq hlt
  refine ⟨hs₁.tokens_eq, hs₁.index_le, hs₁.index_lt, hs₁.size_le,
    .classMet s.index :: (events ++ [.classRead s.index]), ?_, ?_⟩
  · simp [noted, hlog]
  · exact .cons .classMet ((htrail (some s.index)).append (.cons (.classRead hbeyond) .nil))

theorem proceeds_of_passed {s₁ s₂ : State} {e : SyntaxError} (hs₁ : (s.noted (.classMet s.index)).Continues s₁)
    (hs₂ : ((s₁.recorded e).setBack s.index).Continues s₂) (hlt : s₂.rest < s.rest) :
    s.Proceeds (s₂.noted (.classPassed s.index)) := by
  obtain ⟨events, hlog, htrail⟩ := hs₁.log_eq
  obtain ⟨events', hlog', htrail'⟩ := hs₂.log_eq
  have htokens₁ : s₁.tokens = s.tokens := hs₁.tokens_eq
  have htokens : s₂.tokens = s.tokens := hs₂.tokens_eq.trans htokens₁
  have hlast : ((s₁.recorded e).setBack s.index).last = s.last := congrArg (·.size - 1) htokens₁
  have hbeyond : s.index < s₂.index := index_lt_of_rest_lt htokens hlt
  refine ⟨htokens, hs₂.index_le, ?_, hs₁.size_le.trans hs₂.size_le,
    .classMet s.index :: (events ++ .setBack s.index :: (events' ++ [.classPassed s.index])), ?_, ?_⟩
  · rw [← htokens₁]
    exact hs₂.index_lt
  · simp [noted, hlog', setBack, recorded, hlog]
  · have hback := (hlast ▸ htrail' (some s.index)).append (.cons (.classPassed hbeyond) .nil)
    exact .cons .classMet ((htrail (some s.index)).append (.cons .setBack hback))

/-- A class definition that has been refused can be passed over. -/
theorem exists_passed {s₁ : State} (hs : s.Sound) (hclass : s.cursor.isAtClass = true)
    (hs₁ : (s.noted (.classMet s.index)).Continues s₁) (e : SyntaxError) :
    ∃ s₂, ((s₁.recorded e).setBack s.index).Continues s₂ ∧ s₂.rest < s.rest ∧
      s₂.cursor = { s.cursor with nodes := s₁.cursor.nodes }.skipClass ∧
      Comes (fun fuel => skipToBracket fuel >>= fun _ => skipBrackets fuel 0)
        ((s₁.recorded e).setBack s.index) (.ok ()) s₂ := by
  have hcursor : ((s₁.recorded e).setBack s.index).cursor = { s.cursor with nodes := s₁.cursor.nodes } := by
    simp [setBack, recorded, cursor, hs₁.tokens_eq, noted]
  have hback : ((s₁.recorded e).setBack s.index).Sound := hs.of_tokens_eq hs₁.tokens_eq hs.index_lt
  have hstops : ¬ Stops ((s₁.recorded e).setBack s.index).cursor.current := by
    rw [hcursor]
    exact not_stops_of_isAtClass hclass
  obtain ⟨s₂, hs₂, ⟨_, hskip, hrun, hlt⟩ | ⟨_, hskip, -⟩⟩ := (follows_skipBody hstops).exists_comes hback
  · refine ⟨s₂, hs₂, hlt.trans_eq (congrArg (·.size - s.index) hs₁.tokens_eq), ?_, hrun⟩
    rw [← hcursor]
    exact (EStateM.Result.ok.inj hskip).2.symm
  · cases hskip

/-- A round of the loop over class definitions leads to a later token. -/
theorem classes_step {n : Nat} (hs : s.Sound) (hn : s.rest ≤ n) (hclass : s.cursor.isAtClass = true)
    (done : Array ClassDef) : ∃ s' done', s.Proceeds s' ∧ s'.rest < s.rest ∧
      (∀ r s'', Comes (classes · done') s' r s'' → Comes (classes · done) s r s'') ∧
      ∀ k, readClasses n (k + 1) ⟨done, s.errors, s.cursor⟩ = readClasses n k ⟨done', s'.errors, s'.cursor⟩ := by
  have hmet : (s.noted (.classMet s.index)).Sound := hs.of_tokens_eq rfl hs.index_lt
  have hcurrent : s.cursor.current.kind ≠ .endOfInput :=
    fun h => not_stops_of_isAtClass hclass (.inr (decide_eq_true h))
  obtain ⟨s₁, hs₁, ⟨c, hc, hrun, hlt⟩ | ⟨e, he, hrun⟩⟩ :=
    (follows_classDef (s := s.noted (.classMet s.index)) hn hcurrent).exists_comes hmet
  · refine ⟨_, _, proceeds_of_read hs₁ hlt, hlt, fun _ _ => comes_classes_of_read hs hclass hrun, fun k => ?_⟩
    have hread : ReadM.classDef n s.cursor = .ok c s₁.cursor := hc
    have herrors : s₁.errors = s.errors := hs₁.errors_eq
    rw [readClasses, if_pos hclass]
    simp only [hread]
    rw [← herrors]
    rfl
  · obtain ⟨s₂, hs₂, hlt, hcursor, hskip⟩ := exists_passed hs hclass hs₁ e
    refine ⟨_, done, proceeds_of_passed hs₁ hs₂ hlt, hlt, ?_, fun k => ?_⟩
    · exact fun _ _ => comes_classes_of_refused hs hclass hrun hskip
    · have hread : ReadM.classDef n s.cursor = .error e s₁.cursor := he
      have herrors : s₂.errors = s.errors.push e := hs₂.errors_eq.trans (congrArg (·.push e) hs₁.errors_eq)
      rw [readClasses, if_pos hclass]
      simp only [hread]
      rw [← herrors, ← hcursor]
      rfl

/-- The loop over class definitions ends, and has read and refused the same ones as the reader. -/
theorem classes_run {n k : Nat} (hs : s.Sound) (hk : s.rest ≤ k) (hn : s.rest ≤ n) (done : Array ClassDef) :
    ∃ s', s.Proceeds s' ∧
      Comes (classes · done) s (.ok (readClasses n k ⟨done, s.errors, s.cursor⟩).classes) s' ∧
      s'.errors = (readClasses n k ⟨done, s.errors, s.cursor⟩).errors ∧
      s'.cursor = (readClasses n k ⟨done, s.errors, s.cursor⟩).cursor := by
  induction k generalizing s done with
  | zero => exact absurd hs.rest_pos (by omega)
  | succ k ih =>
    cases hclass : s.cursor.isAtClass with
    | true =>
      obtain ⟨s₁, done₁, hs₁, hlt, hstep, hread⟩ := classes_step hs hn hclass done
      obtain ⟨s₂, hs₂, hrun⟩ := ih (hs₁.sound hs) (by omega) (by omega) done₁
      rw [hread k]
      exact ⟨s₂, hs₁.trans hs₂, hstep _ _ hrun.1, hrun.2⟩
    | false =>
      have hread : readClasses n (k + 1) ⟨done, s.errors, s.cursor⟩ = ⟨done, s.errors, s.cursor⟩ := by
        rw [readClasses, if_neg (by simp [hclass])]
      rw [hread]
      refine ⟨s, .refl hs, .call (fun _ => rfl) (.bind (.of_run (isAtClass_run hs)) ?_), rfl, rfl⟩
      simp only [hclass]
      exact .of_run rfl

/-! ## Whole texts -/

/-- The main program ends. -/
theorem mainProgram_run {n : Nat} (hs : s.Sound) (hn : s.rest ≤ n) : ∃ s' main, s.Proceeds s' ∧
    Comes mainProgram s (.ok main) s' ∧
      (ReadM.body n (ReadM.expressionWithin n) .finish s.cursor = .ok main s'.cursor ∧ s'.errors = s.errors ∨
        ∃ e c, ReadM.body n (ReadM.expressionWithin n) .finish s.cursor = .error e c ∧
          s'.errors = s.errors.push e) := by
  obtain ⟨s₁, hs₁, ⟨main, hmain, hrun, -⟩ | ⟨e, he, hrun⟩⟩ := (follows_outerBody .finish hn).exists_comes hs
  · exact ⟨s₁, main, hs₁.proceeds, .bind hrun.attempt (.of_run rfl), .inl ⟨hmain, hs₁.errors_eq⟩⟩
  · have hproceeds := hs₁.proceeds
    refine ⟨s₁.recorded e, {}, ⟨hproceeds.tokens_eq, hproceeds.index_le, hproceeds.index_lt, hproceeds.size_le,
      hproceeds.log_eq⟩, .bind hrun.attempt (.of_run rfl), .inr ⟨e, _, he, congrArg (·.push e) hs₁.errors_eq⟩⟩

/-- A unit comes without recorded errors, and its nodes are those of the arena. If there is none, then the recorded
errors are returned, and there is at least one. -/
def State.Reports (s : State) : Except (List SyntaxError) SourceUnit → Prop
  | .ok u => s.errors = #[] ∧ u.nodeCount = s.arena.size
  | .error es => es ≠ [] ∧ es = s.errors.toList

theorem conclude_run (hs : s.Sound) (classes : Array ClassDef) (main : Body) :
    conclude classes main s = some (.ok (if s.errors.isEmpty then
        .ok ⟨classes.toList, main, s.cursor.current.span, s.arena.size⟩
      else .error s.errors.toList), s) := by
  have hget : (get : IndexM State) s = some (.ok s, s) := rfl
  rw [conclude, bind_of_ok hget]
  cases hempty : s.errors.isEmpty with
  | true =>
    simp only [if_true]
    rw [bind_of_ok (peek_zero hs)]
    rfl
  | false => rfl

theorem unit_run (hs : s.Sound) (herrors : s.errors = #[]) : ∃ s', s.Proceeds s' ∧
    Comes unit s (.ok (SourceUnit.ofCursor s.cursor)) s' ∧ s'.Reports (SourceUnit.ofCursor s.cursor) := by
  obtain ⟨s₁, hs₁, hclasses, herrors₁, hcursor₁⟩ := classes_run hs le_rfl le_rfl #[]
  obtain ⟨s₂, main, hs₂, hmain, hbody⟩ := mainProgram_run (hs₁.sound hs) hs₁.rest_le
  have hs₁₂ := hs₁.trans hs₂
  refine ⟨s₂, hs₁₂, ?_⟩
  rw [herrors] at hclasses herrors₁ hcursor₁
  rw [hcursor₁, herrors₁] at hbody
  rw [SourceUnit.ofCursor, length_tokens_cursor]
  generalize readClasses s.rest s.rest { cursor := s.cursor } = read at hclasses hbody ⊢
  have hunit : Comes unit s _ s₂ := .bind hclasses (.bind hmain (.of_run (conclude_run (hs₁₂.sound hs) _ _)))
  have hne : s₂.errors.isEmpty = false → s₂.errors.toList ≠ [] := by
    intro hempty hnil
    simp [Array.toList_eq_nil_iff.mp hnil] at hempty
  obtain ⟨hbody, herrors₂⟩ | ⟨e, c, hbody, herrors₂⟩ := hbody
  · rw [hbody]
    simp only [← herrors₂]
    refine ⟨hunit, ?_⟩
    cases hempty : s₂.errors.isEmpty with
    | true => exact ⟨Array.isEmpty_iff.mp hempty, rfl⟩
    | false => exact ⟨hne hempty, rfl⟩
  · have hempty : s₂.errors.isEmpty = false := by simp [herrors₂]
    rw [hempty] at hunit
    rw [hbody]
    simp only [← herrors₂]
    exact ⟨hunit, hne hempty, rfl⟩

/-- Reading an expression ends, and all its nodes are in the arena. -/
theorem expression_run (hs : s.Sound) : ∃ s' result, s.Continues s' ∧ Comes expression s result s' ∧
    (∀ count, readExpressions (count + 1) s.cursor
      = (result :: (readExpressions count s'.cursor).1, (readExpressions count s'.cursor).2)) ∧
    ∀ e, result = .ok e → ∀ node ∈ e.nodes, node.id < s'.arena.size := by
  obtain ⟨s', hs', ⟨e, hread, hstep, -⟩ | ⟨e, hread, hstep⟩⟩ := follows_expression.exists_comes hs
  · refine ⟨s', .ok e, hs', hstep, fun count => by simp only [readExpressions, hread], ?_⟩
    rintro _ ⟨rfl⟩ node hnode
    have hvalue : Expr.BuiltValues s.cursor.nodes s'.cursor.nodes [e] := ReadM.readsValue_expressionAt _ _ _ _ _ hread
    exact hvalue.built.id_lt (by simpa [Expr.nodesOfAll_cons] using hnode)
  · exact ⟨s', .error e, hs', hstep, fun count => by simp only [readExpressions, hread], by rintro _ ⟨⟩⟩

/-- Expressions one after the other leave the recorded errors alone. -/
theorem expressions_run (hs : s.Sound) (count : Nat) : ∃ s', s.Continues s' ∧
    Comes (expressions · count) s (.ok (readExpressions count s.cursor).1) s' ∧
    s'.cursor = (readExpressions count s.cursor).2 ∧
    ∀ e, .ok e ∈ (readExpressions count s.cursor).1 → ∀ node ∈ e.nodes, node.id < s'.arena.size := by
  induction count generalizing s with
  | zero => exact ⟨s, .refl hs, .of_run rfl, rfl, fun e he => absurd he List.not_mem_nil⟩
  | succ count ih =>
    obtain ⟨s₁, result, hs₁, hstep, hread, hnodes₁⟩ := expression_run hs
    obtain ⟨s₂, hs₂, hrun, hcursor, hnodes⟩ := ih (hs₁.sound hs)
    rw [hread]
    refine ⟨s₂, hs₁.trans hs₂, .bind hstep.attempt (.bind hrun (.of_run rfl)), hcursor, fun e he => ?_⟩
    rcases List.mem_cons.mp he with heq | he
    · exact fun node hnode => (hnodes₁ e heq.symm node hnode).trans_le hs₂.size_le
    · exact hnodes e he

/-! ## Rounds of the loop over class definitions -/

/-- The first token of a class definition that is met. -/
def Event.headerMet : Event → Option Nat
  | .classMet header => some header
  | _ => none

/-- The first tokens of the class definitions that are met, in this order. -/
def headersMet (events : List Event) : List Nat := events.filterMap Event.headerMet

/-- The first token where a further class definition can start. -/
def Place.least (p : Place) : Nat := p.header.elim p.index (· + 1)

theorem Takes.least_le {last : Nat} {event : Event} {p q : Place} (h : Takes last event p q) : p.least ≤ q.least := by
  cases h with
  | @moved index header _ =>
    cases header with
    | none => exact Nat.le_succ index
    | some header => exact le_rfl
  | classMet => exact Nat.le_succ _
  | classRead hlt => exact hlt
  | setBack => exact le_rfl
  | classPassed hlt => exact hlt

theorem Takes.headerMet_bounds {last : Nat} {event : Event} {p q : Place} (h : Takes last event p q) {header : Nat}
    (hmet : event.headerMet = some header) : p.least ≤ header ∧ header < q.least := by
  cases h with
  | classMet =>
    obtain rfl := Option.some.inj hmet
    exact ⟨le_rfl, Nat.lt_succ_self _⟩
  | _ => cases hmet

/-- Every class definition is met at a later token than those before it. -/
theorem Trail.headersMet_bounds {last : Nat} {p q : Place} {events : List Event} (h : Trail last p events q) :
    p.least ≤ q.least ∧ (∀ header ∈ headersMet events, p.least ≤ header ∧ header < q.least) ∧
      (headersMet events).Pairwise (· < ·) := by
  induction h with
  | nil => exact ⟨le_rfl, fun _ h => absurd h List.not_mem_nil, .nil⟩
  | @cons p q r event events htakes _ ih =>
    obtain ⟨hle, hbounds, hpairwise⟩ := ih
    have hstep := htakes.least_le
    have hlater : ∀ header ∈ headersMet events, p.least ≤ header ∧ header < r.least :=
      fun header hmem => ⟨hstep.trans (hbounds header hmem).1, (hbounds header hmem).2⟩
    refine ⟨hstep.trans hle, ?_⟩
    cases hmet : event.headerMet with
    | none =>
      rw [headersMet, List.filterMap_cons_none hmet]
      exact ⟨hlater, hpairwise⟩
    | some header =>
      obtain ⟨hfrom, hbelow⟩ := htakes.headerMet_bounds hmet
      rw [headersMet, List.filterMap_cons_some hmet]
      refine ⟨List.forall_mem_cons.mpr ⟨⟨hfrom, hbelow.trans_le hle⟩, hlater⟩, .cons (fun other hmem => ?_) hpairwise⟩
      exact hbelow.trans_le (hbounds other hmem).1

/-- So there are no more of them than tokens. -/
theorem Trail.length_headersMet_le {last index : Nat} {p : Place} {events : List Event}
    (h : Trail last p events ⟨index, none⟩) : (headersMet events).length ≤ index := by
  obtain ⟨-, hbounds, hpairwise⟩ := h.headersMet_bounds
  have hsubset : headersMet events ⊆ List.range index := fun header hmem => List.mem_range.mpr (hbounds header hmem).2
  have hlength := (hpairwise.nodup.subperm hsubset).length_le
  rwa [List.length_range] at hlength

/-! ## Tokens that are given -/

/-- The tokens that are read are given, apart from an end of the text that is added. -/
theorem ofTokens_spec (tokens : List Token) : ∃ front finish, Cursor.ofTokens tokens = ⟨front ++ [finish], 0⟩ ∧
    finish.isFinish = true ∧ (∀ t ∈ front ++ [finish], t ∈ tokens ∨ t.isFinish = true) ∧
    front.length ≤ tokens.length := by
  have hkept : ∀ t ∈ tokens.filter (!·.isComment), t ∈ tokens := fun t ht => (List.mem_filter.mp ht).1
  have hlength : (tokens.filter (!·.isComment)).length ≤ tokens.length := List.length_filter_le ..
  rw [Cursor.ofTokens]
  generalize tokens.filter (!·.isComment) = kept at hkept hlength ⊢
  rcases List.eq_nil_or_concat kept with rfl | ⟨front, last, rfl⟩
  · exact ⟨[], .finish {}, rfl, rfl, by simp [Token.finish, Token.isFinish], Nat.zero_le _⟩
  · simp only [List.concat_eq_append, List.getLast?_concat] at hkept hlength ⊢
    cases hfinish : last.isFinish with
    | true =>
      refine ⟨front, last, rfl, hfinish, fun t ht => .inl (hkept t ht), ?_⟩
      rw [List.length_append] at hlength
      omega
    | false =>
      refine ⟨front ++ [last], .finish last.span.stop, rfl, rfl, fun t ht => ?_, hlength⟩
      rcases List.mem_append.mp ht with ht | ht
      · exact .inl (hkept t ht)
      · exact .inr (List.mem_singleton.mp ht ▸ rfl)

theorem cursor_ofTokens (tokens : List Token) : (State.ofTokens tokens).cursor = .ofTokens tokens := by
  obtain ⟨front, finish, htokens, -⟩ := ofTokens_spec tokens
  simp [cursor, State.ofTokens, htokens]

theorem last_ofTokens_le (tokens : List Token) : (State.ofTokens tokens).last ≤ tokens.length := by
  obtain ⟨front, finish, htokens, -, -, hlength⟩ := ofTokens_spec tokens
  simpa [last, State.ofTokens, htokens] using hlength

theorem sound_ofTokens {tokens : List Token} (h : ∀ t ∈ tokens, ∀ v, t.kind = .integer v → -2 ^ 63 < v) :
    (State.ofTokens tokens).Sound := by
  obtain ⟨front, finish, htokens, hfinish, hmem, -⟩ := ofTokens_spec tokens
  refine ⟨by simp [State.ofTokens, htokens], fun token hlast => ?_, fun token htoken v hv => ?_⟩
  · simp [last, State.ofTokens, htokens] at hlast
    rwa [← hlast]
  · simp only [State.ofTokens, htokens, List.mem_toArray] at htoken
    rcases hmem token htoken with hgiven | hend
    · exact h token hgiven v hv
    · rw [Token.isFinish, hv] at hend
      simp at hend

/-- What a machine has come to after it has been set on some tokens, and has read so many expressions and then a
whole text. -/
structure Completes (tokens : List Token) (count : Nat) (s : State) : Prop where
  /-- With enough fuel, the machine comes to a result, and to that of the readers. So every loop and every nested call
  ends, and there is no access out of range and no negative count of brackets. -/
  comes : Comes (session · count) (.ofTokens tokens) (.ok ((readExpressions count (.ofTokens tokens)).1,
    SourceUnit.ofCursor (readExpressions count (.ofTokens tokens)).2)) s
  /-- The index is moved on token by token and not beyond the last one. It is only set back to where the class
  definition starts that is being read, and each definition is left behind. -/
  trail : Trail (State.ofTokens tokens).last ⟨0, none⟩ s.log ⟨s.index, none⟩
  /-- Every round of the loop over class definitions starts at a later token than the one before. -/
  headers_increase : (headersMet s.log).Pairwise (· < ·)
  /-- So there is at most one round for each token. -/
  length_headers_le : (headersMet s.log).length ≤ tokens.length
  /-- There is a unit and no recorded error, or there are errors and these are returned. -/
  reports : s.Reports (SourceUnit.ofCursor (readExpressions count (.ofTokens tokens)).2)
  /-- The nodes of expressions are in the arena. -/
  expression_nodes : ∀ e, .ok e ∈ (readExpressions count (.ofTokens tokens)).1 → ∀ node ∈ e.nodes,
    node.id < s.arena.size
  /-- The nodes of the unit are in the arena. -/
  unit_nodes : ∀ u, SourceUnit.ofCursor (readExpressions count (.ofTokens tokens)).2 = .ok u → ∀ node ∈ u.nodes,
    node.id < s.arena.size

/-- Reading always makes progress and never leaves the tokens, whatever these are, as long as each integer among
them has a negative of 64 bits. -/
theorem exists_completes (tokens : List Token) (h : ∀ t ∈ tokens, ∀ v, t.kind = .integer v → -2 ^ 63 < v)
    (count : Nat) : ∃ s, Completes tokens count s := by
  have hs := sound_ofTokens h
  obtain ⟨s₁, hs₁, hexpressions, hcursor₁, hnodes⟩ := expressions_run hs count
  obtain ⟨s₂, hs₂, hunit, hreports⟩ := unit_run (hs₁.sound hs) hs₁.errors_eq
  have hproceeds := hs₁.proceeds.trans hs₂
  rw [cursor_ofTokens] at hexpressions hcursor₁ hnodes
  rw [hcursor₁] at hunit hreports
  obtain ⟨events, hlog, htrail⟩ := hproceeds.log_eq
  have hevents : s₂.log = events := hlog
  rw [← hevents] at htrail
  have hindex : s₂.index ≤ (State.ofTokens tokens).last := Nat.le_sub_one_of_lt hproceeds.index_lt
  refine ⟨s₂, .bind hexpressions (.bind hunit (.of_run rfl)), htrail, htrail.headersMet_bounds.2.2, ?_, hreports,
    ?_, ?_⟩
  · exact htrail.length_headersMet_le.trans (hindex.trans (last_ofTokens_le tokens))
  · exact fun e he node hnode => (hnodes e he node hnode).trans_le hs₂.size_le
  · intro u hu node hnode
    rw [hu] at hreports
    rw [SourceUnit.nodes_eq_nodesOfAll] at hnode
    exact ((built_from_of_ofCursor hu).id_lt hnode).trans_eq hreports.2

/-- A parenthesis that is not closed, a class with a method without a body, another class, and a token after the end
of the text. -/
def brokenTokens : List Token := [
  ⟨.punctuation .leftParen, {}, "("⟩, ⟨.integer 1, {}, "1"⟩,
  ⟨.reserved .nilWord, {}, "nil"⟩, ⟨.keyword "subclass:", {}, "subclass:"⟩, ⟨.symbol "A", {}, "#A"⟩,
  ⟨.punctuation .leftBracket, {}, "["⟩, ⟨.identifier "m", {}, "m"⟩, ⟨.punctuation .rightBracket, {}, "]"⟩,
  ⟨.identifier "A", {}, "A"⟩, ⟨.keyword "subclass:", {}, "subclass:"⟩, ⟨.symbol "B", {}, "#B"⟩,
  ⟨.punctuation .leftBracket, {}, "["⟩, ⟨.punctuation .rightBracket, {}, "]"⟩,
  .finish {}, ⟨.error "unterminated string", {}, ""⟩]

/-- After an expression that fails, the text is refused for its method, and for this only. -/
theorem exists_completes_broken : ∃ s, Completes brokenTokens 1 s ∧ s.errors.size = 1 := by
  obtain ⟨s, hs⟩ := exists_completes brokenTokens (by simp [brokenTokens, Token.finish]) 1
  refine ⟨s, hs, ?_⟩
  have hreports := hs.reports
  have hone : ((SourceUnit.ofCursor (readExpressions 1 (.ofTokens brokenTokens)).2).map
      SourceUnit.nodeCount).mapError List.length = .error 1 := by decide +kernel
  generalize SourceUnit.ofCursor (readExpressions 1 (.ofTokens brokenTokens)).2 = result at hreports hone
  cases result with
  | ok u => cases hone
  | error es =>
    rw [← Array.length_toList, ← hreports.2]
    exact Except.error.inj hone

end Smalltalk.Indexed
