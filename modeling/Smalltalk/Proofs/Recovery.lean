import Mathlib
import Smalltalk.Proofs.Acceptance
import Smalltalk.Proofs.Lockstep

/-!
# Recovery from errors

A class that cannot be read is passed over by counting brackets, from the first one on. A class that
can be read is read by the grammar, which opens and closes brackets in pairs. Both end at the same
bracket. So the errors of a text are those of its classes, each taken by itself, and those of the main
program, in this order.
-/

namespace Smalltalk

open Grammar

namespace ReadM

/-! ## Where a class ends -/

/-- Tokens that close the `d` open brackets, the last one with the last token. -/
inductive Closes : Nat → List Token → Prop
  | nil : Closes 0 []
  | cons {t : Token} {ts : List Token} {d : Nat} (kind : t.kind ≠ .endOfInput)
    (tail : Closes (bracketsAfter t.kind (d + 1)) ts) : Closes (d + 1) (t :: ts)

/-- Tokens up to the bracket that matches their first one. -/
inductive Bracketed : List Token → Prop
  | opening {t : Token} {ts : List Token} (kind : t.kind = .punctuation .leftBracket)
    (inside : Closes 1 ts) : Bracketed (t :: ts)
  | cons {t : Token} {ts : List Token} (kind : t.kind ≠ .endOfInput)
    (bracket : t.kind ≠ .punctuation .leftBracket) (tail : Bracketed ts) : Bracketed (t :: ts)

variable {F : Parting} {d n n' k l : Nat} {s ts rest : List Token} {t : Token}

theorem afterBrackets_cons (ht : t.kind ≠ .endOfInput) :
    Cursor.afterBrackets (d + 1) (t :: ts) =
      if bracketsAfter t.kind (d + 1) = 0 then ts
      else Cursor.afterBrackets (bracketsAfter t.kind (d + 1)) ts := by
  rw [Cursor.afterBrackets]
  split
  · simp [bracketsAfter, *]
  · simp [bracketsAfter, *]
  · exact absurd ‹_› ht
  · next hleft hright _ =>
    have hdepth : bracketsAfter t.kind (d + 1) = d + 1 := by
      unfold bracketsAfter
      split
      · exact absurd ‹_› hleft
      · exact absurd ‹_› hright
      · rfl
    simp [hdepth]

theorem skipClass_cons (ht : t.kind ≠ .endOfInput) (hbracket : t.kind ≠ .punctuation .leftBracket) :
    (Cursor.mk (t :: ts) k).skipClass = (Cursor.mk ts k).skipClass := by
  simp [Cursor.skipClass, Token.isFinish, ht, hbracket]

theorem skipClass_opening (ht : t.kind = .punctuation .leftBracket) :
    (Cursor.mk (t :: ts) k).skipClass = ⟨Cursor.afterBrackets 1 ts, k⟩ := by
  simp [Cursor.skipClass, ht, Cursor.afterBrackets]

theorem skipClass_finish (ht : t.kind = .endOfInput) :
    (Cursor.mk (t :: ts) k).skipClass = ⟨t :: ts, k⟩ := by
  simp [Cursor.skipClass, Token.isFinish, ht, Cursor.afterBrackets]

namespace Closes

theorem abreast (h : Closes d s) (hplace : ∀ t ∈ s, F.place t.span.start) :
    Abreast F d s.length (s ++ F.left) (s ++ F.right) := by
  induction h with
  | nil => exact .closed
  | cons kind _ ih =>
    obtain ⟨ht, hts⟩ := List.forall_mem_cons.mp hplace
    exact .token kind ht (ih hts)

theorem afterBrackets (h : Closes d s) (hd : 0 < d) :
    Cursor.afterBrackets d (s ++ rest) = rest := by
  induction h with
  | nil => exact absurd hd (Nat.lt_irrefl 0)
  | cons kind tail ih =>
    rw [List.cons_append, afterBrackets_cons kind]
    split
    · next hzero =>
      rw [hzero] at tail
      cases tail
      rfl
    · next hpos => exact ih (Nat.pos_of_ne_zero hpos)

theorem ne_finish (h : Closes d s) : ∀ t ∈ s, t.kind ≠ .endOfInput := by
  induction h with
  | nil => simp
  | cons kind _ ih => exact List.forall_mem_cons.mpr ⟨kind, ih⟩

end Closes

namespace Bracketed

theorem beforeBracket (h : Bracketed s) (hplace : ∀ t ∈ s, F.place t.span.start) :
    BeforeBracket F s.length (s ++ F.left) (s ++ F.right) := by
  induction h with
  | opening kind inside =>
    obtain ⟨ht, hts⟩ := List.forall_mem_cons.mp hplace
    exact .opening kind ht (inside.abreast hts)
  | cons kind bracket _ ih =>
    obtain ⟨ht, hts⟩ := List.forall_mem_cons.mp hplace
    exact .token kind bracket ht (ih hts)

theorem skipClass (h : Bracketed s) : (Cursor.mk (s ++ rest) k).skipClass = ⟨rest, k⟩ := by
  induction h with
  | opening kind inside =>
    rw [List.cons_append, skipClass_opening kind, inside.afterBrackets Nat.one_pos]
  | cons kind bracket _ ih => rw [List.cons_append, skipClass_cons kind bracket, ih]

theorem ne_finish (h : Bracketed s) : ∀ t ∈ s, t.kind ≠ .endOfInput := by
  induction h with
  | opening kind inside => exact List.forall_mem_cons.mpr ⟨by simp [kind], inside.ne_finish⟩
  | cons kind _ _ ih => exact List.forall_mem_cons.mpr ⟨kind, ih⟩

end Bracketed

/-- Open brackets are closed, or the text ends before that. -/
theorem closes_or_abreast (hfinish : ∃ t ∈ ts, t.kind = .endOfInput) (d : Nat) :
    (∃ s rest, ts = s ++ rest ∧ Closes (d + 1) s) ∨
    headKind (Cursor.afterBrackets (d + 1) ts) = .endOfInput ∧
      ∀ F : Parting, (∀ t ∈ ts, F.place t.span.start) → Abreast F (d + 1) ts.length ts ts := by
  induction ts generalizing d with
  | nil => simp at hfinish
  | cons t ts ih =>
    by_cases ht : t.kind = .endOfInput
    · refine .inr ⟨?_, fun F hplace => .finish ht (hplace t List.mem_cons_self)⟩
      simp [Cursor.afterBrackets, ht]
    · have hts : ∃ t ∈ ts, t.kind = .endOfInput := by simpa [ht] using hfinish
      rcases hdepth : bracketsAfter t.kind (d + 1) with _ | d'
      · refine .inl ⟨[t], ts, rfl, .cons ht ?_⟩
        rw [hdepth]
        exact .nil
      · rcases ih hts d' with ⟨s, rest, rfl, hs⟩ | ⟨hhead, habreast⟩
        · exact .inl ⟨t :: s, rest, rfl, .cons ht (hdepth ▸ hs)⟩
        · refine .inr ⟨?_, fun F hplace => ?_⟩
          · rw [afterBrackets_cons ht, hdepth, if_neg (Nat.succ_ne_zero d')]
            exact hhead
          · obtain ⟨hplace, hplaces⟩ := List.forall_mem_cons.mp hplace
            exact .token ht hplace (hdepth ▸ habreast F hplaces)

/-- The first bracket is matched, or the text ends before that. -/
theorem bracketed_or_beforeBracket (hfinish : ∃ t ∈ ts, t.kind = .endOfInput) (k : Nat) :
    (∃ s rest, ts = s ++ rest ∧ Bracketed s) ∨
    headKind (Cursor.mk ts k).skipClass.tokens = .endOfInput ∧
      ∀ F : Parting, (∀ t ∈ ts, F.place t.span.start) → BeforeBracket F ts.length ts ts := by
  induction ts with
  | nil => simp at hfinish
  | cons t ts ih =>
    by_cases ht : t.kind = .endOfInput
    · refine .inr ⟨?_, fun F hplace => .finish ht (hplace t List.mem_cons_self)⟩
      rw [skipClass_finish ht]
      exact ht
    · have hts : ∃ t ∈ ts, t.kind = .endOfInput := by simpa [ht] using hfinish
      by_cases hbracket : t.kind = .punctuation .leftBracket
      · rcases closes_or_abreast hts 0 with ⟨s, rest, rfl, hs⟩ | ⟨hhead, habreast⟩
        · exact .inl ⟨t :: s, rest, rfl, .opening hbracket hs⟩
        · refine .inr ⟨by rw [skipClass_opening hbracket]; exact hhead, fun F hplace => ?_⟩
          obtain ⟨hplace, hplaces⟩ := List.forall_mem_cons.mp hplace
          exact .opening hbracket hplace (habreast F hplaces)
      · rcases ih hts with ⟨s, rest, rfl, hs⟩ | ⟨hhead, hbefore⟩
        · exact .inl ⟨t :: s, rest, rfl, .cons ht hbracket hs⟩
        · refine .inr ⟨by rw [skipClass_cons ht hbracket]; exact hhead, fun F hplace => ?_⟩
          obtain ⟨hplace, hplaces⟩ := List.forall_mem_cons.mp hplace
          exact .token ht hbracket hplace (hbefore F hplaces)

/-! ## The errors of a class and of a main program -/

section Errors

variable {α β : Type} {R : α → β → Prop} {j : Nat} {c c' : Cursor}

/-- The error of a step, if it fails. -/
def errorsIn : EStateM.Result SyntaxError Cursor α → List SyntaxError
  | .ok _ _ => []
  | .error e _ => [e]

theorem length_errorsIn_le (r : EStateM.Result SyntaxError Cursor α) : (errorsIn r).length ≤ 1 := by
  cases r <;> simp [errorsIn]

theorem Parting.errorsIn_eq {m : ReadM α} {m' : ReadM β} (h : F.pairing.Paired d j R m c m' c') :
    errorsIn (m c) = errorsIn (m' c') := by
  unfold Pairing.Paired at h
  generalize m c = r, m' c' = r' at h ⊢
  cases h with
  | ok _ _ => rfl
  | @error e e' _ _ errors _ =>
    obtain ⟨hcause, hspan, -⟩ := errors
    obtain ⟨cause, span⟩ := e
    obtain rfl : e' = ⟨cause, span⟩ := congr (congrArg SyntaxError.mk hcause) hspan
    rfl

theorem Parting.place_errorsIn {m : ReadM α} {m' : ReadM β} (h : F.pairing.Paired d j R m c m' c') :
    ∀ e ∈ errorsIn (m c), F.place e.span.start := by
  unfold Pairing.Paired at h
  generalize m c = r, m' c' = r' at h ⊢
  cases h with
  | ok _ _ => simp [errorsIn]
  | error errors _ => simpa [errorsIn] using errors.span.2

/-- The tokens of a text stand at these places. -/
def standsIn (ts : List Token) (p : Position) : Prop := ∃ t ∈ ts, t.span.start = p

theorem standsIn_of_mem (ht : t ∈ ts) : standsIn ts t.span.start := ⟨t, ht, rfl⟩

/-- What follows a class does not matter to it. -/
theorem paired_classDef_of_bracketed (h : Bracketed s) (rest rest' : List Token)
    (hclass : StartsClass (s ++ rest)) (hn : s.length ≤ min n n') (k l : Nat) :
    let P := (Parting.mk rest rest' (standsIn s)).pairing
    P.Paired 0 s.length P.Classes (classDef n) ⟨s ++ rest, k⟩ (classDef n') ⟨s ++ rest', l⟩ := by
  intro P
  have hheads : P.heads s.length ⟨s ++ rest, k⟩ ⟨s ++ rest', l⟩ :=
    h.beforeBracket (F := ⟨rest, rest', standsIn s⟩) fun _ => standsIn_of_mem
  exact Pairing.paired_classDef hheads (Cursor.isAtClass_iff.mpr hclass) hn

theorem tokens_of_classDef_of_bracketed (h : Bracketed s) (hclass : StartsClass (s ++ rest))
    (hn : s.length ≤ n) {d : ClassDef} (hok : classDef n ⟨s ++ rest, k⟩ = .ok d c) :
    c.tokens = rest := by
  have hpaired := paired_classDef_of_bracketed h rest rest hclass (Nat.le_min.mpr ⟨hn, hn⟩) k k
  rw [Pairing.Paired, hok] at hpaired
  cases hpaired with
  | ok _ cursors => exact (Abreast.eq_of_closed cursors).1

/-- A class that is not closed cannot be read: what would follow it is open. -/
theorem classDef_eq_error (hclass : StartsClass ts) (hn : ts.length ≤ n)
    (h : ∀ F : Parting, (∀ t ∈ ts, F.place t.span.start) → BeforeBracket F ts.length ts ts) (k : Nat) :
    ∃ e c, classDef n ⟨ts, k⟩ = .error e c ∧ standsIn ts e.span.start := by
  let F : Parting := ⟨[], [.finish {}], standsIn ts⟩
  have hheads : F.pairing.heads ts.length ⟨ts, k⟩ ⟨ts, k⟩ := h F fun _ => standsIn_of_mem
  have hpaired := Pairing.paired_classDef hheads (Cursor.isAtClass_iff.mpr hclass) (Nat.le_min.mpr ⟨hn, hn⟩)
  unfold Pairing.Paired at hpaired
  cases hread : classDef n ⟨ts, k⟩ with
  | ok d c =>
    rw [hread] at hpaired
    cases hpaired with
    | ok _ cursors =>
      -- the text would have to go on in two ways
      obtain ⟨hleft, hright⟩ := Abreast.eq_of_closed cursors
      cases hleft.symm.trans hright
  | error e c =>
    rw [hread] at hpaired
    cases hpaired with
    | error errors _ => exact ⟨e, c, rfl, errors.span.2⟩

/-- A class that can be read ends where it would be passed over to. -/
theorem tokens_of_classDef {c c' : Cursor} {d : ClassDef} (hclass : StartsClass c.tokens)
    (hfinish : ∃ t ∈ c.tokens, t.kind = .endOfInput) (hn : c.tokens.length ≤ n)
    (hok : classDef n c = .ok d c') : c'.tokens = c.skipClass.tokens := by
  obtain ⟨ts, k⟩ := c
  rcases bracketed_or_beforeBracket hfinish k with ⟨s, rest, rfl, hs⟩ | ⟨-, hbefore⟩
  · rw [hs.skipClass]
    have hlength : s.length ≤ (s ++ rest).length := by simp
    exact tokens_of_classDef_of_bracketed hs hclass (hlength.trans hn) hok
  · obtain ⟨e, c, herror, -⟩ := classDef_eq_error hclass hn hbefore k
    rw [hok] at herror
    cases herror

/-- With more open brackets than tokens, a text ends before they are closed. -/
theorem abreast_self (hfinish : ∃ t ∈ ts, t.kind = .endOfInput) (hd : ts.length < d)
    (hplace : ∀ t ∈ ts, F.place t.span.start) : Abreast F d ts.length ts ts := by
  induction ts generalizing d with
  | nil => simp at hfinish
  | cons t ts ih =>
    obtain ⟨d, rfl⟩ := Nat.exists_eq_succ_of_ne_zero (Nat.ne_of_gt (Nat.zero_lt_of_lt hd))
    obtain ⟨ht, hts⟩ := List.forall_mem_cons.mp hplace
    by_cases hkind : t.kind = .endOfInput
    · exact .finish hkind ht
    · refine .token hkind ht (ih (by simpa [hkind] using hfinish) ?_ hts)
      have hdepth : d ≤ bracketsAfter t.kind (d + 1) := by
        unfold bracketsAfter
        split <;> omega
      rw [List.length_cons] at hd
      omega

/-- How the main program is read depends on its own tokens only. -/
theorem paired_body_finish (hfinish : ∃ t ∈ ts, t.kind = .endOfInput) (hn : ts.length ≤ min n n') (k l : Nat) :
    let P := (Parting.mk [] [] (standsIn ts)).pairing
    ∃ d, P.Paired d ts.length P.Bodies (body n (expressionWithin n) .finish) ⟨ts, k⟩
      (body n' (expressionWithin n') .finish) ⟨ts, l⟩ := by
  intro P
  have hcursors : P.cursors (ts.length + 1 + 1) ts.length ⟨ts, k⟩ ⟨ts, l⟩ :=
    abreast_self (F := ⟨[], [], standsIn ts⟩) hfinish (by omega) fun _ => standsIn_of_mem
  exact ⟨_, Pairing.paired_body (Pairing.nested_expressionWithin n n') hcursors (.inr (Nat.succ_pos _)) hn hn⟩

/-- At the end of the text there is nothing to read. -/
theorem errorsIn_body_of_finish {c : Cursor} {inner : ReadM Expr} (h : headKind c.tokens = .endOfInput) :
    errorsIn (body n inner .finish c) = [] := by
  have hend : c.isAtEnd .finish = true := decide_eq_true h
  have hno (mark : Punctuation) : c.isAt mark = false := Cursor.isAt_eq_false rfl (by simp [h])
  have hdots : DotsPassed n c c := .stop (.inr (hno .dot))
  have hstatements : StatementsRead n inner .finish n c [] c := by
    cases n with
    | zero => exact .out
    | succ n => exact .finish hdots hend
  rw [body_eq_ok_iff.mpr (.mk (.none (hno .bar)) hstatements hend)]
  rfl

end Errors

end ReadM

/-! ## The errors of a text -/

open ReadM

/-- The errors that are reported for some tokens. -/
def syntaxErrors (ts : List Token) : List SyntaxError :=
  match SourceUnit.ofTokens ts with
  | .ok _ => []
  | .error errors => errors

theorem syntaxErrors_eq {ts : List Token} {c : Cursor} (h : Cursor.ofTokens ts = c) :
    syntaxErrors ts =
      (readClasses c.tokens.length c.tokens.length { cursor := c }).errors.toList ++
        errorsIn (body c.tokens.length (expressionWithin c.tokens.length) .finish
          (readClasses c.tokens.length c.tokens.length { cursor := c }).cursor) := by
  subst h
  rw [syntaxErrors, SourceUnit.ofTokens, SourceUnit.ofCursor]
  generalize (Cursor.ofTokens ts).tokens.length = n
  generalize readClasses n n { cursor := Cursor.ofTokens ts } = read
  cases body n (expressionWithin n) .finish read.cursor with
  | ok main cursor =>
    by_cases hempty : read.errors.isEmpty = true
    · simp [errorsIn, Array.isEmpty_iff.mp hempty]
    · simp [hempty, errorsIn]
  | error e cursor => simp [errorsIn]

section Segments

variable {n k : Nat} {s main rest : List Token} {c : Cursor} {r : ClassesRead}

/-- One class is read or passed over; either way reading goes on after it. -/
theorem readClasses_of_bracketed (htokens : r.cursor.tokens = s ++ rest) (hs : Bracketed s)
    (hclass : StartsClass (s ++ rest)) (hn : s.length ≤ n) (k : Nat) :
    ∃ r' : ClassesRead, readClasses n (k + 1) r = readClasses n k r' ∧
      r'.errors.toList = r.errors.toList ++ errorsIn (classDef n r.cursor) ∧ r'.cursor.tokens = rest := by
  obtain ⟨classes, errors, ⟨tokens, nodes⟩⟩ := r
  obtain rfl : tokens = s ++ rest := htokens
  rw [readClasses, if_pos (Cursor.isAtClass_iff.mpr hclass)]
  cases hread : classDef n ⟨s ++ rest, nodes⟩ with
  | ok d c =>
    refine ⟨_, rfl, by simp [errorsIn], ?_⟩
    exact tokens_of_classDef_of_bracketed hs hclass hn hread
  | error e c => exact ⟨_, rfl, by simp [errorsIn], by simp [hs.skipClass]⟩

/-- The error of a class by itself. -/
def classErrors (s : List Token) : List SyntaxError := errorsIn (classDef s.length ⟨s, 0⟩)

theorem classErrors_eq (htokens : c.tokens = s ++ rest) (hs : Bracketed s)
    (hclass : StartsClass (s ++ rest)) (hn : s.length ≤ n) :
    errorsIn (classDef n c) = classErrors s := by
  obtain ⟨tokens, nodes⟩ := c
  obtain rfl : tokens = s ++ rest := htokens
  have hpaired := paired_classDef_of_bracketed hs rest [] hclass (Nat.le_min.mpr ⟨hn, le_rfl⟩) nodes 0
  rw [List.append_nil] at hpaired
  exact Parting.errorsIn_eq hpaired

theorem Grammar.StartsClass.append (h : StartsClass s) (rest : List Token) : StartsClass (s ++ rest) := by
  obtain ⟨t, t', ts, rfl, hkind⟩ := h
  exact ⟨t, t', ts ++ rest, rfl, hkind⟩

theorem readClasses_flatten {segments : List (List Token)}
    (htokens : r.cursor.tokens = segments.flatten ++ main)
    (hs : ∀ s ∈ segments, StartsClass s ∧ Bracketed s) (hmain : ¬ StartsClass main)
    (hn : segments.flatten.length ≤ n) (hk : segments.length ≤ k) :
    (readClasses n k r).errors.toList = r.errors.toList ++ segments.flatMap classErrors ∧
      (readClasses n k r).cursor.tokens = main := by
  induction segments generalizing k r with
  | nil =>
    have hrest : r.cursor.tokens = main := htokens
    rw [readClasses_of_not_startsClass (hrest ▸ hmain)]
    exact ⟨by simp, hrest⟩
  | cons s segments ih =>
    obtain ⟨⟨hclass, hbracketed⟩, hsegments⟩ := List.forall_mem_cons.mp hs
    obtain ⟨k, rfl⟩ := Nat.exists_eq_succ_of_ne_zero (Nat.ne_of_gt (Nat.zero_lt_of_lt hk))
    rw [List.flatten_cons, List.length_append] at hn
    rw [List.flatten_cons, List.append_assoc] at htokens
    have hclass := hclass.append (segments.flatten ++ main)
    have hlength : s.length ≤ n := by omega
    obtain ⟨r', hstep, herrors, htokens'⟩ := readClasses_of_bracketed htokens hbracketed hclass hlength k
    rw [classErrors_eq htokens hbracketed hclass hlength] at herrors
    obtain ⟨hrest, hmain⟩ := ih htokens' hsegments (by omega) (Nat.le_of_succ_le_succ hk)
    rw [hstep]
    exact ⟨by rw [hrest, herrors, List.flatMap_cons, List.append_assoc], hmain⟩

/-- The error of a main program by itself. -/
def mainErrors (ts : List Token) : List SyntaxError :=
  errorsIn (body ts.length (expressionWithin ts.length) .finish ⟨ts, 0⟩)

theorem mainErrors_eq (hfinish : ∃ t ∈ c.tokens, t.kind = .endOfInput) (hn : c.tokens.length ≤ n) :
    errorsIn (body n (expressionWithin n) .finish c) = mainErrors c.tokens := by
  obtain ⟨d, hpaired⟩ := paired_body_finish hfinish (Nat.le_min.mpr ⟨hn, le_rfl⟩) c.nodes 0
  exact Parting.errorsIn_eq hpaired

/-- Tokens without comments up to the end of the text, which no class definition starts. -/
structure IsMainText (ts : List Token) : Prop where
  finish : ∃ before finish, ts = before ++ [finish] ∧ finish.kind = .endOfInput ∧
    ∀ t ∈ before, t.isComment = false ∧ t.kind ≠ .endOfInput
  noClass : ¬ StartsClass ts

theorem syntaxErrors_of_bracketed {segments : List (List Token)}
    (hs : ∀ s ∈ segments, StartsClass s ∧ Bracketed s)
    (hplain : ∀ s ∈ segments, ∀ t ∈ s, t.isComment = false) (hmain : IsMainText main) :
    syntaxErrors (segments.flatten ++ main) = segments.flatMap classErrors ++ mainErrors main := by
  obtain ⟨before, finish, hsplit, hkind, hbefore⟩ := hmain.finish
  have hfinish : ∃ t ∈ main, t.kind = .endOfInput := ⟨finish, by simp [hsplit], hkind⟩
  have htokens : Cursor.ofTokens (segments.flatten ++ main) = ⟨segments.flatten ++ main, 0⟩ := by
    rw [hsplit, ← List.append_assoc]
    refine Cursor.ofTokens_append_finish hkind fun t ht => ?_
    rcases List.mem_append.mp ht with ht | ht
    · obtain ⟨s, hs, ht⟩ := List.mem_flatten.mp ht
      exact hplain s hs t ht
    · exact (hbefore t ht).1
  have hlength : segments.length ≤ segments.flatten.length := by
    rw [List.length_flatten, ← List.length_map (f := List.length)]
    refine List.length_le_sum_of_one_le _ fun i hi => ?_
    obtain ⟨s, hmem, rfl⟩ := List.mem_map.mp hi
    obtain ⟨t, t', ts, rfl, -⟩ := (hs s hmem).1
    simp
  have hle : segments.flatten.length ≤ (segments.flatten ++ main).length := by simp
  obtain ⟨herrors, hrest⟩ :=
    readClasses_flatten (r := { cursor := ⟨segments.flatten ++ main, 0⟩ }) rfl hs hmain.noClass hle
      (hlength.trans hle)
  rw [syntaxErrors_eq htokens, herrors, mainErrors_eq, hrest]
  · rfl
  · rw [hrest]
    exact hfinish
  · rw [hrest]
    simp

/-- How many more brackets some tokens open than they close. -/
def bracketBalance (ts : List Token) : Int :=
  ts.countP (·.kind = .punctuation .leftBracket) - ts.countP (·.kind = .punctuation .rightBracket)

/-- The tokens from the first opening bracket on. -/
def fromBracket (ts : List Token) : List Token := ts.dropWhile (·.kind ≠ .punctuation .leftBracket)

/-- The tokens of a class definition, right or wrong: they start as one does, and end at the bracket
that matches the first one. -/
@[mk_iff]
structure IsClassText (s : List Token) : Prop where
  header : StartsClass s
  plain : ∀ t ∈ s, t.isComment = false ∧ t.kind ≠ .endOfInput
  opened : fromBracket s ≠ []
  closed : bracketBalance (fromBracket s) = 0
  notBefore : ∀ k < (fromBracket s).length, 0 < k → 0 < bracketBalance ((fromBracket s).take k)

theorem bracketsAfter_succ (kind : TokenKind) (d : Nat) :
    bracketsAfter kind (d + 1) = bracketsAfter kind 1 + d := by
  unfold bracketsAfter
  split <;> omega

theorem bracketBalance_cons (t : Token) (ts : List Token) :
    bracketBalance (t :: ts) = bracketsAfter t.kind 1 - 1 + bracketBalance ts := by
  unfold bracketBalance bracketsAfter
  split
  · simp [*]
    omega
  · simp [*]
    omega
  · next hleft hright =>
    rw [List.countP_cons_of_neg (by simpa using hleft), List.countP_cons_of_neg (by simpa using hright)]
    simp

theorem closes_of_bracketBalance {ts : List Token} {d : Nat} (hplain : ∀ t ∈ ts, t.kind ≠ .endOfInput)
    (hclosed : bracketBalance ts = -d) (hbefore : ∀ k < ts.length, -d < bracketBalance (ts.take k)) :
    Closes d ts := by
  induction ts generalizing d with
  | nil =>
    obtain rfl : d = 0 := by simpa [bracketBalance] using hclosed
    exact .nil
  | cons t ts ih =>
    have hd : (-d : Int) < 0 := by simpa [bracketBalance] using hbefore 0 (Nat.succ_pos _)
    obtain ⟨d, rfl⟩ := Nat.exists_eq_succ_of_ne_zero (by omega : d ≠ 0)
    obtain ⟨ht, hts⟩ := List.forall_mem_cons.mp hplain
    have hdepth := bracketsAfter_succ t.kind d
    refine .cons ht (ih hts ?_ fun k hk => ?_)
    · rw [bracketBalance_cons] at hclosed
      omega
    · have hprefix := hbefore (k + 1) (Nat.succ_lt_succ hk)
      rw [List.take_succ_cons, bracketBalance_cons] at hprefix
      omega

theorem bracketed_of_bracketBalance (hplain : ∀ t ∈ s, t.kind ≠ .endOfInput)
    (hopened : fromBracket s ≠ []) (hclosed : bracketBalance (fromBracket s) = 0)
    (hbefore : ∀ k < (fromBracket s).length, 0 < k → 0 < bracketBalance ((fromBracket s).take k)) :
    Bracketed s := by
  induction s with
  | nil => exact absurd rfl hopened
  | cons t ts ih =>
    obtain ⟨ht, hts⟩ := List.forall_mem_cons.mp hplain
    by_cases hbracket : t.kind = .punctuation .leftBracket
    · have hfrom : fromBracket (t :: ts) = t :: ts := by simp [fromBracket, hbracket]
      have hdepth : bracketsAfter t.kind 1 = 2 := by rw [hbracket]; rfl
      rw [hfrom] at hclosed hbefore
      refine .opening hbracket (closes_of_bracketBalance hts ?_ fun k hk => ?_)
      · rw [bracketBalance_cons] at hclosed
        omega
      · have hprefix := hbefore (k + 1) (Nat.succ_lt_succ hk) (Nat.succ_pos k)
        rw [List.take_succ_cons, bracketBalance_cons] at hprefix
        omega
    · have hfrom : fromBracket (t :: ts) = fromBracket ts := by simp [fromBracket, hbracket]
      rw [hfrom] at hopened hclosed hbefore
      exact .cons ht hbracket (ih hts hopened hclosed hbefore)

instance : DecidablePred StartsClass := fun ts =>
  decidable_of_iff _ (Cursor.isAtClass_iff (c := ⟨ts, 0⟩))

instance : DecidablePred IsClassText := fun s => decidable_of_iff _ (isClassText_iff s).symm

theorem IsClassText.bracketed (h : IsClassText s) : Bracketed s :=
  bracketed_of_bracketBalance (fun t ht => (h.plain t ht).2) h.opened h.closed h.notBefore

theorem syntaxErrors_flatten_append (segments : List (List Token)) (hs : ∀ s ∈ segments, IsClassText s)
    (hmain : IsMainText main) :
    syntaxErrors (segments.flatten ++ main) = segments.flatMap classErrors ++ mainErrors main :=
  syntaxErrors_of_bracketed (fun s h => ⟨(hs s h).header, (hs s h).bracketed⟩)
    (fun s h t ht => ((hs s h).plain t ht).1) hmain

theorem isMainText_finish {finish : Token} (h : finish.kind = .endOfInput) : IsMainText [finish] where
  finish := ⟨[], finish, rfl, h, by simp⟩
  noClass := by
    rintro ⟨t, t', rest, hcons, -⟩
    cases hcons

theorem syntaxErrors_append_finish (hs : IsClassText s) {finish : Token}
    (h : finish.kind = .endOfInput) : syntaxErrors (s ++ [finish]) = classErrors s := by
  have hall := syntaxErrors_flatten_append [s] (by simpa using hs) (isMainText_finish h)
  have hmain : mainErrors [finish] = [] := errorsIn_body_of_finish (c := ⟨[finish], 0⟩) h
  simpa [hmain] using hall

theorem syntaxErrors_main (hmain : IsMainText main) : syntaxErrors main = mainErrors main :=
  syntaxErrors_flatten_append [] (by simp) hmain

end Segments

/-! ## The order of errors -/

namespace Position

theorem offset_next (p : Position) (c : Char) : (p.next c).offset = p.offset + c.utf8Size := by
  unfold next
  split <;> rfl

theorem offset_le_advance (p : Position) (cs : List Char) : p.offset ≤ (p.advance cs).offset := by
  induction cs generalizing p with
  | nil => exact le_rfl
  | cons c cs ih =>
    have htail := ih (p.next c)
    rw [offset_next] at htail
    rw [advance_cons]
    omega

theorem offset_lt_advance (p : Position) {cs : List Char} (h : cs ≠ []) :
    p.offset < (p.advance cs).offset := by
  obtain ⟨c, cs, rfl⟩ := List.exists_cons_of_ne_nil h
  have htail := offset_le_advance (p.next c) cs
  rw [offset_next] at htail
  have hsize := c.utf8Size_pos
  rw [advance_cons]
  omega

end Position

/-- One region of a text starts before another. -/
def Span.startsBefore (s t : Span) : Prop := s.start.offset < t.start.offset

/-- Tokens start one after the other, and the last one stands for the end of the text. -/
theorem tokensFrom_ordered (done : Array Token) (p : Position) (cs : List Char) :
    ∃ ts finish, (tokensFrom done p cs).toList = done.toList ++ (ts ++ [finish]) ∧
      finish.kind = .endOfInput ∧ (ts ++ [finish]).Pairwise (fun t u => t.span.startsBefore u.span) ∧
      ∀ t ∈ ts ++ [finish], p.offset ≤ t.span.start.offset := by
  fun_induction tokensFrom done p cs with
  | case1 done p cs start h =>
    refine ⟨[], .finish start, by simp, rfl, by simp, ?_⟩
    simpa [Token.finish, Span.point] using p.offset_le_advance _
  | case2 done p cs start c rest h hlt scanned stop ih =>
    obtain ⟨ts, finish, hts, hfinish, hsorted, hge⟩ := ih
    have hstart : p.offset ≤ start.offset := p.offset_le_advance _
    have hstop : start.offset < stop.offset := start.offset_lt_advance (scan_text_ne_nil c rest)
    refine ⟨⟨scanned.kind, ⟨start, stop⟩, String.ofList scanned.text⟩ :: ts, finish, by simp [hts],
      hfinish, ?_, ?_⟩
    · refine List.pairwise_cons.mpr ⟨fun t ht => ?_, hsorted⟩
      exact lt_of_lt_of_le hstop (hge t ht)
    · refine List.forall_mem_cons.mpr ⟨hstart, fun t ht => ?_⟩
      exact hstart.trans (hstop.le.trans (hge t ht))

section Order

variable {n k : Nat} {ts : List Token} {errors : List SyntaxError}

/-- The errors so far are in order, and what is left to read stands after them, or is nothing. -/
structure Ordered (n : Nat) (errors : List SyntaxError) (ts : List Token) : Prop where
  sorted : errors.Pairwise fun e e' => e.span.startsBefore e'.span
  rest : headKind ts = .endOfInput ∨
    ts.length ≤ n ∧ (∃ t ∈ ts, t.kind = .endOfInput) ∧
      ts.Pairwise (fun t u => t.span.startsBefore u.span) ∧
      ∀ e ∈ errors, ∀ t ∈ ts, e.span.startsBefore t.span

theorem pairwise_append_errorsIn {α : Type} {r : EStateM.Result SyntaxError Cursor α}
    (h : errors.Pairwise fun e e' => e.span.startsBefore e'.span)
    (hbefore : ∀ e ∈ errors, ∀ t ∈ ts, e.span.startsBefore t.span)
    (hplace : ∀ e ∈ errorsIn r, standsIn ts e.span.start) :
    (errors ++ errorsIn r).Pairwise fun e e' => e.span.startsBefore e'.span := by
  refine List.pairwise_append.mpr ⟨h, ?_, fun e he e' he' => ?_⟩
  · cases r <;> simp [errorsIn]
  · obtain ⟨t, ht, hstart⟩ := hplace e' he'
    have hlt := hbefore e he t ht
    rwa [Span.startsBefore, hstart] at hlt

/-- Reading one class, or passing over it, keeps the order. -/
theorem ordered_step {r : ClassesRead} (h : Ordered n r.errors.toList r.cursor.tokens)
    (hclass : StartsClass r.cursor.tokens) (k : Nat) :
    ∃ r' : ClassesRead, readClasses n (k + 1) r = readClasses n k r' ∧
      Ordered n r'.errors.toList r'.cursor.tokens := by
  obtain ⟨herrors, hhead | ⟨hlength, hfinish, hsorted, hbefore⟩⟩ := h
  · obtain ⟨t, t', ts, hts, ⟨x, hx⟩ | hx, -⟩ := hclass <;> simp [hts, hx] at hhead
  rcases bracketed_or_beforeBracket hfinish r.cursor.nodes with ⟨s, rest, hts, hs⟩ | ⟨hhead, hopen⟩
  · -- the class is closed: its error stands inside of it, before what follows
    rw [hts] at hclass hfinish hsorted hbefore
    rw [hts, List.length_append] at hlength
    obtain ⟨-, hrest, hcross⟩ := List.pairwise_append.mp hsorted
    have hplace : ∀ e ∈ errorsIn (classDef n r.cursor), standsIn s e.span.start := by
      have hpaired := paired_classDef_of_bracketed hs rest rest hclass (by omega : s.length ≤ min n n)
        r.cursor.nodes r.cursor.nodes
      rw [← hts] at hpaired
      exact Parting.place_errorsIn hpaired
    obtain ⟨r', hstep, herrors', rfl⟩ :=
      readClasses_of_bracketed hts hs hclass (by omega : s.length ≤ n) k
    refine ⟨r', hstep, ?_, .inr ⟨by omega, ?_, hrest, fun e he t ht => ?_⟩⟩
    · rw [herrors']
      exact pairwise_append_errorsIn herrors
        (fun e he t ht => hbefore e he t (List.mem_append_left _ ht)) hplace
    · obtain ⟨t, ht, hkind⟩ := hfinish
      rcases List.mem_append.mp ht with ht | ht
      · exact absurd hkind (hs.ne_finish t ht)
      · exact ⟨t, ht, hkind⟩
    · rw [herrors'] at he
      rcases List.mem_append.mp he with he | he
      · exact hbefore e he t (List.mem_append_right s ht)
      · obtain ⟨u, hu, hstart⟩ := hplace e he
        have hlt := hcross u hu t ht
        rwa [Span.startsBefore, hstart] at hlt
  · -- the class is not closed: nothing follows its error
    obtain ⟨e, c, herror, hplace⟩ := classDef_eq_error hclass hlength hopen r.cursor.nodes
    have hpush := pairwise_append_errorsIn (r := classDef n r.cursor) herrors hbefore
      (by simpa [herror, errorsIn] using hplace)
    rw [readClasses, if_pos (Cursor.isAtClass_iff.mpr hclass), herror]
    exact ⟨_, rfl, by simpa [herror, errorsIn] using hpush, .inl hhead⟩

theorem ordered_readClasses {r : ClassesRead} (h : Ordered n r.errors.toList r.cursor.tokens) :
    Ordered n (readClasses n k r).errors.toList (readClasses n k r).cursor.tokens := by
  induction k generalizing r with
  | zero => exact h
  | succ k ih =>
    by_cases hclass : StartsClass r.cursor.tokens
    · obtain ⟨r', hstep, hr'⟩ := ordered_step h hclass k
      rw [hstep]
      exact ih hr'
    · rw [readClasses_of_not_startsClass hclass]
      exact h

theorem Ordered.append_body {c : Cursor} (h : Ordered n errors c.tokens) :
    (errors ++ errorsIn (body n (expressionWithin n) .finish c)).Pairwise
      fun e e' => e.span.startsBefore e'.span := by
  obtain ⟨herrors, hhead | ⟨hlength, hfinish, -, hbefore⟩⟩ := h
  · rw [errorsIn_body_of_finish hhead, List.append_nil]
    exact herrors
  · obtain ⟨d, hpaired⟩ := paired_body_finish hfinish (Nat.le_min.mpr ⟨hlength, hlength⟩) c.nodes c.nodes
    exact pairwise_append_errorsIn herrors hbefore (Parting.place_errorsIn hpaired)

/-- The errors of a source text are reported in the order in which they stand in it. -/
theorem syntaxErrors_ordered (source : String) :
    (syntaxErrors (tokens source)).Pairwise fun e e' => e.span.startsBefore e'.span := by
  obtain ⟨ts, finish, htokens, hfinish, hsorted, -⟩ := tokensFrom_ordered #[] {} source.toList
  have hread : Cursor.ofTokens (tokens source) = ⟨ts.filter (!·.isComment) ++ [finish], 0⟩ := by
    rw [tokens, htokens]
    exact Cursor.ofTokens_filter hfinish
  have hsub : (ts.filter (!·.isComment) ++ [finish]).Sublist (ts ++ [finish]) :=
    List.filter_sublist.append_right [finish]
  rw [syntaxErrors_eq hread]
  refine Ordered.append_body (ordered_readClasses ⟨by simp, .inr ?_⟩)
  exact ⟨le_rfl, ⟨finish, by simp, hfinish⟩, hsorted.sublist hsub, by simp⟩

end Order

/-- The errors of a text are those of its classes, each read by itself, and those of the main program.
A class that can be read ends where it would be passed over to, and the errors of a source text are in
the order of their places. -/
theorem syntaxErrors_isolated (segments : List (List Token)) (main : List Token) (finish : Token)
    (hsegments : ∀ s ∈ segments, IsClassText s) (hmain : IsMainText main)
    (hfinish : finish.kind = .endOfInput) :
    (syntaxErrors (segments.flatten ++ main) =
        segments.flatMap (fun s => syntaxErrors (s ++ [finish])) ++ syntaxErrors main ∧
      ∀ s ∈ segments, (syntaxErrors (s ++ [finish])).length ≤ 1) ∧
    (∀ (n : Nat) (c c' : Cursor) (d : ClassDef), StartsClass c.tokens →
      (∃ t ∈ c.tokens, t.kind = .endOfInput) → c.tokens.length ≤ n →
      classDef n c = .ok d c' → c'.tokens = c.skipClass.tokens) ∧
    ∀ source, (syntaxErrors (tokens source)).Pairwise
      fun e e' => e.span.start.offset < e'.span.start.offset := by
  have halone : ∀ s ∈ segments, syntaxErrors (s ++ [finish]) = classErrors s :=
    fun s hs => syntaxErrors_append_finish (hsegments s hs) hfinish
  refine ⟨⟨?_, fun s hs => ?_⟩, fun n c c' d => tokens_of_classDef, syntaxErrors_ordered⟩
  · rw [syntaxErrors_flatten_append segments hsegments hmain, syntaxErrors_main hmain,
      List.flatMap_congr halone]
  · rw [halone s hs]
    exact length_errorsIn_le _

/-- The brackets of a block that cannot be read, in a class that is closed, are passed over with the
class; the class after it and the main program are read as if they stood alone. -/
theorem syntaxErrors_isolated_block :
    let texts (first : Nat) (kinds : List TokenKind) : List Token :=
      kinds.mapIdx fun i kind => ⟨kind, .point { offset := first + i }, ""⟩
    let opening := TokenKind.punctuation .leftBracket
    let closing := TokenKind.punctuation .rightBracket
    let broken := texts 0 [.identifier "Object", .keyword "subclass:", .symbol "A", opening,
      .identifier "f", opening, opening, .keyword "at:", closing, closing, .identifier "g", opening,
      closing, closing]
    let sound := texts 14 [.reserved .nilWord, .keyword "subclass:", .symbol "B", opening,
      .identifier "f", opening, opening, closing, closing, closing]
    let main := texts 24 [.identifier "x", .operator "+", .endOfInput]
    IsClassText broken ∧ IsClassText sound ∧ IsMainText main ∧
      (syntaxErrors (broken ++ sound ++ main)).map (·.span.start.offset) = [7, 26] := by
  intro texts opening closing broken sound main
  have hbroken : IsClassText broken := by decide
  have hsound : IsClassText sound := by decide
  have hmain : IsMainText main :=
    { finish := ⟨texts 24 [.identifier "x", .operator "+"], _, rfl, rfl, by decide⟩
      noClass := by decide }
  have hall := (syntaxErrors_isolated [broken, sound] main (.finish {})
    (by simp [hbroken, hsound]) hmain rfl).1.1
  refine ⟨hbroken, hsound, hmain, ?_⟩
  have hfirst : (syntaxErrors (broken ++ [.finish {}])).map (·.span.start.offset) = [7] := by
    decide +kernel
  have hsecond : syntaxErrors (sound ++ [.finish {}]) = [] := by decide +kernel
  have hlast : (syntaxErrors main).map (·.span.start.offset) = [26] := by decide +kernel
  have hjoin : broken ++ sound ++ main = [broken, sound].flatten ++ main := by simp
  rw [hjoin, hall]
  simp [hfirst, hsecond, hlast]

end Smalltalk
