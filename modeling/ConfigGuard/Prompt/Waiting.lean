import ConfigGuard.Prompt.Backends

/-!
# How long a prompt command is waited for

The loop of `wait_for_prompt_answer` ends with the first poll that finds the
command gone, or with the first reading of the clock past the deadline.
-/

namespace ConfigGuard

namespace ChildRun

section

variable {child : ChildRun} {deadline : Nat} {defaultDecision : Decision}

/-- The loop ends at its `n`-th turn, with the deadline passed, or with a poll
that fails or finds the command gone. -/
inductive Ends (child : ChildRun) (deadline : Nat) (defaultDecision : Decision) (n : Nat) :
    Waited → Prop
  | late (hlate : deadline ≤ child.reading (n + 1)) :
      Ends child deadline defaultDecision n ⟨.ok (.default defaultDecision), true⟩
  | failed (error : String) (hearly : child.reading (n + 1) < deadline)
      (hpoll : child.tryWait n = .error error) :
      Ends child deadline defaultDecision n ⟨.error error, false⟩
  | exited (status : ExitStatus) (hearly : child.reading (n + 1) < deadline)
      (hpoll : child.tryWait n = .ok (some status)) :
      Ends child deadline defaultDecision n
        ⟨.ok (answerFromStatus status defaultDecision), false⟩

theorem waitLoop_ends (n : Nat) :
    ∃ m, n ≤ m ∧
      (∀ i, n ≤ i → i < m → child.reading (i + 1) < deadline ∧ child.tryWait i = .ok none) ∧
      child.Ends deadline defaultDecision m (child.waitLoop deadline defaultDecision n) := by
  fun_induction waitLoop child deadline defaultDecision n with
  | case1 n hearly error hpoll =>
    exact ⟨n, le_rfl, fun i hle hlt => absurd hle (not_le.mpr hlt), .failed error hearly hpoll⟩
  | case2 n hearly status hpoll =>
    exact ⟨n, le_rfl, fun i hle hlt => absurd hle (not_le.mpr hlt), .exited status hearly hpoll⟩
  | case3 n hearly hpoll ih =>
    obtain ⟨m, hle, hwaiting, hends⟩ := ih
    refine ⟨m, by omega, ?_, hends⟩
    intro i hi hlt
    by_cases heq : i = n
    · subst heq
      exact ⟨hearly, hpoll⟩
    · exact hwaiting i (by omega) hlt
  | case4 n hlate =>
    exact ⟨n, le_rfl, fun i hle hlt => absurd hle (not_le.mpr hlt), .late (not_lt.mp hlate)⟩

theorem reading_mono {i j : Nat} (h : i ≤ j) : child.reading (i + 1) ≤ child.reading (j + 1) := by
  induction j, h using Nat.le_induction with
  | base => exact le_rfl
  | succ j _ ih =>
    have hsleeps := child.sleeps j
    omega

/-- A poll is made at its turn of the loop. -/
theorem reading_ge (n : Nat) : child.reading 0 + pollInterval * n ≤ child.reading (n + 1) := by
  induction n with
  | zero => exact child.starts
  | succ n ih =>
    have hsleeps := child.sleeps n
    rw [Nat.mul_succ]
    omega

/-- The loop, begun at its first turn, ends at turn `m` after polls that found the
command running. -/
structure Stops (child : ChildRun) (deadline : Nat) (defaultDecision : Decision) (m : Nat)
    (waited : Waited) : Prop where
  waiting : ∀ i < m, child.tryWait i = .ok none
  ends : child.Ends deadline defaultDecision m waited

theorem waitLoop_stops (child : ChildRun) (deadline : Nat) (defaultDecision : Decision) :
    ∃ m, child.Stops deadline defaultDecision m (child.waitLoop deadline defaultDecision 0) := by
  obtain ⟨m, -, hwaiting, hends⟩ := @waitLoop_ends child deadline defaultDecision 0
  exact ⟨m, fun i hi => (hwaiting i (Nat.zero_le i) hi).2, hends⟩

variable {m n : Nat} {waited : Waited}

/-- The first poll before the deadline that does not find the command running is
the one the loop ends with. -/
theorem Stops.turn_eq (h : child.Stops deadline defaultDecision m waited)
    (hearly : child.reading (n + 1) < deadline) (hwaiting : ∀ i < n, child.tryWait i = .ok none)
    (hpoll : child.tryWait n ≠ .ok none) : n = m := by
  rcases Nat.lt_trichotomy n m with hlt | heq | hgt
  · exact absurd (h.waiting n hlt) hpoll
  · exact heq
  · cases h.ends with
    | late hlate =>
      have hmono := child.reading_mono hgt.le
      omega
    | failed error _ hfailed => cases hfailed.symm.trans (hwaiting m hgt)
    | exited status _ hexited => cases hexited.symm.trans (hwaiting m hgt)

theorem Stops.killed_iff (h : child.Stops deadline defaultDecision m waited) :
    waited.killed = true ↔
      ∀ n, child.reading (n + 1) < deadline → child.tryWait n = .ok none := by
  obtain ⟨hwaiting, hends⟩ := h
  cases hends with
  | late hlate =>
    refine iff_of_true rfl ?_
    intro n hearly
    apply hwaiting
    by_contra hle
    have hmono := child.reading_mono (not_lt.mp hle)
    omega
  | failed error hearly hfailed =>
    refine iff_of_false Bool.false_ne_true ?_
    intro hall
    cases hfailed.symm.trans (hall m hearly)
  | exited status hearly hexited =>
    refine iff_of_false Bool.false_ne_true ?_
    intro hall
    cases hexited.symm.trans (hall m hearly)

theorem Stops.answer_of_killed (h : child.Stops deadline defaultDecision m waited)
    (hkilled : waited.killed = true) : waited.answer = .ok (.default defaultDecision) := by
  cases h.ends with
  | late => rfl
  | failed => cases hkilled
  | exited => cases hkilled

theorem Stops.answer_of_exited (h : child.Stops deadline defaultDecision m waited)
    {status : ExitStatus} (hearly : child.reading (m + 1) < deadline)
    (hexited : child.tryWait m = .ok (some status)) :
    waited = ⟨.ok (answerFromStatus status defaultDecision), false⟩ := by
  cases h.ends with
  | late hlate => omega
  | failed error _ hfailed => cases hfailed.symm.trans hexited
  | exited other _ hother =>
    obtain rfl := Option.some.inj (Except.ok.inj (hother.symm.trans hexited))
    rfl

theorem answerFromStatus_explicit {status : ExitStatus} {d : Decision} :
    answerFromStatus status defaultDecision = .explicit d ↔
      ∃ code, status = ⟨some code⟩ ∧ (code = 0 ∧ d = .allow ∨ code = 1 ∧ d = .deny) := by
  obtain ⟨code⟩ := status
  rw [answerFromStatus]
  constructor
  · intro h
    split at h
    · rename_i hzero
      exact ⟨0, by rw [← hzero], .inl ⟨rfl, (PromptAnswer.explicit.inj h).symm⟩⟩
    · split at h
      · rename_i hone
        exact ⟨1, by rw [← hone], .inr ⟨rfl, (PromptAnswer.explicit.inj h).symm⟩⟩
      · cases h
  · rintro ⟨code, hcode, ⟨rfl, rfl⟩ | ⟨rfl, rfl⟩⟩
    · obtain rfl := ExitStatus.mk.inj hcode
      rfl
    · obtain rfl := ExitStatus.mk.inj hcode
      rfl

theorem Stops.explicit_iff (h : child.Stops deadline defaultDecision m waited) (d : Decision) :
    waited.answer = .ok (.explicit d) ↔ ∃ n code, child.reading (n + 1) < deadline ∧
      (∀ i < n, child.tryWait i = .ok none) ∧ child.tryWait n = .ok (some ⟨some code⟩) ∧
      (code = 0 ∧ d = .allow ∨ code = 1 ∧ d = .deny) := by
  constructor
  · intro hanswer
    obtain ⟨hwaiting, hends⟩ := h
    cases hends with
    | late => cases hanswer
    | failed => cases hanswer
    | exited status hearly hexited =>
      obtain ⟨code, rfl, hcode⟩ := answerFromStatus_explicit.mp (Except.ok.inj hanswer)
      exact ⟨m, code, hearly, hwaiting, hexited, hcode⟩
  · rintro ⟨n, code, hearly, hwaiting, hexited, hcode⟩
    have hpoll : child.tryWait n ≠ .ok none := by
      rw [hexited]
      exact fun heq => Option.some_ne_none _ (Except.ok.inj heq)
    obtain rfl := h.turn_eq hearly hwaiting hpoll
    rw [h.answer_of_exited hearly hexited]
    exact congrArg Except.ok (answerFromStatus_explicit.mpr ⟨code, rfl, hcode⟩)

theorem answerFromStatus_default {status : ExitStatus} {d : Decision}
    (h : answerFromStatus status defaultDecision = .default d) : d = defaultDecision := by
  rw [answerFromStatus] at h
  split at h
  · cases h
  · split at h
    · cases h
    · exact (PromptAnswer.default.inj h).symm

theorem Stops.eq_of_default (h : child.Stops deadline defaultDecision m waited) {d : Decision}
    (hanswer : waited.answer = .ok (.default d)) : d = defaultDecision := by
  cases h.ends with
  | late => exact (PromptAnswer.default.inj (Except.ok.inj hanswer)).symm
  | failed => cases hanswer
  | exited status => exact answerFromStatus_default (Except.ok.inj hanswer)

end

/-- A turn of the loop takes `lag` longer than it sleeps, at most. -/
structure LagsBy (child : ChildRun) (lag : Nat) : Prop where
  start : child.reading 1 ≤ child.reading 0 + lag
  turn : ∀ n, child.reading (n + 1 + 1) ≤ child.reading (n + 1) + pollInterval + lag

/-- The command exits at the time: the polls begun after it find the status, and
those that were over before do not. -/
structure ExitsAt (child : ChildRun) (time : Nat) (status : ExitStatus) : Prop where
  gone : ∀ n, time ≤ child.reading (n + 1) → child.tryWait n = .ok (some status)
  there : ∀ n, child.reading (n + 1 + 1) < time + pollInterval → child.tryWait n = .ok none
  between : ∀ n, child.tryWait n = .ok none ∨ child.tryWait n = .ok (some status)

section

variable {child : ChildRun} {deadline lag time : Nat} {status : ExitStatus}

/-- Some poll before the deadline begins after an exit that is early enough. -/
theorem LagsBy.exists_poll (hlag : child.LagsBy lag) (hstart : child.reading 0 ≤ time)
    (htime : time + pollInterval + lag < deadline) :
    ∃ n, time ≤ child.reading (n + 1) ∧ child.reading (n + 1) < deadline := by
  have hgrows : ∃ n, time ≤ child.reading (n + 1) := by
    refine ⟨time, ?_⟩
    have hge := child.reading_ge time
    rw [pollInterval] at hge
    omega
  -- the first of these polls comes one turn after a reading before the exit
  refine ⟨Nat.find hgrows, Nat.find_spec hgrows, ?_⟩
  rcases hfind : Nat.find hgrows with _ | n
  · have hfirst : child.reading (0 + 1) ≤ child.reading 0 + lag := hlag.start
    omega
  · have hbefore : child.reading (n + 1) < time := by
      have hnot := Nat.find_min hgrows (m := n) (by omega)
      omega
    have hturn := hlag.turn n
    omega

/-- An exit that is early enough is found by a poll before the deadline. -/
theorem ExitsAt.found (hexit : child.ExitsAt time status) (hlag : child.LagsBy lag)
    (hstart : child.reading 0 ≤ time) (htime : time + pollInterval + lag < deadline)
    {defaultDecision : Decision} {m : Nat} {waited : Waited}
    (h : child.Stops deadline defaultDecision m waited) :
    waited = ⟨.ok (answerFromStatus status defaultDecision), false⟩ := by
  obtain ⟨n, hgone, hearly⟩ := hlag.exists_poll hstart htime
  have hsome : ∃ n, child.tryWait n = .ok (some status) := ⟨n, hexit.gone n hgone⟩
  -- the first poll that finds it is not later than this one
  have hle : Nat.find hsome ≤ n := Nat.find_min' hsome (hexit.gone n hgone)
  have hfirst := Nat.find_spec hsome
  have hbefore : ∀ i < Nat.find hsome, child.tryWait i = .ok none := fun i hi =>
    (hexit.between i).resolve_right (Nat.find_min hsome hi)
  have hturn : child.reading (Nat.find hsome + 1) < deadline :=
    (child.reading_mono hle).trans_lt hearly
  have heq : Nat.find hsome = m := h.turn_eq hturn hbefore (by
    rw [hfirst]
    exact fun heq => Option.some_ne_none _ (Except.ok.inj heq))
  rw [heq] at hfirst hturn
  exact h.answer_of_exited hturn hfirst

end

end ChildRun

/-- The `n`-th poll of a prompt command, counted from 0, is made only where `50 * n`
milliseconds are less than the timeout. The command is killed exactly when every poll
before the deadline found it running, and then the default is the answer; an explicit
answer is the exit status 0 or 1 that a poll before the deadline found first. With turns
that lag by no more than `lag`, a command that exits more than a turn and `lag` before
the deadline is answered by its status, and one that exits `lag` after it or later is
killed. -/
theorem prompt_command_in_time (child : ChildRun) (timeout : Nat) (defaultDecision : Decision) :
    let deadline := child.reading 0 + timeout
    let waited := waitForPromptAnswer child timeout defaultDecision
    (∀ n, child.reading (n + 1) < deadline → pollInterval * n < timeout) ∧
    (waited.killed = true ↔ ∀ n, child.reading (n + 1) < deadline → child.tryWait n = .ok none) ∧
    (waited.killed = true → waited.answer = .ok (.default defaultDecision)) ∧
    (∀ d, waited.answer = .ok (.explicit d) ↔ ∃ n code, child.reading (n + 1) < deadline ∧
      (∀ i < n, child.tryWait i = .ok none) ∧ child.tryWait n = .ok (some ⟨some code⟩) ∧
      (code = 0 ∧ d = .allow ∨ code = 1 ∧ d = .deny)) ∧
    ∀ lag time status, child.LagsBy lag → child.ExitsAt time status →
      (child.reading 0 ≤ time → time + pollInterval + lag < deadline →
        waited = ⟨.ok (answerFromStatus status defaultDecision), false⟩) ∧
      (deadline + lag ≤ time → waited.killed = true) := by
  intro deadline waited
  obtain ⟨m, hstops⟩ := child.waitLoop_stops deadline defaultDecision
  refine ⟨?_, hstops.killed_iff, hstops.answer_of_killed, hstops.explicit_iff, ?_⟩
  · intro n hearly
    have hge := child.reading_ge n
    omega
  · intro lag time status hlag hexit
    refine ⟨fun hstart htime => hexit.found hlag hstart htime hstops, ?_⟩
    intro hlate
    refine hstops.killed_iff.mpr ?_
    intro n hearly
    apply hexit.there
    have hturn := hlag.turn n
    omega

/-- A command that exits with status 0 after 100 milliseconds, polled every 60. -/
def promptChild : ChildRun where
  reading n := 60 * n
  tryWait n := .ok (if 100 ≤ 60 * (n + 1) then some ⟨some 0⟩ else none)
  starts := by omega
  sleeps n := by
    rw [pollInterval]
    omega

theorem promptChild_exits : promptChild.ExitsAt 100 ⟨some 0⟩ := by
  constructor
  · intro n hgone
    exact congrArg Except.ok (if_pos hgone)
  · intro n hthere
    apply congrArg Except.ok
    apply if_neg
    simp only [promptChild, pollInterval] at hthere
    omega
  · intro n
    by_cases hgone : 100 ≤ 60 * (n + 1)
    · exact .inr (congrArg Except.ok (if_pos hgone))
    · exact .inl (congrArg Except.ok (if_neg hgone))

theorem promptChild_lags : promptChild.LagsBy 60 := by
  constructor
  · simp [promptChild]
  · intro n
    simp only [promptChild, pollInterval]
    omega

theorem prompt_command_in_time_promptChild :
    waitForPromptAnswer promptChild 35000 .deny = ⟨.ok (.explicit .allow), false⟩ :=
  ((prompt_command_in_time promptChild 35000 .deny).2.2.2.2 60 100 ⟨some 0⟩ promptChild_lags
    promptChild_exits).1 (by simp [promptChild]) (by simp [promptChild, pollInterval])

end ConfigGuard
