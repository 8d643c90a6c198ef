import ConfigGuard.Guard.Refinement

/-!
# Where jobs come from

Every job of the worker is about an event that was handed to the guard, with all
that the guard read about it.
-/

namespace ConfigGuard
open OsPath Transition

/-- The job asks about the event as the policy evaluated it. -/
structure AsksAbout (g : Guard) (event : GuardEvent) (job : PromptJob) : Prop where
  target : event.target = .ok job.targetPath
  watched : isWatchedPath job.targetPath g.paths g.excludedPaths = true
  env : job.env = event.env
  evaluated : ∃ evaluation scope, evaluateGuardAccess g event job.targetPath = .ok evaluation ∧
    evaluation.policyDecision = .prompt job.reason job.defaultDecision scope ∧
    job.key = evaluation.promptKey ∧ job.authorization = evaluation.authorization ∧
    job.subject = evaluation.subject

/-- A prompt is prepared for a watched event whose decision is a prompt, from what
was read about it. -/
theorem prepareEventAction_spec {g : Guard} {c c' : PromptCoordinator} {event : GuardEvent}
    {spec : PromptSpec} (h : prepareEventAction g c event = (.ok (.prompt spec), c'))
    (id : PromptId) :
    AsksAbout g event ⟨id, spec.key, spec.authorization, spec.subject, spec.targetPath, spec.reason,
      spec.defaultDecision, spec.env⟩ := by
  unfold prepareEventAction at h
  split at h
  · cases h
  · rename_i target htarget
    split at h
    · rename_i hwatched
      split at h
      · cases h
      · rename_i evaluation hevaluation
        have haction : (resolveGuardAction g c event target evaluation).1 = .prompt spec :=
          Except.ok.inj (Prod.mk.inj h).1
        unfold resolveGuardAction at haction
        split at haction
        · cases haction
        · unfold promptSpec at haction
          cases hdecision : evaluation.policyDecision with
          | allow =>
            rw [hdecision] at haction
            cases haction
          | deny =>
            rw [hdecision] at haction
            cases haction
          | prompt reason default scope =>
            rw [hdecision] at haction
            cases haction
            exact ⟨htarget, hwatched, rfl, evaluation, scope, hevaluation, hdecision, rfl, rfl, rfl⟩
    · cases h

/-- A backend that needs a graphical session is asked in one. -/
def InSession (g : Guard) (env : Env) : Prop :=
  g.requiresGraphicalSession = true → hasGraphicalSession env = true

/-- Without a session the default is the decision. -/
theorem immediatePromptDecision_session {requires : Bool} {cache : PromptDecisionCache}
    {key : Option PromptDecisionKey} {authorization : Option AncestryAuthorization} {env : Env}
    {reason : DecisionReason} {default : Decision} {scope : Path}
    (h : (immediatePromptDecision requires cache key authorization env
      (.prompt reason default scope)).1 = none) (hrequires : requires = true) :
    hasGraphicalSession env = true := by
  unfold immediatePromptDecision at h
  dsimp only at h
  split at h
  · cases h
  · split at h
    · cases h
    · split at h
      · cases h
      · rename_i hsession
        by_contra hnone
        exact hsession (by rw [hrequires, Bool.eq_false_iff.mpr hnone]; rfl)

theorem prepareEventAction_session {g : Guard} {c c' : PromptCoordinator} {event : GuardEvent}
    {spec : PromptSpec} (h : prepareEventAction g c event = (.ok (.prompt spec), c')) :
    InSession g spec.env := by
  have henv : spec.env = event.env := (prepareEventAction_spec h 0).env
  have hcases := prepareEventAction_cases g c event
  generalize prepareEventAction g c event = prepared at h hcases
  cases hcases with
  | failed => cases (Prod.mk.inj h).1
  | unwatched => cases (Prod.mk.inj h).1
  | immediate => cases (Prod.mk.inj h).1
  | prompt evaluation spec scope hevaluation hnone hdecision =>
    obtain ⟨haction, -⟩ := Prod.mk.inj h
    cases haction
    rw [henv]
    unfold immediateOf at hnone
    rw [hdecision] at hnone
    exact immediatePromptDecision_session hnone

theorem handleEvent_sending {g : Guard} {c c' : PromptCoordinator} {w w' : World}
    {event : GuardEvent} {job : PromptJob} {prompt : PendingPrompt}
    (h : handleEvent g c w event = (.sending job prompt, c', w')) :
    AsksAbout g event job ∧ InSession g job.env := by
  unfold handleEvent at h
  split at h
  · cases h
  · split at h
    · cases h
    · rename_i spec c'' hprepared
      have hasks : ∀ id, AsksAbout g event ⟨id, spec.key, spec.authorization, spec.subject,
        spec.targetPath, spec.reason, spec.defaultDecision, spec.env⟩ :=
        prepareEventAction_spec hprepared
      unfold queuePrompt at h
      split at h
      · split at h <;> cases h
      · have hstarted : (startPrompt c'' event spec).1 = .sending job prompt := (Prod.mk.inj h).1
        unfold startPrompt at hstarted
        split at hstarted
        · cases hstarted
        · rw [← (Handling.sending.inj hstarted).1]
          exact ⟨hasks _, prepareEventAction_session hprepared⟩
    · cases h

namespace GuardState

/-- The jobs that have been sent, as far as they are still on their way or answered. -/
def HasJob (s : GuardState) (job : PromptJob) : Prop :=
  (job ∈ s.jobs ∨ s.worker = .asking job) ∨ ∃ outcome, .answered job outcome ∈ s.world.trace

end GuardState

theorem handle_sends {g : Guard} {s t : GuardState} (h : s.handle g = some t) {job : PromptJob}
    (hjob : job ∈ t.jobs) (hnew : job ∉ s.jobs) :
    ∃ event events tail, s.main = .serving (event :: events) tail ∧ event ∈ t.world.handed ∧
      AsksAbout g event job ∧ InSession g job.env := by
  unfold GuardState.handle at h
  split at h
  · rename_i event events tail hmain
    split at h
    · split at h
      · rw [← Option.some.inj h] at hjob
        exact absurd hjob hnew
      · rename_i job' prompt c w hhandled
        split at h
        · rw [← Option.some.inj h] at hjob
          exact absurd hjob hnew
        · rw [← Option.some.inj h] at hjob ⊢
          have hcases := handleEvent_cases g s.coordinator (s.world.handOver event) event
          rw [hhandled] at hcases
          rcases List.mem_append.mp hjob with hold | hsent
          · exact absurd hold hnew
          · obtain rfl := List.mem_singleton.mp hsent
            refine ⟨event, events, tail, hmain, ?_, handleEvent_sending hhandled⟩
            cases hcases with
            | sending => exact List.mem_append_right _ List.mem_cons_self
    · cases h
  · cases h

/-- A step has no new jobs, but where an event is handed over a job may be sent
about it. -/
theorem hasJob_step {g : Guard} {s t : GuardState} {a : Move} (h : s.step g a = some t)
    {job : PromptJob} (hjob : t.HasJob job) :
    s.HasJob job ∨ a = .handle ∧ ∃ event events tail, s.main = .serving (event :: events) tail ∧
      event ∈ t.world.handed ∧ AsksAbout g event job ∧ InSession g job.env := by
  cases step_inv h with
  | control => exact .inl hjob
  | handled event events tail result c w _ _ hhandled =>
    left
    rcases hjob with hjob | ⟨outcome, hmem⟩
    · exact .inl hjob
    · exact .inr ⟨outcome, hhandled.quiet.answers _ _ hmem⟩
  | sent event events tail job' prompt c w _ _ hhandled =>
    by_cases hold : job ∈ s.jobs
    · exact .inl (.inl (.inl hold))
    · rcases hjob with (hjob | hasking) | ⟨outcome, hmem⟩
      · exact .inr ⟨rfl, handle_sends h hjob hold⟩
      · exact .inl (.inl (.inr hasking))
      · rcases List.mem_append.mp hmem with hmem | hmem
        · exact .inl (.inr ⟨outcome, hhandled.quiet.answers _ _ hmem⟩)
        · cases List.mem_singleton.mp hmem
  | unsent event events tail job' prompt c w error _ _ hhandled =>
    left
    rcases hjob with hjob | ⟨outcome, hmem⟩
    · exact .inl hjob
    · exact .inr ⟨outcome, hhandled.quiet.answers _ _
        ((respondAndCloseEvent_quiet _ _ _ _ _).answers _ _ hmem)⟩
  | recorded => exact .inl hjob
  | completed closed ready completion completions result c w main _ _ hcompleted =>
    left
    rcases hjob with hjob | ⟨outcome, hmem⟩
    · exact .inl hjob
    · exact .inr ⟨outcome, hcompleted.quiet.answers _ _ hmem⟩
  | fellBack =>
    left
    rcases hjob with hjob | ⟨outcome, hmem⟩
    · exact .inl hjob
    · exact .inr ⟨outcome, (failPrompts_quiet _ _ _).answers _ _ hmem⟩
  | dropped => exact .inl hjob
  | joined => exact .inl hjob
  | received job' jobs hworker hjobs =>
    left
    rcases hjob with (hjob | hasking) | hanswered
    · exact .inl (.inl (by rw [hjobs]; exact List.mem_cons_of_mem _ hjob))
    · obtain rfl := WorkerPc.asking.inj hasking
      exact .inl (.inl (by rw [hjobs]; exact List.mem_cons_self))
    · exact .inr hanswered
  | resolved job' current ask outcome' _ hworker =>
    left
    rcases hjob with (hjob | hasking) | ⟨outcome, hmem⟩
    · exact .inl (.inl hjob)
    · cases hasking
    · rcases List.mem_append.mp hmem with hmem | hmem
      · exact .inr ⟨outcome, hmem⟩
      · obtain ⟨rfl, _⟩ := Observation.answered.inj (List.mem_singleton.mp hmem)
        exact .inl (.inr hworker)
  | notified hworker =>
    left
    rcases hjob with (hjob | hasking) | hanswered
    · exact .inl (.inl hjob)
    · cases hasking
    · exact .inr hanswered
  | stopped _ panicked answers hanswers =>
    left
    rcases hjob with (hjob | hasking) | ⟨outcome, hmem⟩
    · cases hjob
    · cases hasking
    · rcases List.mem_append.mp hmem with hmem | hmem
      · exact .inr ⟨outcome, hmem⟩
      -- an answer of a worker that stops is for the job it was asking about
      · obtain ⟨job', outcome', hworker, heq⟩ := hanswers _ hmem
        obtain ⟨rfl, _⟩ := Observation.answered.inj heq
        exact .inl (.inr hworker)

end ConfigGuard
