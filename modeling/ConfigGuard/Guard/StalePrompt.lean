import ConfigGuard.Guard.Delivery

/-!
# Prompts that are discarded

Before a dialog is presented the worker looks again at the processes it is
about. What it finds decides whether the events get the backend's outcome.
-/

namespace ConfigGuard
open OsPath Transition

namespace PromptJob

/-- The helper or the owner the prompt is about is gone. -/
def isStale (current : Int → Nat → Bool) (job : PromptJob) : Bool :=
  (job.key.any fun key => !key.isCurrentProcess current) ||
    job.authorization.any fun authorization => !authorization.ownerIsCurrent current

/-- What the dialog is asked. -/
def request (job : PromptJob) : PromptRequest :=
  ⟨job.subject, job.targetPath, job.reason, job.defaultDecision, job.env, job.authorization⟩

end PromptJob

/-- A job is put to the backend exactly when it is not stale. -/
theorem resolvePromptJob_eq (prompt : Prompt) (current : Int → Nat → Bool) (job : PromptJob) :
    resolvePromptJob prompt current job =
      if job.isStale current then .failure else askPrompt prompt job.request := rfl

/-- In a run to `s` the worker has resolved the job, with the processes and the
backend as they were then. -/
structure Resolved (g : Guard) (s : GuardState) (job : PromptJob) (current : Int → Nat → Bool)
    (askAnswer : PromptRequest → Except String PromptAnswer) : Prop where
  run : ∃ u v, Reachable (guardRun g) anyStep u ∧ u.worker = .asking job ∧
    u.step g (.workerResolve current askAnswer) = some v ∧ Steps (guardRun g) anyStep v s

section

variable {g : Guard} {s t : GuardState} {job : PromptJob} {current : Int → Nat → Bool}
  {askAnswer : PromptRequest → Except String PromptAnswer}

theorem trace_of_steps (h : Steps (guardRun g) anyStep s t) : s.world.trace ⊆ t.world.trace := by
  refine h.keeps (I := fun t => s.world.trace ⊆ t.world.trace) ?_ (List.Subset.refl _)
  intro u a v hu _ hstep
  exact List.Subset.trans hu (step_inv hstep).trace

theorem Resolved.answered (h : Resolved g s job current askAnswer) :
    .answered job (resolvePromptJob ⟨askAnswer, g.requiresGraphicalSession⟩ current job) ∈
      s.world.trace := by
  obtain ⟨u, v, _, hworker, hstep, hsteps⟩ := h.run
  obtain ⟨job', outcome, hworker', rfl, hcases⟩ := workerResolve_cases hstep
  obtain rfl := WorkerPc.asking.inj (hworker.symm.trans hworker')
  refine trace_of_steps hsteps ?_
  rcases hcases with ⟨_, rfl⟩ | ⟨_, rfl⟩
  · exact List.mem_append_right _ List.mem_cons_self
  · exact List.mem_append_right _ List.mem_cons_self

/-- Every answer is from a moment at which the worker resolved its job. -/
theorem resolved_of_answered (h : Reachable (guardRun g) anyStep s) {outcome : PromptOutcome}
    (hanswered : .answered job outcome ∈ s.world.trace) :
    ∃ current askAnswer, Resolved g s job current askAnswer := by
  suffices hall : ∀ job outcome, .answered job outcome ∈ s.world.trace →
      ∃ current askAnswer, Resolved g s job current askAnswer from hall job outcome hanswered
  refine h.invariant_with (J := Reachable (guardRun g) anyStep)
    (I := fun s => ∀ job outcome, .answered job outcome ∈ s.world.trace →
      ∃ current askAnswer, Resolved g s job current askAnswer) (fun _ hr => hr) ?_ ?_
  · rintro _ rfl job outcome hmem
    cases hmem
  · intro s a t hr _ hs _ hstep job outcome hmem
    have hold : .answered job outcome ∈ s.world.trace →
        ∃ current askAnswer, Resolved g t job current askAnswer := by
      intro hmem
      obtain ⟨current, askAnswer, ⟨u, v, hu, hworker, hresolve, hsteps⟩⟩ := hs job outcome hmem
      exact ⟨current, askAnswer, ⟨u, v, hu, hworker, hresolve, .tail hsteps trivial hstep⟩⟩
    by_cases ha : ∃ current askAnswer, a = .workerResolve current askAnswer
    · obtain ⟨current, askAnswer, rfl⟩ := ha
      obtain ⟨job', outcome', hworker, _, hcases⟩ := workerResolve_cases hstep
      have htrace : t.world = s.world.observe (.answered job' outcome') := by
        rcases hcases with ⟨_, rfl⟩ | ⟨_, rfl⟩ <;> rfl
      rw [htrace, World.trace_observe, List.mem_append, List.mem_singleton] at hmem
      rcases hmem with hmem | hnew
      · exact hold hmem
      · obtain ⟨rfl, _⟩ := Observation.answered.inj hnew
        exact ⟨current, askAnswer, ⟨s, t, hr, hworker, hstep, .refl t⟩⟩
    · have hsame := answers_step (fun current askAnswer heq => ha ⟨current, askAnswer, heq⟩) hstep
      exact hold (mem_answers.mp (hsame ▸ mem_answers.mpr hmem))

end

/-- When the worker resolves a job whose helper and owner are current, the dialog
is presented, and the events queued for the job get the backend's outcome: its
answer, or their default where the backend has failed. Where one of the two is
gone they get their default. Events that are answered with no job resolved get
their default from the fallback, after the worker has stopped. -/
theorem stale_prompts_discarded (g : Guard) (s : GuardState)
    (h : Reachable (guardRun g) anyStep s) :
    (∀ job current askAnswer, Resolved g s job current askAnswer →
      ∀ e, .queued (some e) job.id ∈ s.world.trace →
        (∀ d ok, .responded (some e) d ok ∈ s.world.trace →
          if job.isStale current then DefaultOf g s.world e d
          else Gives g s.world e d
            (askPrompt ⟨askAnswer, g.requiresGraphicalSession⟩ job.request)) ∧
        (s.Done job.id → ∀ event, s.world.handed[e]? = some event →
          isPermissionEvent event.mask = true →
            ∃ d ok, .responded (some e) d ok ∈ s.world.trace)) ∧
    ∀ e id d ok, .queued (some e) id ∈ s.world.trace → .responded (some e) d ok ∈ s.world.trace →
      (∃ job current askAnswer, job.id = id ∧ Resolved g s job current askAnswer) ∨
      DefaultOf g s.world e d ∧ s.worker.isStopped = true ∧
        ∀ job outcome, job.id = id → .answered job outcome ∉ s.world.trace := by
  have htickets := tickets_reachable h
  have hdelivered := delivered_reachable h
  constructor
  · intro job current askAnswer hresolved e hqueued
    constructor
    · intro d ok hresponded
      have hgives := (hdelivered.decided e job.id d ok hqueued hresponded).gives htickets
        hresolved.answered
      rw [resolvePromptJob_eq] at hgives
      split
      · rename_i hstale
        rw [if_pos hstale] at hgives
        exact hgives
      · rename_i hcurrent
        rw [if_neg hcurrent] at hgives
        exact hgives
    · intro hdone event hget hmask
      exact responded_of_done h hqueued hdone hget hmask
  · intro e id d ok hqueued hresponded
    rcases hdelivered.decided e id d ok hqueued hresponded with ⟨job, explicit, hid, hanswered⟩ |
      ⟨hdefault, ⟨job, hid, hanswered⟩ | hstopped⟩
    · obtain ⟨current, askAnswer, hresolved⟩ := resolved_of_answered h hanswered
      exact .inl ⟨job, current, askAnswer, hid, hresolved⟩
    · obtain ⟨current, askAnswer, hresolved⟩ := resolved_of_answered h hanswered
      exact .inl ⟨job, current, askAnswer, hid, hresolved⟩
    · exact .inr ⟨hdefault, hstopped⟩

/-- The job of `asked`. -/
def askedJob : PromptJob where
  id := 0
  key := some ⟨42, 100, (Path.ofString "/usr/bin/cat").components, .read, .crossOwnerRead⟩
  authorization := some (catUnder localPi)
  subject := (catGeneration 42 100).subject
  targetPath := piSession
  reason := .crossOwnerRead
  defaultDecision := .allow
  env := ∅

/-- The helper of `asked` is alive and its owner is not; the backend would deny. -/
def ownerExited : Move :=
  .workerResolve (fun pid _ => pid == 42) (fun _ => .ok (.explicit .deny))

def undecided : GuardState := runFrom (guardRun piGuard) anyStep asked [ownerExited]

def discarded : GuardState :=
  runFrom (guardRun piGuard) anyStep undecided
    [.workerNotify, .endBatch, .poll false, .readWake, .readWake, .tryRecv]

theorem undecided_steps : Steps (guardRun piGuard) anyStep undecided discarded :=
  runFrom_steps (by decide)

theorem discarded_reachable : Reachable (guardRun piGuard) anyStep discarded :=
  (asked_reachable.steps (runFrom_steps (by decide))).steps undecided_steps

theorem resolved_discarded : Resolved piGuard discarded askedJob (fun pid _ => pid == 42)
    (fun _ => .ok (.explicit .deny)) :=
  ⟨asked, undecided, asked_reachable, rfl, rfl, undecided_steps⟩

theorem stale_prompts_discarded_catOpens : DefaultOf piGuard discarded.world 0 .allow :=
  ((stale_prompts_discarded piGuard discarded discarded_reachable).1 askedJob _ _
    resolved_discarded 0 (List.mem_of_getElem? (i := 0) rfl)).1 .allow true
      (List.mem_of_getElem? (i := 2) rfl)

theorem live_helper_gets_default :
    ¬ ∀ (g : Guard) (s : GuardState) (job : PromptJob) (key : PromptDecisionKey)
      (current : Int → Nat → Bool) (askAnswer : PromptRequest → Except String PromptAnswer)
      (e : EventId) (d : Decision) (ok : Bool),
      Reachable (guardRun g) anyStep s → Resolved g s job current askAnswer →
      job.key = some key → key.isCurrentProcess current = true →
      .queued (some e) job.id ∈ s.world.trace → .responded (some e) d ok ∈ s.world.trace →
      Gives g s.world e d (askPrompt ⟨askAnswer, g.requiresGraphicalSession⟩ job.request) := by
  intro h
  have hgives := h piGuard discarded askedJob _ (fun pid _ => pid == 42)
    (fun _ => .ok (.explicit .deny)) 0 .allow true discarded_reachable resolved_discarded rfl rfl
    (List.mem_of_getElem? (i := 0) rfl) (List.mem_of_getElem? (i := 2) rfl)
  cases hgives

end ConfigGuard
