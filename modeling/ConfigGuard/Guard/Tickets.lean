import ConfigGuard.Guard.Custody

/-!
# The life of a prompt job

Every job gets an id of its own, waits in the channel, is taken by the worker
and is answered once. What has been answered is known to the main thread or
waits in the completion channel.
-/

namespace ConfigGuard
open OsPath Transition AssocList

/-- The jobs that have been answered, with their outcomes. -/
def answers (trace : List Observation) : List (PromptJob × PromptOutcome) :=
  trace.filterMap fun
    | .answered job outcome => some (job, outcome)
    | .responded _ _ _ | .closed _ _ | .queued _ _ => none

theorem mem_answers {trace : List Observation} {job : PromptJob} {outcome : PromptOutcome} :
    (job, outcome) ∈ answers trace ↔ .answered job outcome ∈ trace := by
  rw [answers, List.mem_filterMap]
  constructor
  · rintro ⟨o, hmem, ho⟩
    cases o with
    | answered job' outcome' =>
      obtain ⟨rfl, rfl⟩ := Prod.mk.inj (Option.some.inj ho)
      exact hmem
    | _ => cases ho
  · intro hmem
    exact ⟨_, hmem, rfl⟩

theorem answers_append (l l' : List Observation) : answers (l ++ l') = answers l ++ answers l' :=
  List.filterMap_append

theorem answers_eq_nil {l : List Observation} (h : ∀ job outcome, .answered job outcome ∉ l) :
    answers l = [] := by
  refine List.eq_nil_iff_forall_not_mem.mpr ?_
  rintro ⟨job, outcome⟩ hmem
  exact h job outcome (mem_answers.mp hmem)

theorem answers_respondAndCloseEvent (io : IoResults) (w : World) (fd : Int) (mask : UInt64)
    (decision : Decision) :
    answers (respondAndCloseEvent io w fd mask decision).2.trace = answers w.trace := by
  rw [trace_respondAndCloseEvent, answers_append, settlement]
  split <;> exact List.append_nil _

theorem answers_respondToEvents (io : IoResults) (decisionFor : PendingEvent → Decision) (w : World)
    (events : List PendingEvent) :
    answers (respondToEvents io decisionFor w events).2.trace = answers w.trace := by
  induction events generalizing w with
  | nil => rfl
  | cons event events ih => exact (ih _).trans (answers_respondAndCloseEvent io w _ _ _)

theorem answers_failPrompts (io : IoResults) (w : World) (prompts : List PendingPrompt) :
    answers (PromptCoordinator.failPrompts io w prompts).2.trace = answers w.trace := by
  induction prompts generalizing w with
  | nil => rfl
  | cons prompt prompts ih =>
    have hfirst : answers (respondWithDefaults io w prompt.events).2.trace = answers w.trace :=
      answers_respondToEvents io _ w _
    rw [PromptCoordinator.failPrompts]
    split
    · rename_i hresult
      rw [hresult] at hfirst
      exact hfirst
    · rename_i hresult
      rw [hresult] at hfirst
      exact (ih _).trans hfirst

theorem Handled.answers_eq {g : Guard} {c c' : PromptCoordinator} {w w' : World}
    {event : GuardEvent} {handling : Handling} (h : Handled g c w event (handling, c', w')) :
    answers w'.trace = answers w.trace := by
  cases h with
  | answered => exact answers_respondAndCloseEvent _ _ _ _ _
  | unprepared =>
    rw [trace_closeDescriptor, answers_append]
    exact List.append_nil _
  | appended =>
    rw [World.trace_observe, answers_append]
    exact List.append_nil _
  | _ => rfl

theorem Completed.answers_eq {c c' : PromptCoordinator} {io : IoResults} {w w' : World}
    {completion : PromptCompletion} {result : Except GuardError Unit}
    (h : Completed c io w completion (result, c', w')) : answers w'.trace = answers w.trace := by
  cases h with
  | completed => exact answers_respondToEvents _ _ _ _
  | _ => rfl

/-- The moves of the worker thread. -/
def Move.byWorker : Move → Bool
  | .workerRecv | .workerResolve _ _ | .workerNotify | .workerFail => true
  | _ => false

theorem worker_of_main_move {g : Guard} {s t : GuardState} {a : Move} (ha : a.byWorker = false)
    (h : s.step g a = some t) : t.worker = s.worker := by
  cases a with
  | workerRecv | workerResolve | workerNotify | workerFail => cases ha
  | _ =>
    simp only [GuardState.step, GuardState.poll, GuardState.readWake, GuardState.tryRecv,
      GuardState.failPending, GuardState.handle, GuardState.endBatch, GuardState.record,
      GuardState.drop, GuardState.join] at h
    grind

/-- A worker that answers sends the completion, unless nobody receives it. -/
theorem workerResolve_cases {g : Guard} {s t : GuardState} {current : Int → Nat → Bool}
    {askAnswer : PromptRequest → Except String PromptAnswer}
    (h : s.step g (.workerResolve current askAnswer) = some t) :
    ∃ job outcome, s.worker = .asking job ∧
      outcome = resolvePromptJob ⟨askAnswer, g.requiresGraphicalSession⟩ current job ∧
      (s.main.live = true ∧ t = { s with
          world := s.world.observe (.answered job outcome)
          completions := s.completions ++ [⟨job.id, outcome⟩]
          worker := .notifying } ∨
        s.main.live = false ∧ t = { s with
          world := s.world.observe (.answered job outcome)
          jobs := []
          worker := .stopped false }) := by
  simp only [GuardState.step, GuardState.workerResolve] at h
  split at h
  · rename_i job hworker
    refine ⟨job, _, hworker, rfl, ?_⟩
    split at h
    · rename_i hlive
      exact .inl ⟨hlive, (Option.some.inj h).symm⟩
    · rename_i hlive
      exact .inr ⟨Bool.eq_false_iff.mpr hlive, (Option.some.inj h).symm⟩
  · cases h

/-- Every other step leaves the answers as they are. -/
theorem answers_step {g : Guard} {s t : GuardState} {a : Move}
    (ha : ∀ current askAnswer, a ≠ .workerResolve current askAnswer)
    (h : s.step g a = some t) : answers t.world.trace = answers s.world.trace := by
  cases hworker : a.byWorker with
  | true =>
    cases a with
    | workerResolve current askAnswer => exact absurd rfl (ha current askAnswer)
    | workerRecv | workerNotify | workerFail =>
      simp only [GuardState.step, GuardState.workerRecv, GuardState.workerNotify,
        GuardState.workerFail, GuardState.stopWorker] at h
      grind
    | _ => cases hworker
  | false =>
    have hsame := worker_of_main_move hworker h
    have hinv := step_inv h
    cases hinv with
    | control => rfl
    | handled event events tail result c w _ _ hhandled => exact hhandled.answers_eq
    | sent event events tail job prompt c w _ _ hhandled =>
      rw [World.trace_observe, answers_append]
      exact (List.append_nil _).trans hhandled.answers_eq
    | unsent event events tail job prompt c w error _ _ hhandled =>
      exact (answers_respondAndCloseEvent _ _ _ _ _).trans hhandled.answers_eq
    | recorded => rfl
    | completed closed ready completion completions result c w main _ _ hcompleted =>
      exact hcompleted.answers_eq
    | fellBack => exact answers_failPrompts _ _ _
    | dropped => rfl
    | joined => rfl
    | received | resolved | notified => cases hworker
    | stopped _ panicked observed hobserved =>
      -- the worker had stopped before, and answers no job
      have hnone : answers observed = [] := by
        refine answers_eq_nil ?_
        intro job outcome hmem
        obtain ⟨_, _, hasking, _⟩ := hobserved _ hmem
        rw [GuardState.stopWorker, hasking] at hsame
        cases hsame
      show answers (s.world.trace ++ observed) = _
      rw [answers_append, hnone, List.append_nil]

namespace GuardState

/-- The jobs that wait for the worker, and the one it holds. -/
def unanswered (s : GuardState) : List PromptJob := s.worker.asked.toList ++ s.jobs

/-- The ids of all jobs that were sent and have not gone with a worker that stopped. -/
def tickets (s : GuardState) : List PromptId :=
  (answers s.world.trace).map (·.1.id) ++ s.unanswered.map (·.id)

end GuardState

section

variable {g : Guard} {s t : GuardState} {a : Move} {job : PromptJob} {outcome : PromptOutcome}
  {id : PromptId}

theorem mem_promptIds {id : PromptId} :
    id ∈ s.promptIds ↔ (∃ prompt, s.main.recorded = some (id, prompt)) ∨
      id ∈ s.coordinator.pending := by
  rw [GuardState.promptIds, List.mem_append, AList.mem_keys, Option.mem_toList, Option.map_eq_some_iff]
  simp

theorem mem_promptIds_of_prompt {prompt : PendingPrompt} (h : (id, prompt) ∈ s.prompts) :
    id ∈ s.promptIds := by
  rcases GuardState.mem_prompts.mp h with hrecorded | hlookup
  · exact mem_promptIds.mpr (.inl ⟨prompt, hrecorded⟩)
  · exact mem_promptIds.mpr (.inr (AList.lookup_isSome.mp (by rw [hlookup]; rfl)))

theorem mem_promptIds_of_held {h : HeldEvent} (hmem : h ∈ s.heldEvents) : h.id ∈ s.promptIds := by
  obtain ⟨⟨id, prompt⟩, hprompt, hheld⟩ := List.mem_flatMap.mp hmem
  obtain ⟨event, _, rfl⟩ := List.mem_map.mp hheld
  exact mem_promptIds_of_prompt hprompt

/-- A worker that has stopped leaves no job waiting and shows none. -/
theorem unanswered_of_stopped (hgone : WorkerGone s) (hstopped : s.worker.isStopped = true) :
    s.unanswered = [] := by
  rw [GuardState.unanswered, hgone.jobs hstopped]
  cases hworker : s.worker with
  | stopped => rfl
  | idle | asking | notifying =>
    rw [hworker] at hstopped
    cases hstopped

theorem unanswered_of_failing (hgone : WorkerGone s) (hmain : s.main = .failing) :
    s.unanswered = [] :=
  unanswered_of_stopped hgone (hgone.seen (by rw [hmain]; rfl))

theorem promptIds_same (hpending : t.coordinator.pending = s.coordinator.pending)
    (hrecorded : t.main.recorded = s.main.recorded) : t.promptIds = s.promptIds := by
  rw [GuardState.promptIds, GuardState.promptIds, hpending, hrecorded]

theorem Handled.finished_keeps {g : Guard} {c c' : PromptCoordinator} {w w' : World}
    {event : GuardEvent} {result : Except GuardError Unit}
    (h : Handled g c w event (.finished result, c', w')) :
    c'.nextId = c.nextId ∧ ∀ id, id ∈ c'.pending ↔ id ∈ c.pending := by
  cases h with
  | appended spec key id prompt _ _ _ _ hid =>
    refine ⟨rfl, ?_⟩
    intro other
    rw [AList.mem_insert]
    refine ⟨?_, .inr⟩
    rintro (rfl | hother)
    · exact AList.lookup_isSome.mp (by rw [hid]; rfl)
    · exact hother
  | _ => exact ⟨rfl, fun _ => Iff.rfl⟩

/-- The coordinator has no prompt that it did not have before, but for a new one. -/
theorem Stepped.promptIds (h : Stepped g s a t) (hid : id ∈ t.promptIds) :
    id ∈ s.promptIds ∨ id = s.coordinator.nextId := by
  have hsame : t.coordinator.pending = s.coordinator.pending →
      t.main.recorded = s.main.recorded → id ∈ s.promptIds := by
    intro hpending hrecorded
    rwa [promptIds_same hpending hrecorded] at hid
  cases h with
  | control _ main bytes _ hrecorded _ hrecorded' =>
    exact .inl (hsame rfl (hrecorded'.trans hrecorded.symm))
  | handled event events tail result c w hmain _ hhandled =>
    rcases mem_promptIds.mp hid with ⟨prompt, hprompt⟩ | hid
    · cases (afterEvent_recorded result events tail).symm.trans hprompt
    · exact .inl (mem_promptIds.mpr (.inr ((hhandled.finished_keeps.2 id).mp hid)))
  | sent event events tail job prompt c w hmain _ hhandled =>
    cases hhandled with
    | sending spec _ _ _ _ _ hjob =>
      rcases mem_promptIds.mp hid with ⟨prompt, hprompt⟩ | hid
      · obtain ⟨rfl, -⟩ := Prod.mk.inj (Option.some.inj hprompt)
        exact .inr hjob.1
      · exact .inl (mem_promptIds.mpr (.inr hid))
  | unsent event events tail job prompt c w error hmain _ hhandled =>
    cases hhandled with
    | sending => exact .inl (hsame rfl (by rw [hmain]; rfl))
  | recorded other prompt events tail hmain =>
    rcases mem_promptIds.mp hid with ⟨prompt', hprompt'⟩ | hid
    · cases hprompt'
    · rcases (AList.mem_insert _).mp hid with rfl | hid
      · exact .inl (mem_promptIds.mpr (.inl ⟨prompt, by rw [hmain]; rfl⟩))
      · exact .inl (mem_promptIds.mpr (.inr hid))
  | completed closed ready completion completions result c w main hmain _ hcompleted hmain' =>
    have hrecorded' : main.recorded = none := recorded_of_completed hmain'
    rcases mem_promptIds.mp hid with ⟨_, hprompt⟩ | hid
    · cases hrecorded'.symm.trans hprompt
    · refine .inl (mem_promptIds.mpr (.inr ?_))
      cases hcompleted with
      | unknown => exact hid
      | mismatched => exact (AList.mem_erase.mp hid).2
      | completed => exact (AList.mem_erase.mp hid).2
  | fellBack => cases hid
  | dropped => cases hid
  | joined error error' hmain => exact .inl (hsame rfl (by rw [hmain]; rfl))
  | received | resolved | notified | stopped => exact .inl hid

/-- While the coordinator exists, a prompt leaves it with its completion or in the fallback. -/
theorem Stepped.promptIds_kept (h : Stepped g s a t) (hconsistent : Consistent g s)
    (ht : t.main.live = true) (hid : id ∈ s.promptIds) :
    id ∈ t.promptIds ∨ s.main = .failing ∨ ∃ completion prompt, completion ∈ s.completions ∧
      completion.id = id ∧ s.coordinator.pending.lookup id = some prompt ∧
      s.main.live = true ∧ s.main.recorded = none ∧ t.coordinator =
        s.coordinator.forget id prompt
          (completion.outcome.cacheAfter s.coordinator.promptCache prompt) := by
  have hsame : t.coordinator.pending = s.coordinator.pending →
      t.main.recorded = s.main.recorded → id ∈ t.promptIds := by
    intro hpending hrecorded
    rwa [promptIds_same hpending hrecorded]
  cases h with
  | control _ main bytes _ hrecorded _ hrecorded' =>
    exact .inl (hsame rfl (hrecorded'.trans hrecorded.symm))
  | handled event events tail result c w hmain _ hhandled =>
    rcases mem_promptIds.mp hid with ⟨prompt, hprompt⟩ | hid
    · rw [hmain] at hprompt
      cases hprompt
    · exact .inl (mem_promptIds.mpr (.inr ((hhandled.finished_keeps.2 id).mpr hid)))
  | sent event events tail job prompt c w hmain _ hhandled =>
    cases hhandled with
    | sending =>
      rcases mem_promptIds.mp hid with ⟨prompt, hprompt⟩ | hid
      · rw [hmain] at hprompt
        cases hprompt
      · exact .inl (mem_promptIds.mpr (.inr hid))
  | unsent event events tail job prompt c w error hmain _ hhandled =>
    cases hhandled with
    | sending => exact .inl (hsame rfl (by rw [hmain]; rfl))
  | recorded other prompt events tail hmain =>
    refine .inl (mem_promptIds.mpr (.inr ((AList.mem_insert _).mpr ?_)))
    rcases mem_promptIds.mp hid with ⟨prompt', hprompt⟩ | hid
    · rw [hmain] at hprompt
      exact .inl (Prod.mk.inj (Option.some.inj hprompt)).1.symm
    · exact .inr hid
  | completed closed ready completion completions result c w main hmain hcompletions hcompleted
      hmain' =>
    have hlive : s.main.live = true := by rw [hmain]; rfl
    have hrecorded : s.main.recorded = none := by rw [hmain]; rfl
    obtain ⟨prompt, hlookup, _, _, rfl, _⟩ :=
      (hconsistent.kept hlive).completed hrecorded hcompletions hcompleted
    rcases mem_promptIds.mp hid with ⟨prompt', hprompt⟩ | hid
    · cases hrecorded.symm.trans hprompt
    -- a completion takes its own prompt out of the map and no other
    · by_cases hsame : id = completion.id
      · subst hsame
        exact .inr (.inr ⟨completion, prompt, by rw [hcompletions]; exact List.mem_cons_self, rfl,
          hlookup, hlive, hrecorded, rfl⟩)
      · exact .inl (mem_promptIds.mpr (.inr (AList.mem_erase.mpr ⟨hsame, hid⟩)))
  | fellBack _ _ hmain => exact .inr (.inl hmain)
  | dropped => cases ht
  | joined => cases ht
  | received | resolved | notified | stopped => exact .inl hid

/-- A prompt is started for a key that is not cached. -/
theorem prepare_prompt_uncached {c c' : PromptCoordinator} {event : GuardEvent} {spec : PromptSpec}
    (h : prepareEventAction g c event = (.ok (.prompt spec), c')) :
    cachedPromptDecision c.promptCache spec.key = none := by
  have hcases := prepareEventAction_cases g c event
  generalize prepareEventAction g c event = prepared at h hcases
  cases hcases with
  | failed => cases (Prod.mk.inj h).1
  | unwatched => cases (Prod.mk.inj h).1
  | immediate => cases (Prod.mk.inj h).1
  | prompt evaluation spec scope hevaluation hnone hdecision hkey hauthorization =>
    obtain ⟨haction, rfl⟩ := Prod.mk.inj h
    cases haction
    rw [hkey]
    unfold immediateOf at hnone
    rw [hdecision] at hnone
    rcases immediatePromptDecision_cases g.requiresGraphicalSession c.promptCache
      evaluation.promptKey evaluation.authorization event.env spec.reason spec.defaultDecision scope
      with ⟨_, himm⟩ | ⟨_, ⟨_, _, himm⟩ | ⟨huncached, _⟩⟩
    · rw [himm] at hnone
      cases hnone
    · rw [himm] at hnone
      cases hnone
    · exact huncached

/-- What holds when a job is sent: its id is new, and its key is neither pending
nor cached. -/
structure NewJob (s t : GuardState) (job : PromptJob) : Prop where
  id : job.id = s.coordinator.nextId
  live : s.main.live = true
  notRecording : s.main.recorded = none
  uncached : cachedPromptDecision s.coordinator.promptCache job.key = none
  notPending : s.coordinator.pendingPromptId job.key = none
  answered : ∀ other outcome, .answered other outcome ∈ t.world.trace →
    .answered other outcome ∈ s.world.trace

theorem Stepped.unanswered (h : Stepped g s a t) (hjob : job ∈ t.unanswered) :
    job ∈ s.unanswered ∨ NewJob s t job := by
  cases h with
  | sent event events tail job' prompt c w hmain _ hhandled =>
    have hquiet := hhandled.quiet
    cases hhandled with
    | sending spec _ _ hprepared hkey _ hid =>
      rw [GuardState.unanswered, ← List.append_assoc, List.mem_append, List.mem_singleton] at hjob
      rcases hjob with hjob | rfl
      · exact .inl hjob
      · refine .inr ⟨hid.1, by rw [hmain]; rfl, by rw [hmain]; rfl, ?_, ?_, ?_⟩
        · rw [hid.2.1]
          exact prepare_prompt_uncached hprepared
        · rw [hid.2.1]
          exact hkey
        · intro other outcome hmem
          rcases List.mem_append.mp hmem with hmem | hmem
          · exact hquiet.answers _ _ hmem
          · cases List.mem_singleton.mp hmem
  | received job' jobs hworker hjobs =>
    refine .inl ?_
    rw [GuardState.unanswered, hworker, hjobs]
    exact hjob
  | resolved => exact .inl (List.mem_append_right _ hjob)
  | notified => exact .inl (List.mem_append_right _ hjob)
  | stopped => cases hjob
  | _ => exact .inl hjob

theorem Stepped.nextId_le (h : Stepped g s a t) :
    s.coordinator.nextId ≤ t.coordinator.nextId := by
  cases h with
  | handled event events tail result c w _ _ hhandled => exact hhandled.finished_keeps.1.ge
  | sent event events tail job prompt c w _ _ hhandled =>
    cases hhandled with
    | sending => exact Nat.le_succ _
  | unsent event events tail job prompt c w error _ _ hhandled =>
    cases hhandled with
    | sending => exact Nat.le_succ _
  | completed closed ready completion completions result c w main _ _ hcompleted =>
    cases hcompleted <;> exact le_rfl
  | _ => exact le_rfl

theorem Stepped.handed (h : Stepped g s a t) : s.world.handed <+: t.world.handed := by
  cases h with
  | handled event events tail result c w _ _ hhandled =>
    rw [hhandled.quiet.handed]
    exact List.prefix_append _ _
  | sent event events tail job prompt c w _ _ hhandled =>
    rw [World.handed_observe, hhandled.quiet.handed]
    exact List.prefix_append _ _
  | unsent event events tail job prompt c w error _ _ hhandled =>
    rw [handed_respondAndCloseEvent, hhandled.quiet.handed]
    exact List.prefix_append _ _
  | completed closed ready completion completions result c w main _ _ hcompleted =>
    rw [hcompleted.quiet.handed]
  | fellBack => rw [(failPrompts_quiet _ _ _).handed]
  | _ => exact List.prefix_rfl

theorem Stepped.trace (h : Stepped g s a t) : s.world.trace ⊆ t.world.trace := by
  cases h with
  | handled event events tail result c w _ _ hhandled => exact hhandled.quiet.subset
  | sent event events tail job prompt c w _ _ hhandled =>
    exact List.Subset.trans hhandled.quiet.subset (List.subset_append_left _ _)
  | unsent event events tail job prompt c w error _ _ hhandled =>
    exact List.Subset.trans hhandled.quiet.subset (respondAndCloseEvent_quiet _ _ _ _ _).subset
  | completed closed ready completion completions result c w main _ _ hcompleted =>
    exact hcompleted.quiet.subset
  | fellBack => exact (failPrompts_quiet _ _ _).subset
  | resolved => exact List.subset_append_left _ _
  | stopped => exact List.subset_append_left _ _
  | _ => exact List.Subset.refl _

theorem Stepped.stays_stopped (h : Stepped g s a t) (hs : s.worker.isStopped = true) :
    t.worker.isStopped = true := by
  cases h with
  | received _ _ hworker | resolved _ _ _ _ _ hworker | notified hworker =>
    rw [hworker] at hs
    cases hs
  | stopped => rfl
  | _ => exact hs

/-- Only the job the worker holds is answered. -/
theorem Stepped.answered (h : Stepped g s a t) (hmem : .answered job outcome ∈ t.world.trace) :
    .answered job outcome ∈ s.world.trace ∨ job ∈ s.unanswered := by
  have hheld : s.worker = .asking job → job ∈ s.unanswered := by
    intro hworker
    rw [GuardState.unanswered, hworker]
    exact List.mem_cons_self
  cases h with
  | handled event events tail result c w _ _ hhandled =>
    exact .inl (hhandled.quiet.answers _ _ hmem)
  | sent event events tail job' prompt c w _ _ hhandled =>
    rcases List.mem_append.mp hmem with hmem | hmem
    · exact .inl (hhandled.quiet.answers _ _ hmem)
    · cases List.mem_singleton.mp hmem
  | unsent event events tail job' prompt c w error _ _ hhandled =>
    have hmem := (respondAndCloseEvent_quiet _ _ _ _ _).answers _ _ hmem
    exact .inl (hhandled.quiet.answers _ _ hmem)
  | completed closed ready completion completions result c w main _ _ hcompleted =>
    exact .inl (hcompleted.quiet.answers _ _ hmem)
  | fellBack => exact .inl ((failPrompts_quiet _ _ _).answers _ _ hmem)
  | resolved job' current ask outcome' _ hworker =>
    rcases List.mem_append.mp hmem with hmem | hmem
    · exact .inl hmem
    · obtain ⟨rfl, -⟩ := Observation.answered.inj (List.mem_singleton.mp hmem)
      exact .inr (hheld hworker)
  | stopped _ panicked observed hobserved =>
    rcases List.mem_append.mp hmem with hmem | hmem
    · exact .inl hmem
    · obtain ⟨job', outcome', hworker, heq⟩ := hobserved _ hmem
      obtain ⟨rfl, -⟩ := Observation.answered.inj heq
      exact .inr (hheld hworker)
  | _ => exact .inl hmem

end

/-- No two jobs share an id, and an answer whose prompt is not completed is on
its way. -/
structure Tickets (s : GuardState) : Prop where
  nodup : s.tickets.Nodup
  fresh : ∀ id ∈ s.tickets, id < s.coordinator.nextId
  onItsWay : s.main.live = true → ∀ job outcome, (job, outcome) ∈ answers s.world.trace →
    job.id ∈ s.promptIds → ⟨job.id, outcome⟩ ∈ s.completions

section

variable {s t : GuardState} {job job' : PromptJob} {outcome outcome' : PromptOutcome}

theorem Tickets.unique (hs : Tickets s) (h : .answered job outcome ∈ s.world.trace)
    (h' : .answered job' outcome' ∈ s.world.trace) (hid : job.id = job'.id) :
    job = job' ∧ outcome = outcome' := by
  have hnodup : ((answers s.world.trace).map (·.1.id)).Nodup := hs.nodup.of_append_left
  exact Prod.mk.inj (List.inj_on_of_nodup_map hnodup (mem_answers.mpr h) (mem_answers.mpr h') hid)

theorem Tickets.not_answered (hs : Tickets s) (h : .answered job outcome ∈ s.world.trace)
    (h' : job' ∈ s.unanswered) : job.id ≠ job'.id := by
  have hdisjoint := List.disjoint_of_nodup_append hs.nodup
  intro hid
  refine hdisjoint (List.mem_map_of_mem (mem_answers.mpr h)) ?_
  rw [hid]
  exact List.mem_map_of_mem h'

/-- Steps that answer no job and send none. -/
theorem Tickets.advance {g : Guard} {a : Move} (hs : Tickets s) (h : Stepped g s a t)
    (hanswers : answers t.world.trace = answers s.world.trace)
    (hunanswered : t.unanswered.Sublist s.unanswered)
    (hlive : t.main.live = true → s.main.live = true)
    (hcompletions : t.main.live = true → ∀ completion ∈ s.completions,
      completion.id ∈ t.promptIds → completion ∈ t.completions) : Tickets t := by
  have hsub : t.tickets.Sublist s.tickets := by
    rw [GuardState.tickets, GuardState.tickets, hanswers]
    exact (hunanswered.map _).append_left _
  refine ⟨hs.nodup.sublist hsub, ?_, ?_⟩
  · intro id hid
    exact (hs.fresh id (hsub.subset hid)).trans_le h.nextId_le
  · intro ht job outcome hmem hid
    rw [hanswers] at hmem
    have hticket : job.id ∈ s.tickets :=
      List.mem_append_left _ (List.mem_map_of_mem (f := fun answer => answer.1.id) hmem)
    have hold : job.id ∈ s.promptIds := by
      refine (h.promptIds hid).resolve_right ?_
      intro hnew
      exact absurd (hs.fresh _ hticket) (by rw [hnew]; exact Nat.lt_irrefl _)
    exact hcompletions ht _ (hs.onItsWay (hlive ht) job outcome hmem hold) hid

end

/-- A job with a new id is sent. -/
theorem Tickets.send {s t : GuardState} (hs : Tickets s) {job : PromptJob}
    {prompt : PendingPrompt} (hid : job.id = s.coordinator.nextId)
    (hanswers : answers t.world.trace = answers s.world.trace)
    (hunanswered : t.unanswered = s.unanswered ++ [job])
    (hnext : t.coordinator.nextId = s.coordinator.nextId + 1)
    (hpending : t.coordinator.pending = s.coordinator.pending)
    (hrecorded : t.main.recorded = some (job.id, prompt)) (hlive : s.main.live = true)
    (hcompletions : t.completions = s.completions) : Tickets t := by
  have htickets : t.tickets = s.tickets ++ [job.id] := by
    rw [GuardState.tickets, hanswers, hunanswered, List.map_append, ← List.append_assoc]
    rfl
  refine ⟨?_, ?_, ?_⟩
  · rw [htickets, List.nodup_append]
    refine ⟨hs.nodup, List.nodup_singleton _, ?_⟩
    intro id hmem other hother
    rw [List.mem_singleton.mp hother, hid]
    exact (hs.fresh id hmem).ne
  · intro id hmem
    rw [htickets, List.mem_append, List.mem_singleton] at hmem
    rw [hnext]
    rcases hmem with hmem | rfl
    · exact (hs.fresh id hmem).trans (Nat.lt_succ_self _)
    · rw [hid]
      exact Nat.lt_succ_self _
  · intro _ job' outcome hmem hprompt
    rw [hanswers] at hmem
    have hticket : job'.id ∈ s.tickets :=
      List.mem_append_left _ (List.mem_map_of_mem (f := fun answer => answer.1.id) hmem)
    rw [mem_promptIds, hrecorded, hpending] at hprompt
    rw [hcompletions]
    rcases hprompt with ⟨prompt', hnew⟩ | hprompt
    · -- an answered job has an older id
      have hlt := hs.fresh _ hticket
      rw [← (Prod.mk.inj (Option.some.inj hnew)).1, hid] at hlt
      exact absurd hlt (Nat.lt_irrefl _)
    · exact hs.onItsWay hlive job' outcome hmem (mem_promptIds.mpr (.inr hprompt))

/-- The worker answers the job it holds. -/
theorem Tickets.answer {s t : GuardState} (hs : Tickets s) {job : PromptJob}
    {outcome : PromptOutcome} (hworker : s.worker = .asking job)
    (hanswers : answers t.world.trace = answers s.world.trace ++ [(job, outcome)])
    (hunanswered : t.unanswered.Sublist s.jobs)
    (hcoordinator : t.coordinator = s.coordinator) (hmain : t.main = s.main)
    (hcompletions : s.main.live = true → t.completions = s.completions ++ [⟨job.id, outcome⟩]) :
    Tickets t := by
  have hheld : s.unanswered = [job] ++ s.jobs := by
    rw [GuardState.unanswered, hworker]
    rfl
  have hsub : t.tickets.Sublist s.tickets := by
    rw [GuardState.tickets, GuardState.tickets, hanswers, hheld, List.map_append, List.map_append,
      List.append_assoc]
    exact ((hunanswered.map _).append_left _).append_left _
  refine ⟨hs.nodup.sublist hsub, ?_, ?_⟩
  · intro id hid
    rw [hcoordinator]
    exact hs.fresh id (hsub.subset hid)
  · intro hlive job' outcome' hmem hid
    rw [hmain] at hlive
    have hsame : t.promptIds = s.promptIds := promptIds_same (by rw [hcoordinator]) (by rw [hmain])
    rw [hsame] at hid
    rw [hanswers, List.mem_append, List.mem_singleton] at hmem
    rw [hcompletions hlive, List.mem_append, List.mem_singleton]
    rcases hmem with hmem | hnew
    · exact .inl (hs.onItsWay hlive job' outcome' hmem hid)
    · obtain ⟨rfl, rfl⟩ := Prod.mk.inj hnew
      exact .inr rfl

theorem tickets_step {g : Guard} {s t : GuardState} {a : Move} (hconsistent : Consistent g s)
    (hs : Tickets s) (h : s.step g a = some t) : Tickets t := by
  by_cases ha : ∃ current askAnswer, a = .workerResolve current askAnswer
  · obtain ⟨current, askAnswer, rfl⟩ := ha
    obtain ⟨job, outcome, hworker, _, ⟨hlive, rfl⟩ | ⟨hdead, rfl⟩⟩ := workerResolve_cases h
    · exact hs.answer hworker (answers_append _ _) (List.Sublist.refl _) rfl rfl (fun _ => rfl)
    · refine hs.answer hworker (answers_append _ _) (List.nil_sublist _) rfl rfl ?_
      intro hlive
      exact absurd (hdead.symm.trans hlive) Bool.false_ne_true
  · have hanswers := answers_step (fun current askAnswer heq => ha ⟨current, askAnswer, heq⟩) h
    have hinv := step_inv h
    have hlive : t.main.live = true → s.main.live = true := live_of_stepped hinv
    have hadvance := fun hunanswered => hs.advance hinv hanswers hunanswered hlive
    cases hinv with
    | sent event events tail job prompt c w hmain _ hhandled =>
      cases hhandled with
      | sending spec _ _ _ _ _ hjob =>
        exact hs.send hjob.1 hanswers (List.append_assoc _ _ _).symm rfl rfl rfl
          (by rw [hmain]; rfl) rfl
    | completed closed ready completion completions result c w main hmain hcompletions hcompleted
        hmain' =>
      have hrecorded : s.main.recorded = none := by rw [hmain]; rfl
      have hrecorded' : main.recorded = none := recorded_of_completed hmain'
      obtain ⟨prompt, hid, _, _, rfl, _⟩ :=
        (hconsistent.kept (by rw [hmain]; rfl)).completed hrecorded hcompletions hcompleted
      refine hadvance (List.Sublist.refl _) ?_
      -- only the completion of the prompt that leaves the map is taken
      intro _ other hother hid
      rcases mem_promptIds.mp hid with ⟨_, hprompt⟩ | hid
      · cases hrecorded'.symm.trans hprompt
      · rw [hcompletions, List.mem_cons] at hother
        refine hother.resolve_left ?_
        rintro rfl
        exact (AList.mem_erase.mp hid).1 rfl
    | dropped => exact hadvance (List.Sublist.refl _) nofun
    | received job jobs hworker hjobs =>
      refine hadvance ?_ (fun _ _ h _ => h)
      rw [GuardState.unanswered, GuardState.unanswered, hworker, hjobs]
      exact List.Sublist.refl _
    | resolved job current ask outcome => exact absurd ⟨current, ask, rfl⟩ ha
    | notified hworker =>
      refine hadvance ?_ (fun _ _ h _ => h)
      rw [GuardState.unanswered, GuardState.unanswered, hworker]
      exact List.Sublist.refl _
    | stopped => exact hadvance (List.nil_sublist _) (fun _ _ h _ => h)
    | _ => exact hadvance (List.Sublist.refl _) (fun _ _ h _ => h)

theorem tickets_initial : Tickets .initial := by
  refine ⟨List.nodup_nil, ?_, ?_⟩
  · intro id hid
    cases hid
  · intro _ job outcome hmem
    cases hmem

theorem tickets_reachable {g : Guard} {s : GuardState} {P : GuardState → Move → Prop}
    (h : Reachable (guardRun g) P s) : Tickets s := by
  refine h.invariant_with (J := Consistent g) (fun _ hr => consistent_reachable hr) ?_ ?_
  · rintro _ rfl
    exact tickets_initial
  · intro s a t hconsistent _ hs _ hstep
    exact tickets_step hconsistent hs hstep

end ConfigGuard
