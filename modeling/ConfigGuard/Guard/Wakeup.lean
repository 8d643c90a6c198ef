import ConfigGuard.Guard.Delivery

/-!
# Waking the loop

The worker sends a completion and then writes a byte; the loop drains the bytes
and then the completions. In no interleaving does a completion wait behind a
poll that nothing ends.
-/

namespace ConfigGuard
open OsPath Transition

/-- Between two polls the loop is past the draining, or has not begun it. -/
def MainPc.attentive : MainPc → Bool
  | polling | reading | serving _ _ | recording _ _ _ _ => true
  | _ => false

/-- The wake byte the worker is about to write. -/
def WorkerPc.owedBytes : WorkerPc → Nat
  | notifying => 1
  | _ => 0

/-- Each completion in the channel has its byte in the socket, or the worker is
about to write it. -/
def Noted (s : GuardState) : Prop :=
  s.main.attentive = true → s.completions.length ≤ s.wakeBytes + s.worker.owedBytes

/-- The step is no failed write of a wake byte. -/
def wakesLoop (s : GuardState) (a : Move) : Bool :=
  match a, s.worker with
  | .workerFail, .notifying => false
  | _, _ => true

theorem live_of_attentive {main : MainPc} (h : main.attentive = true) : main.live = true := by
  cases main with
  | joining | returned => cases h
  | _ => rfl

section

variable {g : Guard} {s t : GuardState} {a : Move}

/-- The main thread reaches its next poll with the bytes and completions it had,
or without a completion. -/
theorem attentive_main_move (ha : a.byWorker = false) (h : s.step g a = some t)
    (ht : t.main.attentive = true) :
    s.main.attentive = true ∧ t.wakeBytes = s.wakeBytes ∧ t.completions = s.completions ∨
      t.completions = [] := by
  cases a with
  | workerRecv | workerResolve | workerNotify | workerFail => cases ha
  | tryRecv =>
    -- the draining ends with an empty channel
    simp only [GuardState.step, GuardState.tryRecv] at h
    grind [MainPc.attentive]
  | handle =>
    simp only [GuardState.step, GuardState.handle] at h
    grind [MainPc.attentive]
  | _ =>
    simp only [GuardState.step, GuardState.poll, GuardState.readWake, GuardState.failPending,
      GuardState.endBatch, GuardState.record, GuardState.drop, GuardState.join] at h
    grind [MainPc.attentive]

theorem noted_worker_move (hs : Noted s) (ha : a.byWorker = true) (hwrite : wakesLoop s a = true)
    (h : s.step g a = some t) : Noted t := by
  intro ht
  cases a with
  | workerRecv =>
    simp only [GuardState.step, GuardState.workerRecv] at h
    split at h
    · rename_i job jobs hworker hjobs
      obtain rfl := Option.some.inj h
      have hbytes := hs ht
      rw [hworker] at hbytes
      exact hbytes
    · rename_i hworker hjobs
      split at h
      · cases h
      · obtain rfl := Option.some.inj h
        have hbytes := hs ht
        rw [hworker] at hbytes
        exact hbytes
    · cases h
  | workerResolve current askAnswer =>
    -- one more completion, and the byte for it is owed
    obtain ⟨job, outcome, hworker, _, ⟨_, rfl⟩ | ⟨_, rfl⟩⟩ := workerResolve_cases h
    · have hbytes := hs ht
      rw [hworker] at hbytes
      rw [List.length_append]
      exact Nat.succ_le_succ hbytes
    · have hbytes := hs ht
      rw [hworker] at hbytes
      exact hbytes
  | workerNotify =>
    simp only [GuardState.step, GuardState.workerNotify] at h
    split at h
    · rename_i hworker
      split at h
      · obtain rfl := Option.some.inj h
        have hbytes := hs ht
        rw [hworker] at hbytes
        exact hbytes
      · rename_i hdead
        obtain rfl := Option.some.inj h
        exact absurd (live_of_attentive ht) hdead
    · cases h
  | workerFail =>
    simp only [GuardState.step, GuardState.workerFail] at h
    split at h
    · rename_i job hworker
      obtain rfl := Option.some.inj h
      have hbytes := hs ht
      rw [hworker] at hbytes
      exact hbytes
    · rename_i hworker
      simp only [wakesLoop, hworker, Bool.false_eq_true] at hwrite
    · cases h
  | _ => cases ha

theorem noted_step (hs : Noted s) (hwrite : wakesLoop s a = true) (h : s.step g a = some t) :
    Noted t := by
  cases hworker : a.byWorker with
  | true => exact noted_worker_move hs hworker hwrite h
  | false =>
    intro ht
    rcases attentive_main_move hworker h ht with ⟨hattentive, hbytes, hcompletions⟩ | hempty
    · rw [hbytes, hcompletions, worker_of_main_move hworker h]
      exact hs hattentive
    · rw [hempty]
      exact Nat.zero_le _

/-- A byte that cannot be written stops the worker, for good. -/
theorem noted_or_stopped_step (hs : Noted s ∨ s.worker.isStopped = true)
    (h : s.step g a = some t) : Noted t ∨ t.worker.isStopped = true := by
  rcases hs with hs | hstopped
  · by_cases hwrite : wakesLoop s a = true
    · exact .inl (noted_step hs hwrite h)
    · refine .inr ?_
      cases a with
      | workerFail =>
        simp only [GuardState.step, GuardState.workerFail] at h
        split at h
        · rw [← Option.some.inj h]
          rfl
        · rw [← Option.some.inj h]
          rfl
        · cases h
      | _ => exact absurd rfl hwrite
  · exact .inr ((step_inv h).stays_stopped hstopped)

end

theorem noted_initial : Noted .initial := fun _ => Nat.le_refl 0

theorem noted_reachable {g : Guard} {s : GuardState}
    (h : Reachable (guardRun g) (fun s a => wakesLoop s a = true) s) : Noted s := by
  refine h.invariant ?_ ?_
  · rintro _ rfl
    exact noted_initial
  · intro s a t hs hwrite hstep
    exact noted_step hs hwrite hstep

theorem noted_or_stopped_reachable {g : Guard} {s : GuardState}
    {P : GuardState → Move → Prop} (h : Reachable (guardRun g) P s) :
    Noted s ∨ s.worker.isStopped = true := by
  refine h.invariant (I := fun s => Noted s ∨ s.worker.isStopped = true) ?_ ?_
  · rintro _ rfl
    exact .inl noted_initial
  · intro s a t hs _ hstep
    exact noted_or_stopped_step hs hstep

/-- A completion that waits has its byte, or the worker owes it. -/
theorem Noted.wakes {s : GuardState} (hs : Noted s) (hmain : s.main = .polling)
    (hcompletions : s.completions ≠ []) : s.wakeBytes ≠ 0 ∨ s.worker = .notifying := by
  have hbytes := hs (by rw [hmain]; rfl)
  have hpositive : 0 < s.completions.length := List.length_pos_of_ne_nil hcompletions
  cases hworker : s.worker with
  | notifying => exact .inr rfl
  | idle | asking | stopped =>
    have howed : s.worker.owedBytes = 0 := by rw [hworker]; rfl
    rw [howed] at hbytes
    exact .inl (by omega)

/-- Before the fallback, every answer has reached all events queued for its job. -/
theorem applied_of_failing {g : Guard} {s : GuardState} (h : Reachable (guardRun g) anyStep s)
    (hmain : s.main = .failing) {job : PromptJob} {outcome : PromptOutcome}
    (hanswered : .answered job outcome ∈ s.world.trace) :
    job.id ∉ s.promptIds ∧ ∀ e event, .queued (some e) job.id ∈ s.world.trace →
      s.world.handed[e]? = some event → isPermissionEvent event.mask = true →
      ∃ d ok, .responded (some e) d ok ∈ s.world.trace ∧ Gives g s.world e d outcome := by
  have htickets := tickets_reachable h
  have hnot : job.id ∉ s.promptIds := by
    intro hmem
    exact not_answered_of_failing (consistent_reachable h) htickets hmain hmem job outcome rfl
      hanswered
  have hdone : s.Done job.id := .inl ⟨by rw [hmain]; rfl, hnot⟩
  refine ⟨hnot, ?_⟩
  intro e event hqueued hget hmask
  obtain ⟨d, ok, hresponse⟩ := responded_of_done h hqueued hdone hget hmask
  exact ⟨d, ok, hresponse,
    ((delivered_reachable h).decided e job.id d ok hqueued hresponse).gives htickets hanswered⟩

/-- In a run in which every wake byte can be written, a loop about to poll while
a completion waits finds its byte, or the worker is about to write it. In every
run there is one more case: the write failed, and the stopped worker has closed
its end of the socket. So a poll that a completion waits behind blocks only
until the worker has written its byte. When the pending prompts are to fall
back, every answer has been applied to the events queued for it. -/
theorem completions_wake_loop (g : Guard) (s : GuardState) :
    (Reachable (guardRun g) (fun s a => wakesLoop s a = true) s →
      s.main = .polling → s.completions ≠ [] → s.wakeBytes ≠ 0 ∨ s.worker = .notifying) ∧
    (Reachable (guardRun g) anyStep s →
      (s.main = .polling → s.completions ≠ [] →
        (s.wakeBytes ≠ 0 ∨ s.worker = .notifying ∨ s.worker.isStopped = true) ∧
        (s.poll false = none → s.worker = .notifying)) ∧
      (s.main = .failing → s.completions = [] ∧
        ∀ job outcome, .answered job outcome ∈ s.world.trace →
          job.id ∉ s.promptIds ∧
          ∀ e event, .queued (some e) job.id ∈ s.world.trace → s.world.handed[e]? = some event →
            isPermissionEvent event.mask = true →
            ∃ d ok, .responded (some e) d ok ∈ s.world.trace ∧ Gives g s.world e d outcome)) := by
  refine ⟨fun h hmain hcompletions => (noted_reachable h).wakes hmain hcompletions, ?_⟩
  intro h
  constructor
  · intro hmain hcompletions
    have hcases : s.wakeBytes ≠ 0 ∨ s.worker = .notifying ∨ s.worker.isStopped = true := by
      rcases noted_or_stopped_reachable h with hnoted | hstopped
      · exact (hnoted.wakes hmain hcompletions).imp_right .inl
      · exact .inr (.inr hstopped)
    refine ⟨hcases, ?_⟩
    intro hblocked
    by_contra hworker
    have hready : s.wakeBytes ≠ 0 ∨ s.worker.isStopped = true :=
      hcases.imp_right fun hcase => hcase.resolve_left hworker
    rw [GuardState.poll, hmain] at hblocked
    simp only [if_pos hready] at hblocked
    cases hblocked
  · intro hmain
    refine ⟨(consistent_reachable h).gone.drained hmain, ?_⟩
    intro job outcome hanswered
    exact applied_of_failing h hmain hanswered

/-- The prompt of `asked` is answered while the loop is about to poll. -/
def answerWaits : GuardState :=
  runFrom (guardRun piGuard) (fun s a => wakesLoop s a = true) .initial (askedMoves ++
    [.endBatch, .workerResolve (fun _ _ => true) (fun _ => .ok (.explicit .allow)), .workerNotify])

/-- The prompt is answered, the byte for it is not written, and the loop gets
to its next poll. -/
def unwritten : GuardState :=
  runFrom (guardRun piGuard) anyStep .initial (askedMoves ++
    [.workerResolve (fun _ _ => true) (fun _ => .ok (.explicit .allow)), .workerFail, .endBatch])

/-- The loop has then drained the completion and seen that the worker is gone. -/
def drained : GuardState :=
  runFrom (guardRun piGuard) anyStep unwritten [.poll false, .readWake, .tryRecv, .tryRecv]

theorem unwritten_reachable : Reachable (guardRun piGuard) anyStep unwritten :=
  ⟨.initial, rfl, runFrom_steps (by decide)⟩

theorem completions_wake_loop_answers :
    (answerWaits.wakeBytes ≠ 0 ∨ answerWaits.worker = .notifying) ∧
      (unwritten.wakeBytes ≠ 0 ∨ unwritten.worker = .notifying ∨
        unwritten.worker.isStopped = true) ∧
      drained.completions = [] :=
  ⟨(completions_wake_loop piGuard answerWaits).1 ⟨.initial, rfl, runFrom_steps (by decide)⟩ rfl
      (List.cons_ne_nil _ _),
    (((completions_wake_loop piGuard unwritten).2 unwritten_reachable).1 rfl
      (List.cons_ne_nil _ _)).1,
    (((completions_wake_loop piGuard drained).2
      (unwritten_reachable.steps (runFrom_steps (by decide)))).2 rfl).1⟩

theorem completion_without_byte :
    ¬ ∀ (g : Guard) (s : GuardState), Reachable (guardRun g) anyStep s → s.main = .polling →
      s.completions ≠ [] → s.wakeBytes ≠ 0 ∨ s.worker = .notifying := by
  intro h
  rcases h piGuard unwritten unwritten_reachable rfl (List.cons_ne_nil _ _) with hbytes | hworker
  · exact hbytes rfl
  · cases hworker

end ConfigGuard
