import ConfigGuard.Guard.Delivery
import ConfigGuard.Guard.Wakeup
import ConfigGuard.Library.Ranking

/-!
# The guard comes to rest

Without new events the two threads have a bounded number of steps left, however
they take turns, and where they have none the loop has returned or waits for
events with nothing pending.
-/

namespace ConfigGuard
open OsPath Transition

namespace Move

/-- New events come in. -/
def arrives : Move → Bool
  | poll fanotifyReady => fanotifyReady
  | readBatch events _ => !events.isEmpty
  | _ => false

/-- The steps the two threads take by themselves, where nothing fails. -/
def own : Move → Bool
  | poll fanotifyReady => !fanotifyReady
  | readWake | tryRecv | failPending _ | handle | endBatch | record | drop | join | workerRecv
    | workerResolve _ _ | workerNotify => true
  | pollError _ | wakeError _ | readBatch _ _ | readError _ | workerFail => false

theorem arrives_of_own {a : Move} (h : a.own = true) : a.arrives = false := by
  cases a with
  | poll fanotifyReady => simpa [own, arrives] using h
  | readBatch => cases h
  | _ => rfl

end Move

def WorkerPc.rank : WorkerPc → Nat
  | idle => 1
  | asking _ => 11
  | notifying => 9
  | stopped _ => 0

/-- What a poll is for: a byte that waits, or a worker that has stopped. -/
def alarm (wakeBytes : Nat) (stopped : Bool) : Nat :=
  if wakeBytes ≠ 0 ∨ stopped = true then 5 else 0

/-- How far the main thread is from its next poll, with a round of draining to come
where a poll finds one to be made, and the events of its batch. -/
def MainPc.rank (wakeBytes : Nat) (stopped : Bool) : MainPc → Nat
  | returned _ => 0
  | joining _ => 1
  | failed _ => 2
  | failing => 3
  | polling => 4 + alarm wakeBytes stopped
  | serving events _ => 5 + alarm wakeBytes stopped + 14 * events.length
  | recording _ _ events _ => 6 + alarm wakeBytes stopped + 14 * events.length
  | reading => 6 + alarm wakeBytes stopped
  | drainingCompletions _ _ => 7 + if wakeBytes ≠ 0 then 5 else 0
  | drainingWake _ _ => 8

def GuardState.rank (s : GuardState) : Nat :=
  s.main.rank s.wakeBytes s.worker.isStopped + 12 * s.jobs.length + s.worker.rank +
    s.completions.length + s.wakeBytes

theorem alarm_le (wakeBytes : Nat) (stopped : Bool) : alarm wakeBytes stopped ≤ 5 := by
  rw [alarm]
  split <;> omega

/-- A worker that is heard of causes one more round of draining. -/
theorem MainPc.rank_le (main : MainPc) (wakeBytes wakeBytes' : Nat) (stopped stopped' : Bool) :
    main.rank wakeBytes stopped ≤ main.rank wakeBytes' stopped' + 5 := by
  have halarm := alarm_le wakeBytes stopped
  cases main <;> simp only [MainPc.rank] <;> first | omega | (split <;> omega)

section

variable {g : Guard} {s t : GuardState}

theorem rank_poll (h : s.poll false = some t) : t.rank < s.rank := by
  unfold GuardState.poll at h
  split at h
  · rename_i hmain
    split at h
    · rename_i halarm
      rw [← Option.some.inj h]
      simp only [GuardState.rank, MainPc.rank, hmain, alarm, if_pos halarm]
      omega
    · cases h
  · cases h

theorem rank_readWake (h : s.readWake = some t) : t.rank < s.rank := by
  unfold GuardState.readWake at h
  split at h
  · rename_i hmain
    split at h
    · rename_i hbytes
      rw [← Option.some.inj h]
      simp only [GuardState.rank, MainPc.rank, hmain, wakeBufferSize]
      omega
    · rename_i hbytes
      rw [← Option.some.inj h]
      simp only [GuardState.rank, MainPc.rank, hmain, if_neg hbytes]
      omega
  · cases h

theorem rank_tryRecv (h : s.tryRecv g = some t) : t.rank < s.rank := by
  unfold GuardState.tryRecv at h
  split at h
  · rename_i closed ready hmain
    split at h
    · rename_i completion completions hcompletions
      -- the completion is used up, whatever comes of it
      generalize s.coordinator.completePrompt g.io s.world completion = completed at h
      obtain ⟨result, c, w⟩ := completed
      rw [← Option.some.inj h]
      cases result with
      | ok =>
        simp only [GuardState.rank, MainPc.rank, hmain, hcompletions, List.length_cons]
        omega
      | error error =>
        simp only [GuardState.rank, MainPc.rank, hmain, hcompletions, List.length_cons]
        omega
    · rename_i hcompletions
      rw [← Option.some.inj h]
      simp only [GuardState.rank, MainPc.rank, hmain, hcompletions]
      cases hclosed : closed || s.worker.isStopped with
      | true =>
        simp only [if_true]
        omega
      | false =>
        have hworker : s.worker.isStopped = false := (Bool.or_eq_false_iff.mp hclosed).2
        have halarm : alarm s.wakeBytes s.worker.isStopped = if s.wakeBytes ≠ 0 then 5 else 0 := by
          simp [alarm, hworker]
        cases ready with
        | true =>
          simp only [Bool.false_eq_true, if_false, MainPc.afterCompletions, if_true, halarm]
          omega
        | false =>
          simp only [Bool.false_eq_true, if_false, MainPc.afterCompletions, halarm]
          omega
  · cases h

theorem rank_failPending {order : List PromptId} (h : s.failPending g order = some t) :
    t.rank < s.rank := by
  unfold GuardState.failPending at h
  split at h
  · rename_i hmain
    split at h
    · rw [← Option.some.inj h]
      simp only [GuardState.rank, MainPc.rank, hmain]
      omega
    · cases h
  · cases h

theorem rank_handle (h : s.handle g = some t) : t.rank < s.rank := by
  unfold GuardState.handle at h
  split at h
  · rename_i event events tail hmain
    split at h
    · split at h
      · rename_i result c w _
        rw [← Option.some.inj h]
        simp only [GuardState.rank, MainPc.rank, hmain, List.length_cons]
        cases result with
        | ok =>
          simp only [MainPc.afterEvent]
          omega
        | error error =>
          simp only [MainPc.afterEvent]
          omega
      · split at h
        · rw [← Option.some.inj h]
          simp only [GuardState.rank, MainPc.rank, hmain, List.length_cons]
          omega
        · -- the event is traded for a job
          rw [← Option.some.inj h]
          simp only [GuardState.rank, MainPc.rank, hmain, List.length_cons,
            List.length_append, List.length_nil]
          omega
    · cases h
  · cases h

theorem rank_record (h : s.record = some t) : t.rank < s.rank := by
  unfold GuardState.record at h
  split at h
  · rename_i hmain
    rw [← Option.some.inj h]
    simp only [GuardState.rank, MainPc.rank, hmain]
    omega
  · cases h

theorem rank_endBatch (h : s.endBatch = some t) : t.rank < s.rank := by
  unfold GuardState.endBatch at h
  split at h
  · rename_i hmain
    rw [← Option.some.inj h]
    simp only [GuardState.rank, MainPc.rank, hmain]
    omega
  · rename_i hmain
    rw [← Option.some.inj h]
    simp only [GuardState.rank, MainPc.rank, hmain]
    omega
  · cases h

theorem rank_drop (h : s.drop = some t) : t.rank < s.rank := by
  unfold GuardState.drop at h
  split at h
  · rename_i hmain
    rw [← Option.some.inj h]
    simp only [GuardState.rank, MainPc.rank, hmain, List.length_nil]
    omega
  · cases h

theorem rank_join (h : s.join = some t) : t.rank < s.rank := by
  unfold GuardState.join at h
  split at h
  · rename_i hmain _
    rw [← Option.some.inj h]
    simp only [GuardState.rank, MainPc.rank, hmain]
    omega
  · cases h

theorem WorkerPc.rank_pos {worker : WorkerPc} (h : worker.isStopped = false) : 0 < worker.rank := by
  cases worker with
  | stopped => cases h
  | idle | asking | notifying => exact Nat.succ_pos _

theorem rank_stopWorker (panicked : Bool) (hstopped : s.worker.isStopped = false)
    (hworker : s.main.live = false ∨ 5 < s.worker.rank) :
    (s.stopWorker panicked).rank < s.rank := by
  have hworkerRank := WorkerPc.rank_pos hstopped
  have hmainRank := s.main.rank_le s.wakeBytes s.wakeBytes true s.worker.isStopped
  have hzero : (WorkerPc.stopped panicked).rank = 0 := rfl
  have hends : (WorkerPc.stopped panicked).isStopped = true := rfl
  simp only [GuardState.rank, GuardState.stopWorker, List.length_nil]
  rw [hends, hzero]
  rcases hworker with hlive | hworker
  · have hsame : s.main.rank s.wakeBytes true = s.main.rank s.wakeBytes s.worker.isStopped := by
      cases hmain : s.main with
      | joining | returned => rfl
      | _ =>
        rw [hmain] at hlive
        cases hlive
    rw [hsame]
    omega
  · omega

theorem rank_workerRecv (h : s.workerRecv = some t) : t.rank < s.rank := by
  unfold GuardState.workerRecv at h
  split at h
  · rename_i job jobs hworker hjobs
    rw [← Option.some.inj h]
    simp only [GuardState.rank, hworker, hjobs, WorkerPc.rank, WorkerPc.isStopped, List.length_cons]
    omega
  · rename_i hworker _
    split at h
    · cases h
    · rename_i hlive
      rw [← Option.some.inj h]
      exact rank_stopWorker false (by rw [hworker]; rfl) (.inl (Bool.eq_false_iff.mpr hlive))
  · cases h

theorem rank_workerResolve {current : Int → Nat → Bool}
    {askAnswer : PromptRequest → Except String PromptAnswer}
    (h : s.workerResolve g current askAnswer = some t) : t.rank < s.rank := by
  unfold GuardState.workerResolve at h
  split at h
  · rename_i job hworker
    dsimp only at h
    split at h
    · rw [← Option.some.inj h]
      simp only [GuardState.rank, hworker, WorkerPc.rank, WorkerPc.isStopped, List.length_append,
        List.length_cons, List.length_nil]
      omega
    · rename_i hlive
      rw [← Option.some.inj h]
      exact rank_stopWorker (s := { s with world := _ }) false (by dsimp only; rw [hworker]; rfl)
        (.inl (Bool.eq_false_iff.mpr hlive))
  · cases h

theorem rank_workerNotify (h : s.workerNotify = some t) : t.rank < s.rank := by
  unfold GuardState.workerNotify at h
  split at h
  · rename_i hworker
    split at h
    · rw [← Option.some.inj h]
      have hmainRank := s.main.rank_le (s.wakeBytes + 1) s.wakeBytes false s.worker.isStopped
      simp only [GuardState.rank, hworker, WorkerPc.rank, WorkerPc.isStopped] at hmainRank ⊢
      omega
    · rename_i hlive
      rw [← Option.some.inj h]
      exact rank_stopWorker false (by rw [hworker]; rfl) (.inl (Bool.eq_false_iff.mpr hlive))
  · cases h

theorem rank_workerFail (h : s.workerFail = some t) : t.rank < s.rank := by
  unfold GuardState.workerFail at h
  split at h
  · rename_i hworker
    rw [← Option.some.inj h]
    exact rank_stopWorker true (by rw [hworker]; rfl) (.inr (by rw [hworker, WorkerPc.rank]; omega))
  · rename_i hworker
    rw [← Option.some.inj h]
    exact rank_stopWorker false (by rw [hworker]; rfl) (.inr (by rw [hworker, WorkerPc.rank]; omega))
  · cases h

/-- Every step but the arrival of events uses up some of the rank. -/
theorem rank_step {a : Move} (ha : a.arrives = false) (h : s.step g a = some t) :
    t.rank < s.rank := by
  have hfails : ∀ error, 2 < s.main.rank s.wakeBytes s.worker.isStopped →
      { s with main := .failed error }.rank < s.rank := by
    intro error hmain
    simp only [GuardState.rank, MainPc.rank] at hmain ⊢
    omega
  cases a with
  | poll fanotifyReady =>
    obtain rfl : fanotifyReady = false := ha
    exact rank_poll h
  | pollError error =>
    simp only [GuardState.step] at h
    split at h
    · rename_i hmain
      rw [← Option.some.inj h]
      exact hfails _ (by rw [hmain, MainPc.rank]; omega)
    · cases h
  | readWake => exact rank_readWake h
  | wakeError error =>
    simp only [GuardState.step] at h
    split at h
    · rename_i hmain
      rw [← Option.some.inj h]
      exact hfails _ (by rw [hmain, MainPc.rank]; omega)
    · cases h
  | tryRecv => exact rank_tryRecv h
  | failPending order => exact rank_failPending h
  | readBatch events tail =>
    simp only [GuardState.step] at h
    split at h
    · rename_i hmain
      obtain rfl : events = [] := by simpa [Move.arrives] using ha
      rw [← Option.some.inj h]
      simp only [GuardState.rank, MainPc.rank, hmain, List.length_nil]
      omega
    · cases h
  | readError error =>
    simp only [GuardState.step] at h
    split at h
    · rename_i hmain
      rw [← Option.some.inj h]
      exact hfails _ (by rw [hmain, MainPc.rank]; omega)
    · cases h
  | handle => exact rank_handle h
  | endBatch => exact rank_endBatch h
  | record => exact rank_record h
  | drop => exact rank_drop h
  | join => exact rank_join h
  | workerRecv => exact rank_workerRecv h
  | workerResolve current askAnswer => exact rank_workerResolve h
  | workerNotify => exact rank_workerNotify h
  | workerFail => exact rank_workerFail h

/-- Nothing is pending: every event that was queued for a prompt and asks for an answer
has been answered. -/
structure AtRest (s : GuardState) : Prop where
  main : s.main = .polling
  worker : s.worker = .idle
  jobs : s.jobs = []
  completions : s.completions = []
  wakeBytes : s.wakeBytes = 0
  pending : s.coordinator.pending = ∅
  pendingByKey : s.coordinator.pendingByKey = ∅
  answered : ∀ e id event, .queued (some e) id ∈ s.world.trace → s.world.handed[e]? = some event →
    isPermissionEvent event.mask = true → ∃ d ok, .responded (some e) d ok ∈ s.world.trace

/-- The loop has returned, or waits for the kernel: for the events that a poll has announced, for
an event under a descriptor that is not in use, or for new events. -/
inductive Waits (s : GuardState) : Prop
  | returned (error : GuardError) (hmain : s.main = .returned error)
  | reading (hmain : s.main = .reading)
  | occupied (event : GuardEvent) (events : List GuardEvent) (tail : Except String Unit)
      (hmain : s.main = .serving (event :: events) tail)
      (hused : s.world.descriptorIsFree event = false)
  | atRest (hrest : AtRest s)

/-- A worker without a step waits for jobs or has stopped. -/
theorem worker_waits (hnone : ∀ a : Move, a.own = true → s.step g a = none) :
    s.worker = .idle ∧ s.jobs = [] ∧ s.main.live = true ∨ s.worker.isStopped = true := by
  cases hworker : s.worker with
  | stopped => exact .inr rfl
  | idle =>
    have hrecv := hnone .workerRecv rfl
    simp only [GuardState.step, GuardState.workerRecv, hworker] at hrecv
    left
    split at hrecv
    · cases hrecv
    · rename_i hjobs
      split at hrecv
      · rename_i hlive
        exact ⟨rfl, hjobs, hlive⟩
      · cases hrecv
    · rename_i hnil hcons
      cases hjobs : s.jobs with
      | nil => exact absurd hjobs (hcons rfl)
      | cons job jobs => exact absurd hjobs (hnil job jobs rfl)
  | asking job =>
    have hresolve := hnone (.workerResolve (fun _ _ => true) fun _ => .error "") rfl
    simp only [GuardState.step, GuardState.workerResolve, hworker] at hresolve
    split at hresolve <;> cases hresolve
  | notifying =>
    have hnotify := hnone .workerNotify rfl
    simp only [GuardState.step, GuardState.workerNotify, hworker] at hnotify
    split at hnotify <;> cases hnotify

theorem atRest_of_quiet (h : Reachable (guardRun g) anyStep s) (hmain : s.main = .polling)
    (hworker : s.worker = .idle) (hjobs : s.jobs = []) (hbytes : s.wakeBytes = 0) : AtRest s := by
  have hconsistent := consistent_reachable h
  have hkept := hconsistent.kept (by rw [hmain]; rfl)
  have hstopped : s.worker.isStopped = false := by rw [hworker]; rfl
  have hcompletions : s.completions = [] := by
    by_contra hne
    rcases noted_or_stopped_reachable h with hnoted | hgone
    · rcases hnoted.wakes hmain hne with hwakes | hnotifying
      · exact hwakes hbytes
      · cases hworker.symm.trans hnotifying
    · cases hstopped.symm.trans hgone
  -- no job and no completion is on its way, so no prompt is pending
  have hids : s.promptIds = [] := by
    obtain ⟨lost, hperm, hlost⟩ := hkept.sent
    rw [hlost hstopped, GuardState.inFlight, hjobs, hworker, hcompletions] at hperm
    exact hperm.eq_nil
  have hpending : s.coordinator.pending = ∅ := by
    have hkeys : s.coordinator.pending.keys = [] := (List.append_eq_nil_iff.mp hids).2
    exact AList.ext (List.map_eq_nil_iff.mp hkeys)
  have hbyKey : s.coordinator.pendingByKey = ∅ := by
    refine AList.ext (List.eq_nil_iff_forall_not_mem.mpr ?_)
    rintro ⟨key, id⟩ hmem
    obtain ⟨prompt, hprompt, -⟩ := (hkept.keys key id).mp (AList.mem_lookup_iff.mpr hmem)
    rw [hpending] at hprompt
    cases hprompt
  refine ⟨hmain, hworker, hjobs, hcompletions, hbytes, hpending, hbyKey, ?_⟩
  intro e id event hqueued hget hmask
  have hdone : s.Done id := .inl ⟨by rw [hmain]; rfl, by rw [hids]; exact List.not_mem_nil⟩
  exact responded_of_done h hqueued hdone hget hmask

theorem waits_of_stuck (h : Reachable (guardRun g) anyStep s)
    (hstuck : Stuck (guardRun g) (fun _ a => a.own = true) s) : Waits s := by
  have hnone : ∀ a : Move, a.own = true → s.step g a = none := by
    intro a ha
    rw [Option.eq_none_iff_forall_ne_some]
    exact fun t => hstuck a t ha
  have hworker := worker_waits hnone
  cases hmain : s.main with
  | returned error => exact .returned error hmain
  | reading => exact .reading hmain
  | polling =>
    have hpoll := hnone (.poll false) rfl
    simp only [GuardState.step, GuardState.poll, hmain] at hpoll
    split at hpoll
    · cases hpoll
    · rename_i halarm
      rw [not_or, not_not] at halarm
      obtain ⟨hidle, hjobs, -⟩ := hworker.resolve_right halarm.2
      exact .atRest (atRest_of_quiet h hmain hidle hjobs halarm.1)
  | drainingWake closed ready =>
    have hread := hnone .readWake rfl
    simp only [GuardState.step, GuardState.readWake, hmain] at hread
    split at hread <;> cases hread
  | drainingCompletions closed ready =>
    have hrecv := hnone .tryRecv rfl
    simp only [GuardState.step, GuardState.tryRecv, hmain] at hrecv
    split at hrecv <;> cases hrecv
  | failing =>
    have hfail := hnone (.failPending s.coordinator.pending.keys) rfl
    simp only [GuardState.step, GuardState.failPending, hmain] at hfail
    rw [if_pos (List.Perm.refl _)] at hfail
    cases hfail
  | serving events tail =>
    cases events with
    | nil =>
      have hend := hnone .endBatch rfl
      simp only [GuardState.step, GuardState.endBatch, hmain] at hend
      cases tail <;> cases hend
    | cons event events =>
      have hhandle := hnone .handle rfl
      simp only [GuardState.step, GuardState.handle, hmain] at hhandle
      cases hfree : s.world.descriptorIsFree event with
      | false => exact .occupied event events tail hmain hfree
      | true =>
        rw [hfree, if_pos rfl] at hhandle
        split at hhandle
        · cases hhandle
        · split at hhandle <;> cases hhandle
  | recording id prompt events tail =>
    have hrecord := hnone .record rfl
    simp only [GuardState.step, GuardState.record, hmain] at hrecord
    cases hrecord
  | failed error =>
    have hdrop := hnone .drop rfl
    simp only [GuardState.step, GuardState.drop, hmain] at hdrop
    cases hdrop
  | joining error =>
    rcases hworker with ⟨-, -, hlive⟩ | hstopped
    · rw [hmain] at hlive
      cases hlive
    · have hjoin := hnone .join rfl
      cases hw : s.worker with
      | stopped panicked =>
        simp only [GuardState.step, GuardState.join, hmain, hw] at hjoin
        cases hjoin
      | idle | asking | notifying =>
        rw [hw] at hstopped
        cases hstopped

end

/-- From every state of every run, without new events: whatever the order of the two threads'
steps and whatever fails in them, there are no more of them than the rank of the state,
which counts the events of the batch, the jobs, the completions and the bytes that are
left. By steps that do not fail the guard gets to where it waits, and wherever it has
no such step left, it waits. -/
theorem guard_comes_to_rest (g : Guard) (s : GuardState) (h : Reachable (guardRun g) anyStep s) :
    (∀ n t, StepsIn (guardRun g) (fun _ a => a.arrives = false) n s t → n ≤ s.rank) ∧
    (∃ n t, StepsIn (guardRun g) (fun _ a => a.own = true) n s t ∧ Waits t) ∧
    ∀ n t, StepsIn (guardRun g) (fun _ a => a.own = true) n s t →
      Stuck (guardRun g) (fun _ a => a.own = true) t → Waits t := by
  have hwaits : ∀ n t, StepsIn (guardRun g) (fun _ a => a.own = true) n s t →
      Stuck (guardRun g) (fun _ a => a.own = true) t → Waits t := by
    intro n t hrun hstuck
    have hsteps : Steps (guardRun g) anyStep s t := (hrun.weaken fun _ _ _ => trivial).steps
    exact waits_of_stuck (h.steps hsteps) hstuck
  refine ⟨?_, ?_, hwaits⟩
  · intro n t hrun
    have hfalls : ∀ s a t, a.arrives = false → (guardRun g).step s a = some t → t.rank < s.rank :=
      fun _ _ _ ha hstep => rank_step ha hstep
    have hrank := hrun.rank_le hfalls
    omega
  · have hfalls : ∀ s a t, a.own = true → (guardRun g).step s a = some t → t.rank < s.rank :=
      fun _ _ _ ha hstep => rank_step (Move.arrives_of_own ha) hstep
    obtain ⟨n, t, hrun, hstuck⟩ := exists_stuck hfalls s
    exact ⟨n, t, hrun, hwaits n t hrun hstuck⟩

/-- From where pi's dialog is shown, at most sixteen steps are left. -/
theorem guard_comes_to_rest_asked :
    (∃ n t, StepsIn (guardRun piGuard) (fun _ a => a.own = true) n asked t ∧ Waits t) ∧
      ¬∃ t, StepsIn (guardRun piGuard) (fun _ a => a.arrives = false) 17 asked t := by
  obtain ⟨hbound, hrests, -⟩ := guard_comes_to_rest piGuard asked asked_reachable
  refine ⟨hrests, ?_⟩
  rintro ⟨t, hrun⟩
  exact absurd (hbound 17 t hrun) (by decide)

end ConfigGuard
