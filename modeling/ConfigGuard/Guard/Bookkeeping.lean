import ConfigGuard.Guard.Steps
import ConfigGuard.Library.AssocList

/-!
# The coordinator's bookkeeping

The prompt ids in the coordinator's maps and the ids on their way through the
worker, in every interleaving of the two threads.
-/

namespace ConfigGuard
open OsPath Transition AssocList

/-- The job the worker holds. -/
def WorkerPc.asked : WorkerPc → Option PromptJob
  | asking job => some job
  | _ => none

namespace GuardState

/-- The prompts the main thread has sent a job for and not completed. -/
def promptIds (s : GuardState) : List PromptId :=
  (s.main.recorded.map (·.1)).toList ++ s.coordinator.pending.keys

/-- The ids in the job channel, with the worker and in the completion channel. -/
def inFlight (s : GuardState) : List PromptId :=
  s.jobs.map (·.id) ++ (s.worker.asked.map (·.id)).toList ++ s.completions.map (·.id)

end GuardState

/-- What the main thread may conclude from having seen the worker's end closed. -/
structure WorkerGone (s : GuardState) : Prop where
  jobs : s.worker.isStopped = true → s.jobs = []
  seen : s.main.sawWorkerStop = true → s.worker.isStopped = true
  drained : s.main = .failing → s.completions = []

/-- The maps of the coordinator agree with each other and with the channels.
`lost` are the jobs that went with a stopped worker. -/
structure Bookkept (s : GuardState) : Prop where
  nodup : s.promptIds.Nodup
  fresh : ∀ id ∈ s.promptIds, id < s.coordinator.nextId
  sent : ∃ lost, s.promptIds.Perm (s.inFlight ++ lost) ∧ (s.worker.isStopped = false → lost = [])
  keys : ∀ key id, s.coordinator.pendingByKey.lookup key = some id ↔
    ∃ prompt, s.coordinator.pending.lookup id = some prompt ∧ prompt.key = some key
  recordedKey : ∀ id prompt, s.main.recorded = some (id, prompt) →
    ∀ key, prompt.key = some key → s.coordinator.pendingByKey.lookup key = none

theorem recordedKey_of_none {s : GuardState} (h : s.main.recorded = none) :
    ∀ id prompt, s.main.recorded = some (id, prompt) →
      ∀ key, prompt.key = some key → s.coordinator.pendingByKey.lookup key = none := by
  intro id prompt hsome
  cases h.symm.trans hsome

theorem afterEvent_recorded (result : Except GuardError Unit) (events : List GuardEvent)
    (tail : Except String Unit) : (MainPc.afterEvent result events tail).recorded = none := by
  cases result <;> rfl

theorem recorded_of_completed {closed ready : Bool} {result : Except GuardError Unit}
    {main : MainPc} (h : main = .drainingCompletions closed ready ∧ result = .ok () ∨
      ∃ error, main = .failed error ∧ result = .error error) : main.recorded = none := by
  rcases h with ⟨rfl, _⟩ | ⟨error, rfl, _⟩ <;> rfl

theorem afterEvent_sawWorkerStop (result : Except GuardError Unit) (events : List GuardEvent)
    (tail : Except String Unit) : (MainPc.afterEvent result events tail).sawWorkerStop = false := by
  cases result <;> rfl

theorem afterEvent_ne_failing (result : Except GuardError Unit) (events : List GuardEvent)
    (tail : Except String Unit) : MainPc.afterEvent result events tail ≠ .failing := by
  cases result <;> exact nofun

theorem workerGone_initial : WorkerGone .initial := ⟨fun _ => rfl, nofun, nofun⟩

theorem workerGone_step {g : Guard} {s t : GuardState} {a : Move} (hs : WorkerGone s)
    (h : Stepped g s a t) : WorkerGone t := by
  obtain ⟨hjobs, hseen, hdrained⟩ := hs
  cases h with
  | control _ main bytes _ _ _ _ hclosed hdrained' =>
    refine ⟨hjobs, ?_, hdrained'⟩
    intro hsaw
    rcases hclosed hsaw with hsaw | hstopped
    · exact hseen hsaw
    · exact hstopped
  | handled event events tail result =>
    refine ⟨hjobs, ?_, ?_⟩
    · intro hsaw
      rw [afterEvent_sawWorkerStop] at hsaw
      cases hsaw
    · intro hfailing
      exact absurd hfailing (afterEvent_ne_failing _ _ _)
  | sent _ _ _ _ _ _ _ _ _ _ hrunning =>
    refine ⟨?_, nofun, nofun⟩
    intro hstopped
    exact absurd (hrunning.symm.trans hstopped) Bool.false_ne_true
  | unsent => exact ⟨hjobs, nofun, nofun⟩
  | recorded => exact ⟨hjobs, nofun, nofun⟩
  | completed closed ready completion completions result c w main hmain hcompletions _ hmain' =>
    refine ⟨hjobs, ?_, ?_⟩
    · intro hsaw
      rcases hmain' with ⟨rfl, _⟩ | ⟨error, rfl, _⟩
      · exact hseen (by rw [hmain]; exact hsaw)
      · cases hsaw
    · intro hfailing
      rcases hmain' with ⟨rfl, _⟩ | ⟨error, rfl, _⟩ <;> cases hfailing
  | fellBack => exact ⟨hjobs, nofun, nofun⟩
  | dropped => exact ⟨hjobs, nofun, nofun⟩
  | joined => exact ⟨hjobs, nofun, nofun⟩
  | received job jobs hworker =>
    refine ⟨nofun, ?_, hdrained⟩
    intro hsaw
    have hstopped := hseen hsaw
    rw [hworker] at hstopped
    cases hstopped
  | resolved job current ask outcome _ hworker =>
    -- a worker that answers is running, so the main thread has not seen it stop
    have hsaw : s.main.sawWorkerStop = false := by
      by_contra hsaw
      have hstopped := hseen (Bool.eq_true_of_not_eq_false hsaw)
      rw [hworker] at hstopped
      cases hstopped
    refine ⟨nofun, ?_, ?_⟩
    · intro hsaw'
      exact absurd (hsaw.symm.trans hsaw') Bool.false_ne_true
    · intro hfailing
      rw [show s.main = .failing from hfailing] at hsaw
      cases hsaw
  | notified hworker =>
    refine ⟨nofun, ?_, hdrained⟩
    intro hsaw
    have hstopped := hseen hsaw
    rw [hworker] at hstopped
    cases hstopped
  | stopped => exact ⟨fun _ => rfl, fun _ => rfl, hdrained⟩

theorem workerGone_reachable {g : Guard} {s : GuardState} {P : GuardState → Move → Prop}
    (h : Reachable (guardRun g) P s) : WorkerGone s := by
  refine h.invariant ?_ ?_
  · rintro _ rfl
    exact workerGone_initial
  · intro s a t hs _ hstep
    exact workerGone_step hs (step_inv hstep)

/-- A key leads to a pending prompt. -/
theorem Bookkept.not_dangling {s : GuardState} (hs : Bookkept s) {key : PromptDecisionKey}
    {id : PromptId} (hkey : s.coordinator.pendingByKey.lookup key = some id) :
    s.coordinator.pending.lookup id ≠ none := by
  obtain ⟨prompt, hprompt, _⟩ := (hs.keys key id).mp hkey
  rw [hprompt]
  exact Option.some_ne_none prompt

/-- The prompt being recorded is not in the map yet. -/
theorem Bookkept.recorded_notMem {s : GuardState} (hs : Bookkept s) {id : PromptId}
    {prompt : PendingPrompt} (hrecorded : s.main.recorded = some (id, prompt)) :
    id ∉ s.coordinator.pending.keys := by
  have hnodup := hs.nodup
  rw [GuardState.promptIds, hrecorded] at hnodup
  exact (List.nodup_cons.mp hnodup).1

theorem Bookkept.inFlight_subset {s : GuardState} (hs : Bookkept s) : s.inFlight ⊆ s.promptIds := by
  obtain ⟨lost, hperm, _⟩ := hs.sent
  intro id hid
  exact hperm.mem_iff.mpr (List.mem_append_left _ hid)

theorem Bookkept.inFlight_nodup {s : GuardState} (hs : Bookkept s) : s.inFlight.Nodup := by
  obtain ⟨lost, hperm, _⟩ := hs.sent
  exact (hperm.nodup_iff.mp hs.nodup).of_append_left

/-- A completion that arrives while no prompt is being recorded belongs to a
pending prompt, and the prompt's key leads back to it. -/
theorem Bookkept.completion_pending {s : GuardState} (hs : Bookkept s)
    (hrecorded : s.main.recorded = none) {completion : PromptCompletion}
    {completions : List PromptCompletion} (hcompletions : s.completions = completion :: completions) :
    ∃ prompt, s.coordinator.pending.lookup completion.id = some prompt ∧
      ∀ key, prompt.key = some key →
        s.coordinator.pendingByKey.lookup key = some completion.id := by
  have hmem : completion.id ∈ s.promptIds := by
    refine hs.inFlight_subset ?_
    simp [GuardState.inFlight, hcompletions]
  have hkeys : completion.id ∈ s.coordinator.pending := by
    simpa [GuardState.promptIds, hrecorded, AList.mem_keys] using hmem
  obtain ⟨prompt, hprompt⟩ := Option.isSome_iff_exists.mp (AList.lookup_isSome.mpr hkeys)
  refine ⟨prompt, hprompt, ?_⟩
  intro key hkey
  exact (hs.keys key completion.id).mpr ⟨prompt, hprompt, hkey⟩

/-- Completing a prompt finds it in both maps. -/
theorem Bookkept.completed {s : GuardState} (hs : Bookkept s) (hrecorded : s.main.recorded = none)
    {completion : PromptCompletion} {completions : List PromptCompletion}
    (hcompletions : s.completions = completion :: completions) {io : IoResults}
    {result : Except GuardError Unit} {c : PromptCoordinator} {w : World}
    (h : Completed s.coordinator io s.world completion (result, c, w)) :
    ∃ prompt, s.coordinator.pending.lookup completion.id = some prompt ∧
      (∀ key, prompt.key = some key →
        s.coordinator.pendingByKey.lookup key = some completion.id) ∧
      result = (respondToEvents io completion.outcome.decisionFor s.world prompt.events).1 ∧
      c = s.coordinator.forget completion.id prompt
        (completion.outcome.cacheAfter s.coordinator.promptCache prompt) ∧
      w = (respondToEvents io completion.outcome.decisionFor s.world prompt.events).2 := by
  obtain ⟨prompt, hid, hkey⟩ := hs.completion_pending hrecorded hcompletions
  cases h with
  | unknown hnone => cases hnone.symm.trans hid
  | mismatched prompt' key hid' hprompt hne =>
    obtain rfl := Option.some.inj (hid'.symm.trans hid)
    exact absurd (hkey key hprompt) hne
  | completed prompt' hid' hkey' => exact ⟨prompt', hid', hkey', rfl, rfl, rfl⟩

namespace PromptCoordinator

variable {c : PromptCoordinator} {id other : PromptId} {prompt p : PendingPrompt}
  {key : PromptDecisionKey}

theorem pending_recordPrompt (hnew : c.pending.lookup id = none) :
    (c.recordPrompt id prompt).pending.lookup other = some p ↔
      other = id ∧ p = prompt ∨ c.pending.lookup other = some p := by
  rw [recordPrompt, lookup_insert_eq_some]
  by_cases hother : other = id
  · subst hother
    simp [hnew]
  · simp [hother]

theorem pendingByKey_recordPrompt
    (hfree : ∀ key, prompt.key = some key → c.pendingByKey.lookup key = none) :
    (c.recordPrompt id prompt).pendingByKey.lookup key = some other ↔
      prompt.key = some key ∧ other = id ∨ c.pendingByKey.lookup key = some other := by
  rw [recordPrompt]
  cases hprompt : prompt.key with
  | none => simp
  | some k =>
    dsimp only
    rw [lookup_insert_eq_some]
    by_cases hk : key = k
    · subst hk
      simp [hfree key hprompt]
    · simp [hk, Ne.symm hk]

theorem pending_forget {cache : PromptDecisionCache} :
    (c.forget id prompt cache).pending.lookup other = some p ↔
      other ≠ id ∧ c.pending.lookup other = some p := lookup_erase_eq_some

theorem pendingByKey_forget {cache : PromptDecisionCache} :
    (c.forget id prompt cache).pendingByKey.lookup key = some other ↔
      prompt.key ≠ some key ∧ c.pendingByKey.lookup key = some other := by
  rw [forget]
  cases hprompt : prompt.key with
  | none => simp
  | some k =>
    dsimp only
    have hne : some k ≠ some key ↔ key ≠ k := by rw [ne_comm, Ne, Option.some.injEq]
    rw [lookup_erase_eq_some, hne]

end PromptCoordinator

/-- Steps that leave the maps alone: only jobs of a worker that stops may leave
the channels. -/
theorem Bookkept.of_channels {s t : GuardState} (hs : Bookkept s)
    (hpending : t.coordinator.pending = s.coordinator.pending)
    (hbyKey : t.coordinator.pendingByKey = s.coordinator.pendingByKey)
    (hnext : s.coordinator.nextId ≤ t.coordinator.nextId)
    (hrecorded : t.main.recorded = s.main.recorded)
    (hflight : ∃ lost, s.inFlight.Perm (t.inFlight ++ lost) ∧
      (t.worker.isStopped = false → s.worker.isStopped = false ∧ lost = [])) : Bookkept t := by
  have hids : t.promptIds = s.promptIds := by
    rw [GuardState.promptIds, GuardState.promptIds, hpending, hrecorded]
  refine ⟨by rw [hids]; exact hs.nodup, ?_, ?_, ?_, ?_⟩
  · intro id hid
    rw [hids] at hid
    exact (hs.fresh id hid).trans_le hnext
  · obtain ⟨lost, hperm, hlost⟩ := hs.sent
    obtain ⟨more, hmore, hnone⟩ := hflight
    refine ⟨more ++ lost, ?_, ?_⟩
    · rw [hids, ← List.append_assoc]
      exact hperm.trans (hmore.append_right lost)
    · intro hrunning
      obtain ⟨hrunning, hmore⟩ := hnone hrunning
      rw [hmore, hlost hrunning]
      rfl
  · rw [hpending, hbyKey]
    exact hs.keys
  · rw [hrecorded, hbyKey]
    exact hs.recordedKey

/-- An event joins a pending prompt. -/
theorem Bookkept.push {s t : GuardState} (hs : Bookkept s) {id : PromptId}
    {prompt : PendingPrompt} (hid : s.coordinator.pending.lookup id = some prompt)
    (event : PendingEvent)
    (hpending : t.coordinator.pending = s.coordinator.pending.insert id (prompt.push event))
    (hbyKey : t.coordinator.pendingByKey = s.coordinator.pendingByKey)
    (hnext : t.coordinator.nextId = s.coordinator.nextId)
    (hs' : s.main.recorded = none) (ht' : t.main.recorded = none)
    (hflight : t.inFlight = s.inFlight) (hworker : t.worker = s.worker) : Bookkept t := by
  have hmem : id ∈ s.coordinator.pending.keys := mem_keys_of_lookup hid
  have hids : t.promptIds.Perm s.promptIds := by
    simp only [GuardState.promptIds, hs', ht', Option.map_none, Option.toList_none,
      List.nil_append, hpending, AList.keys_insert]
    exact (List.perm_cons_erase hmem).symm
  have hlookup : ∀ other p, t.coordinator.pending.lookup other = some p ↔
      (other = id ∧ p = prompt.push event) ∨
        (other ≠ id ∧ s.coordinator.pending.lookup other = some p) := by
    intro other p
    rw [hpending]
    exact lookup_insert_eq_some
  refine ⟨hids.nodup_iff.mpr hs.nodup, ?_, ?_, ?_, recordedKey_of_none ht'⟩
  · intro other hother
    rw [hnext]
    exact hs.fresh other (hids.mem_iff.mp hother)
  · obtain ⟨lost, hperm, hlost⟩ := hs.sent
    exact ⟨lost, by rw [hflight]; exact hids.trans hperm, by rw [hworker]; exact hlost⟩
  · intro key other
    rw [hbyKey, hs.keys]
    constructor
    · rintro ⟨p, hp, hkey⟩
      by_cases hother : other = id
      · subst hother
        obtain rfl := Option.some.inj (hid.symm.trans hp)
        exact ⟨prompt.push event, (hlookup _ _).mpr (.inl ⟨rfl, rfl⟩), hkey⟩
      · exact ⟨p, (hlookup _ _).mpr (.inr ⟨hother, hp⟩), hkey⟩
    · rintro ⟨p, hp, hkey⟩
      rcases (hlookup _ _).mp hp with ⟨rfl, rfl⟩ | ⟨_, hp⟩
      · exact ⟨prompt, hid, hkey⟩
      · exact ⟨p, hp, hkey⟩

/-- A job with a new id is sent; its prompt is recorded by the next step. -/
theorem Bookkept.send {s t : GuardState} (hs : Bookkept s) {prompt : PendingPrompt}
    (hpending : t.coordinator.pending = s.coordinator.pending)
    (hbyKey : t.coordinator.pendingByKey = s.coordinator.pendingByKey)
    (hnext : t.coordinator.nextId = s.coordinator.nextId + 1)
    (hs' : s.main.recorded = none)
    (ht' : t.main.recorded = some (s.coordinator.nextId, prompt))
    (hkey : s.coordinator.pendingPromptId prompt.key = none)
    (hflight : t.inFlight.Perm (s.coordinator.nextId :: s.inFlight))
    (hrunning : s.worker.isStopped = false) : Bookkept t := by
  have hids : t.promptIds = s.coordinator.nextId :: s.promptIds := by
    simp only [GuardState.promptIds, hs', ht', hpending, Option.map_some, Option.toList_some,
      Option.map_none, Option.toList_none, List.nil_append, List.singleton_append]
  refine ⟨?_, ?_, ?_, by rw [hpending, hbyKey]; exact hs.keys, ?_⟩
  · rw [hids, List.nodup_cons]
    exact ⟨fun hmem => absurd (hs.fresh _ hmem) (lt_irrefl _), hs.nodup⟩
  · intro id hid
    rw [hids, List.mem_cons] at hid
    rw [hnext]
    rcases hid with rfl | hid
    · exact Nat.lt_succ_self _
    · exact (hs.fresh id hid).trans (Nat.lt_succ_self _)
  · -- the worker runs, so nothing has been lost so far
    obtain ⟨lost, hperm, hlost⟩ := hs.sent
    obtain rfl := hlost hrunning
    rw [List.append_nil] at hperm
    refine ⟨[], ?_, fun _ => rfl⟩
    rw [hids, List.append_nil]
    exact (hperm.cons _).trans hflight.symm
  · intro id p hp key hpkey
    rw [ht'] at hp
    obtain ⟨rfl, rfl⟩ := Prod.mk.inj (Option.some.inj hp)
    rw [hbyKey]
    rw [hpkey] at hkey
    exact hkey

/-- The prompt of the job sent last enters the maps. -/
theorem Bookkept.record {s t : GuardState} (hs : Bookkept s) {id : PromptId}
    {prompt : PendingPrompt} (hs' : s.main.recorded = some (id, prompt))
    (ht' : t.main.recorded = none)
    (hcoordinator : t.coordinator = s.coordinator.recordPrompt id prompt)
    (hflight : t.inFlight = s.inFlight) (hworker : t.worker = s.worker) : Bookkept t := by
  have hids' : s.promptIds = id :: s.coordinator.pending.keys := by
    simp [GuardState.promptIds, hs']
  have hnew : id ∉ s.coordinator.pending.keys := hs.recorded_notMem hs'
  have hids : t.promptIds = s.promptIds := by
    rw [hids']
    simp [GuardState.promptIds, ht', hcoordinator, PromptCoordinator.recordPrompt,
      AList.keys_insert, List.erase_of_not_mem hnew]
  have hnone : s.coordinator.pending.lookup id = none :=
    AList.lookup_eq_none.mpr (fun hmem => hnew (AList.mem_keys.mp hmem))
  refine ⟨by rw [hids]; exact hs.nodup, ?_, ?_, ?_, recordedKey_of_none ht'⟩
  · intro other hother
    rw [hids] at hother
    rw [hcoordinator]
    exact hs.fresh other hother
  · rw [hids, hflight, hworker]
    exact hs.sent
  · intro key other
    rw [hcoordinator, PromptCoordinator.pendingByKey_recordPrompt (hs.recordedKey id prompt hs'),
      hs.keys]
    simp only [PromptCoordinator.pending_recordPrompt hnone]
    constructor
    · rintro (⟨hkey, rfl⟩ | ⟨p, hp, hkey⟩)
      · exact ⟨prompt, .inl ⟨rfl, rfl⟩, hkey⟩
      · exact ⟨p, .inr hp, hkey⟩
    · rintro ⟨p, ⟨rfl, rfl⟩ | hp, hkey⟩
      · exact .inl ⟨hkey, rfl⟩
      · exact .inr ⟨p, hp, hkey⟩

/-- A prompt leaves the maps with its completion. -/
theorem Bookkept.complete {s t : GuardState} (hs : Bookkept s) {completion : PromptCompletion}
    {completions : List PromptCompletion} {prompt : PendingPrompt} {cache : PromptDecisionCache}
    (hs' : s.main.recorded = none) (ht' : t.main.recorded = none)
    (hid : s.coordinator.pending.lookup completion.id = some prompt)
    (hkey : ∀ key, prompt.key = some key →
      s.coordinator.pendingByKey.lookup key = some completion.id)
    (hcoordinator : t.coordinator = s.coordinator.forget completion.id prompt cache)
    (hcompletions : s.completions = completion :: completions)
    (hcompletions' : t.completions = completions) (hjobs : t.jobs = s.jobs)
    (hworker : t.worker = s.worker) : Bookkept t := by
  have hmem : completion.id ∈ s.coordinator.pending.keys := mem_keys_of_lookup hid
  have hids' : s.promptIds = s.coordinator.pending.keys := by simp [GuardState.promptIds, hs']
  have hids : t.promptIds = s.promptIds.erase completion.id := by
    rw [hids']
    simp [GuardState.promptIds, ht', hcoordinator, PromptCoordinator.forget, AList.keys_erase]
  have hflight : s.inFlight.Perm (completion.id :: t.inFlight) := by
    simp only [GuardState.inFlight, hcompletions, hcompletions', hjobs, hworker, List.map_cons]
    exact List.perm_middle
  refine ⟨by rw [hids]; exact hs.nodup.erase _, ?_, ?_, ?_, recordedKey_of_none ht'⟩
  · intro other hother
    rw [hids] at hother
    rw [hcoordinator]
    exact hs.fresh other (List.mem_of_mem_erase hother)
  · -- the id leaves both sides of the permutation
    obtain ⟨lost, hperm, hlost⟩ := hs.sent
    refine ⟨lost, ?_, by rw [hworker]; exact hlost⟩
    have herase := (hperm.trans (hflight.append_right lost)).erase completion.id
    rw [hids]
    simpa using herase
  · intro key other
    rw [hcoordinator, PromptCoordinator.pendingByKey_forget, hs.keys]
    simp only [PromptCoordinator.pending_forget]
    constructor
    · rintro ⟨hne, p, hp, hpkey⟩
      refine ⟨p, ⟨?_, hp⟩, hpkey⟩
      -- the completed prompt is not the one with this key
      rintro rfl
      obtain rfl := Option.some.inj (hid.symm.trans hp)
      exact hne hpkey
    · rintro ⟨p, ⟨hne, hp⟩, hpkey⟩
      refine ⟨?_, p, hp, hpkey⟩
      intro hprompt
      have hother := (hs.keys key other).mpr ⟨p, hp, hpkey⟩
      exact hne (Option.some.inj (hother.symm.trans (hkey key hprompt)))

/-- The fallback empties the maps once nothing is on its way. -/
theorem Bookkept.fallBack {s t : GuardState} (hgone : WorkerGone s) (hmain : s.main = .failing)
    (ht' : t.main.recorded = none) (hpending : t.coordinator.pending = ∅)
    (hbyKey : t.coordinator.pendingByKey = ∅) (hflight : t.inFlight = s.inFlight) :
    Bookkept t := by
  -- a stopped worker has left no job, and the completions have been drained
  have hstopped : s.worker.isStopped = true := hgone.seen (by rw [hmain]; rfl)
  have hnone : t.inFlight = [] := by
    rw [hflight, GuardState.inFlight, hgone.jobs hstopped, hgone.drained hmain]
    cases hworker : s.worker with
    | stopped => rfl
    | idle => rw [hworker] at hstopped; cases hstopped
    | asking job => rw [hworker] at hstopped; cases hstopped
    | notifying => rw [hworker] at hstopped; cases hstopped
  have hids : t.promptIds = [] := by
    rw [GuardState.promptIds, ht', hpending]
    rfl
  refine ⟨by rw [hids]; exact List.nodup_nil, by rw [hids]; exact nofun, ?_, ?_,
    recordedKey_of_none ht'⟩
  · refine ⟨[], ?_, fun _ => rfl⟩
    rw [hids, hnone]
    exact List.Perm.nil
  · intro key id
    simp [hpending, hbyKey]

theorem bookkept_handled {g : Guard} {s t : GuardState} {w w' : World} {event : GuardEvent}
    {result : Except GuardError Unit} {c : PromptCoordinator} (hs : Bookkept s)
    (h : Handled g s.coordinator w event (.finished result, c, w'))
    (hs' : s.main.recorded = none) (ht' : t.main.recorded = none) (hc : t.coordinator = c)
    (hflight : t.inFlight = s.inFlight) (hworker : t.worker = s.worker) : Bookkept t := by
  have hsame : c.pending = s.coordinator.pending → c.pendingByKey = s.coordinator.pendingByKey →
      c.nextId = s.coordinator.nextId → Bookkept t := by
    intro hpending hbyKey hnext
    refine hs.of_channels (by rw [hc, hpending]) (by rw [hc, hbyKey]) (by rw [hc, hnext])
      (by rw [hs', ht']) ⟨[], by rw [hflight, List.append_nil], ?_⟩
    intro hrunning
    exact ⟨by rw [← hworker]; exact hrunning, rfl⟩
  cases h with
  | rejected => exact hsame rfl rfl rfl
  | answered => exact hsame rfl rfl rfl
  | unprepared => exact hsame rfl rfl rfl
  | dangling => exact hsame rfl rfl rfl
  | exhausted => exact hsame rfl rfl rfl
  | appended spec key id prompt _ _ _ _ hid =>
    exact hs.push hid _ (by rw [hc]) (by rw [hc]) (by rw [hc]) hs' ht' hflight hworker

theorem bookkept_step {g : Guard} {s t : GuardState} {a : Move} (hgone : WorkerGone s)
    (hs : s.main.live = true → Bookkept s) (h : Stepped g s a t) (ht : t.main.live = true) :
    Bookkept t := by
  cases h with
  | control _ main bytes hlive hrecorded _ hrecorded' =>
    refine (hs hlive).of_channels rfl rfl le_rfl (by rw [hrecorded, hrecorded']) ⟨[], ?_, ?_⟩
    · rw [List.append_nil]
      exact List.Perm.refl _
    · exact fun hrunning => ⟨hrunning, rfl⟩
  | handled event events tail result c w hmain _ hhandled =>
    exact bookkept_handled (hs (by rw [hmain]; rfl)) hhandled (by rw [hmain]; rfl)
      (afterEvent_recorded _ _ _) rfl rfl rfl
  | sent event events tail job prompt c w hmain _ hhandled hrunning =>
    cases hhandled with
    | sending spec job _ _ hkey _ hjob =>
      refine (hs (by rw [hmain]; rfl)).send rfl rfl rfl (by rw [hmain]; rfl)
        (by rw [MainPc.recorded, hjob.1]) hkey ?_ hrunning
      simp only [GuardState.inFlight, List.map_append, List.map_cons, List.map_nil,
        List.append_assoc, List.singleton_append, hjob.1]
      exact List.perm_middle
  | unsent event events tail job prompt c w error hmain _ hhandled hstopped =>
    cases hhandled with
    | sending =>
      -- the id has been taken and stays unused
      refine (hs (by rw [hmain]; rfl)).of_channels rfl rfl (Nat.le_succ _) (by rw [hmain]; rfl)
        ⟨[], ?_, ?_⟩
      · rw [List.append_nil]
        exact List.Perm.refl _
      · intro hrunning
        cases hstopped.symm.trans hrunning
  | recorded id prompt events tail hmain =>
    exact (hs (by rw [hmain]; rfl)).record (by rw [hmain]; rfl) rfl rfl rfl rfl
  | completed closed ready completion completions result c w main hmain hcompletions hcompleted
      hmain' =>
    have hlive : s.main.live = true := by rw [hmain]; rfl
    have hrecorded : s.main.recorded = none := by rw [hmain]; rfl
    have hrecorded' : main.recorded = none := recorded_of_completed hmain'
    obtain ⟨prompt, hid, hkey, _, rfl, rfl⟩ :=
      (hs hlive).completed hrecorded hcompletions hcompleted
    exact (hs hlive).complete hrecorded hrecorded' hid hkey rfl hcompletions rfl rfl rfl
  | fellBack order error hmain =>
    exact .fallBack hgone hmain rfl rfl rfl rfl
  | dropped => cases ht
  | joined => cases ht
  | received job jobs hworker hjobs =>
    refine (hs ht).of_channels rfl rfl le_rfl rfl ⟨[], ?_, ?_⟩
    · simp [GuardState.inFlight, hworker, hjobs, WorkerPc.asked, List.perm_middle.symm]
    · intro _
      exact ⟨by rw [hworker]; rfl, rfl⟩
  | resolved job current ask outcome _ hworker =>
    refine (hs ht).of_channels rfl rfl le_rfl rfl ⟨[], ?_, ?_⟩
    · simp only [GuardState.inFlight, hworker, WorkerPc.asked, Option.map_some,
        Option.toList_some, Option.map_none, Option.toList_none, List.append_nil, List.map_append,
        List.map_cons, List.map_nil, List.append_assoc, List.singleton_append]
      exact List.Perm.append_left _ (List.perm_append_singleton _ _).symm
    · intro _
      exact ⟨by rw [hworker]; rfl, rfl⟩
  | notified hworker =>
    refine (hs ht).of_channels rfl rfl le_rfl rfl ⟨[], ?_, ?_⟩
    · simp [GuardState.inFlight, hworker, WorkerPc.asked]
    · intro _
      exact ⟨by rw [hworker]; rfl, rfl⟩
  | stopped _ panicked answers =>
    -- lost are the jobs in the channel and the one the worker held
    refine (hs ht).of_channels rfl rfl le_rfl rfl
      ⟨s.jobs.map (·.id) ++ (s.worker.asked.map (·.id)).toList, ?_, nofun⟩
    simp only [GuardState.inFlight, GuardState.stopWorker, WorkerPc.asked, List.map_nil,
      Option.map_none, Option.toList_none, List.nil_append]
    exact List.perm_append_comm

theorem bookkept_initial : Bookkept .initial := by
  refine ⟨List.nodup_nil, nofun, ⟨[], List.Perm.nil, fun _ => rfl⟩, ?_, recordedKey_of_none rfl⟩
  intro key id
  simp [GuardState.initial, PromptCoordinator.new]

theorem bookkept_reachable {g : Guard} {s : GuardState} {P : GuardState → Move → Prop}
    (h : Reachable (guardRun g) P s) : s.main.live = true → Bookkept s := by
  refine Reachable.invariant_with (I := fun s => s.main.live = true → Bookkept s)
    (fun _ => workerGone_reachable) ?_ ?_ h
  · rintro _ rfl _
    exact bookkept_initial
  · intro s a t hgone _ hs _ hstep
    exact bookkept_step hgone hs (step_inv hstep)

/-- The error the loop has ended with. -/
def MainPc.error : MainPc → Option GuardError
  | failed error | joining error | returned error => some error
  | _ => none

theorem closeDescriptor_error {io : IoResults} {w : World} {fd : Int} {error : GuardError}
    (h : (closeDescriptor io w fd).1 = .error error) : error.isBookkeeping = false := by
  simp only [closeDescriptor] at h
  split at h
  · cases h
  · rw [← Except.error.inj h]
    rfl

theorem respondAndCloseEvent_error {io : IoResults} {w : World} {fd : Int} {mask : UInt64}
    {decision : Decision} {error : GuardError}
    (h : (respondAndCloseEvent io w fd mask decision).1 = .error error) :
    error.isBookkeeping = false := by
  have hresult : (respondAndCloseEvent io w fd mask decision).1 =
      (respondToPermissionEventFd io w fd mask decision).1.bind fun _ =>
        (closeDescriptor io (respondToPermissionEventFd io w fd mask decision).2 fd).1 := rfl
  rw [hresult] at h
  cases hresponse : (respondToPermissionEventFd io w fd mask decision).1 with
  | ok =>
    rw [hresponse] at h
    exact closeDescriptor_error h
  | error first =>
    rw [hresponse] at h
    rw [← Except.error.inj h]
    unfold respondToPermissionEventFd at hresponse
    dsimp only at hresponse
    split at hresponse
    · split at hresponse
      · cases hresponse
      · rw [← Except.error.inj hresponse]
        rfl
    · cases hresponse

theorem respondToEvents_error {io : IoResults} {decisionFor : PendingEvent → Decision} {w : World}
    {events : List PendingEvent} {error : GuardError}
    (h : (respondToEvents io decisionFor w events).1 = .error error) :
    error.isBookkeeping = false := by
  induction events generalizing w with
  | nil => cases h
  | cons event events ih =>
    rw [respondToEvents] at h
    cases hresult : (respondAndCloseEvent io w event.fd event.mask (decisionFor event)).1 with
    | error first =>
      simp only [hresult, Except.bind] at h
      rw [← Except.error.inj h]
      exact respondAndCloseEvent_error hresult
    | ok =>
      simp only [hresult, Except.bind] at h
      exact ih h

theorem failPrompts_error {io : IoResults} {w : World} {prompts : List PendingPrompt}
    {error : GuardError} (h : (PromptCoordinator.failPrompts io w prompts).1 = .error error) :
    error.isBookkeeping = false := by
  induction prompts generalizing w with
  | nil => cases h
  | cons prompt prompts ih =>
    rw [PromptCoordinator.failPrompts] at h
    split at h
    · rename_i first w' hresult
      rw [← Except.error.inj h]
      exact respondToEvents_error (congrArg Prod.fst hresult)
    · exact ih h

theorem ensureEventDescriptor_error {mask : UInt64} {fd : Int} {error : GuardError}
    (h : ensureEventDescriptor mask fd = .error error) : error.isBookkeeping = false := by
  unfold ensureEventDescriptor at h
  split at h
  · rw [← Except.error.inj h]
    rfl
  · split at h
    · rw [← Except.error.inj h]
      rfl
    · cases h

theorem prepareEventAction_error {g : Guard} {c c' : PromptCoordinator} {event : GuardEvent}
    {error : GuardError} (h : prepareEventAction g c event = (.error error, c')) :
    error.isBookkeeping = false := by
  unfold prepareEventAction at h
  split at h
  · rw [← Except.error.inj (Prod.mk.inj h).1]
    rfl
  · split at h
    · split at h
      · rename_i inner hinner
        rw [← Except.error.inj (Prod.mk.inj h).1]
        unfold evaluateGuardAccess at hinner
        dsimp only at hinner
        split at hinner
        · rw [← Except.error.inj hinner]
          rfl
        · cases hinner
      · cases (Prod.mk.inj h).1
    · cases (Prod.mk.inj h).1

/-- No event finds its key mapped to a prompt that is not pending. -/
theorem handled_error {g : Guard} {s : GuardState} {w w' : World} {event : GuardEvent}
    {error : GuardError} {c : PromptCoordinator} (hs : Bookkept s)
    (h : Handled g s.coordinator w event (.finished (.error error), c, w')) :
    error.isBookkeeping = false := by
  generalize hresult : (Except.error error : Except GuardError Unit) = result at h
  cases h with
  | rejected _ hevent =>
    rw [Except.error.inj hresult]
    exact ensureEventDescriptor_error hevent
  | answered => exact respondAndCloseEvent_error hresult.symm
  | unprepared _ _ hprepared =>
    rw [Except.error.inj hresult]
    exact prepareEventAction_error hprepared
  | appended => cases hresult
  | dangling spec key id _ _ _ hkey hid => exact absurd hid (hs.not_dangling hkey)
  | exhausted =>
    rw [Except.error.inj hresult]
    rfl

theorem error_step {g : Guard} {s t : GuardState} {a : Move}
    (hs : s.main.live = true → Bookkept s)
    (herror : ∀ error, s.main.error = some error → error.isBookkeeping = false)
    (h : Stepped g s a t) :
    ∀ error, t.main.error = some error → error.isBookkeeping = false := by
  intro error ht
  -- no move makes an error of the bookkeeping, and one from before is none
  cases h with
  | control _ main bytes _ _ hlive' _ _ _ hfailed =>
    cases main with
    | failed e =>
      obtain rfl := Option.some.inj ht
      exact (hfailed e rfl).1
    | joining e => cases hlive'
    | returned e => cases hlive'
    | _ => cases ht
  | handled event events tail result c w hmain _ hhandled =>
    cases result with
    | ok => cases ht
    | error e =>
      obtain rfl := Option.some.inj ht
      exact handled_error (hs (by rw [hmain]; rfl)) hhandled
  | sent => cases ht
  | unsent event events tail job prompt c w e _ _ _ _ he =>
    obtain rfl := Option.some.inj ht
    rcases he with rfl | he
    · rfl
    · exact respondAndCloseEvent_error he
  | recorded => cases ht
  | completed closed ready completion completions result c w main hmain hcompletions hcompleted
      hmain' =>
    rcases hmain' with ⟨rfl, _⟩ | ⟨e, rfl, hr⟩
    · cases ht
    · rw [← Option.some.inj ht]
      obtain ⟨prompt, _, _, rfl, _⟩ :=
        (hs (by rw [hmain]; rfl)).completed (by rw [hmain]; rfl) hcompletions hcompleted
      exact respondToEvents_error hr
  | fellBack order e _ _ he =>
    rw [← Option.some.inj ht]
    rcases he with rfl | ⟨inner, rfl, hinner⟩
    · rfl
    · rw [GuardError.isBookkeeping]
      exact failPrompts_error hinner
  | dropped e hmain =>
    obtain rfl := Option.some.inj ht
    exact herror _ (by rw [hmain]; rfl)
  | joined e e' hmain he =>
    obtain rfl := Option.some.inj ht
    rcases he with rfl | rfl
    · exact herror _ (by rw [hmain]; rfl)
    · rfl
  | received => exact herror error ht
  | resolved => exact herror error ht
  | notified => exact herror error ht
  | stopped => exact herror error ht

/-- Until the coordinator is dropped, the prompts in its map and the one being
recorded have distinct ids below `next_id`, and while the worker runs these are
exactly the ids in the job channel, with the worker and in the completion
channel; of a stopped worker's jobs only the completed ones are left there. The
key map holds exactly the keys of the pending prompts. No run ends with an
error about the maps. -/
theorem coordinator_bookkeeping (g : Guard) (s : GuardState)
    (h : Reachable (guardRun g) anyStep s) :
    (s.main.live = true →
      s.promptIds.Nodup ∧
      (∀ id ∈ s.promptIds, id < s.coordinator.nextId) ∧
      (s.worker.isStopped = false → s.promptIds.Perm s.inFlight) ∧
      s.inFlight.Nodup ∧ s.inFlight ⊆ s.promptIds ∧
      (∀ key id, s.coordinator.pendingByKey.lookup key = some id ↔
        ∃ prompt, s.coordinator.pending.lookup id = some prompt ∧ prompt.key = some key)) ∧
    (∀ error, s.main.error = some error → error.isBookkeeping = false) := by
  constructor
  · intro hlive
    have hs := bookkept_reachable h hlive
    refine ⟨hs.nodup, hs.fresh, ?_, hs.inFlight_nodup, hs.inFlight_subset, hs.keys⟩
    intro hrunning
    obtain ⟨lost, hperm, hlost⟩ := hs.sent
    obtain rfl := hlost hrunning
    simpa using hperm
  · refine Reachable.invariant_with
      (I := fun s => ∀ error, s.main.error = some error → error.isBookkeeping = false)
      (J := fun s => s.main.live = true → Bookkept s) (fun _ => bookkept_reachable) ?_ ?_ h
    · rintro _ rfl error herror
      cases herror
    · intro s a t hs _ herror _ hstep
      exact error_step hs herror (step_inv hstep)

/-- Guards the home of a user whose only rule is pi's. -/
def piGuard : Guard where
  policy := piPolicy.toAccessPolicy
  paths := [Path.ofString "/home/u"]
  excludedPaths := []
  requiresGraphicalSession := false
  io := fun _ => true

/-- A `cat` below pi opens one of pi's files. -/
def catOpens : GuardEvent where
  mask := fanOpenPerm
  fd := 5
  pid := 42
  target := .ok piSession
  inspected := some (catGeneration 42 100)
  env := ∅

def askedMoves : List Move :=
  [.poll true, .readBatch [catOpens] (.ok ()), .handle, .record, .workerRecv]

/-- The job has been sent and its prompt is not in the map yet. -/
def justSent : GuardState := runFrom (guardRun piGuard) anyStep .initial (askedMoves.take 3)

def asked : GuardState := runFrom (guardRun piGuard) anyStep .initial askedMoves

theorem asked_reachable : Reachable (guardRun piGuard) anyStep asked :=
  ⟨.initial, rfl, runFrom_steps (by decide)⟩

theorem coordinator_bookkeeping_asked : asked.promptIds.Perm asked.inFlight :=
  ((coordinator_bookkeeping piGuard asked asked_reachable).1 (by decide)).2.2.1 (by decide)

theorem pending_keys_behind_channel :
    ¬ ∀ (g : Guard) (s : GuardState), Reachable (guardRun g) anyStep s → s.main.live = true →
      s.worker.isStopped = false → s.coordinator.pending.keys.Perm s.inFlight := by
  intro h
  have hperm := h piGuard justSent ⟨.initial, rfl, runFrom_steps (by decide)⟩ (by decide)
    (by decide)
  exact absurd hperm.length_eq (by decide)

end ConfigGuard
