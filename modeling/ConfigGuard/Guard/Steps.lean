import ConfigGuard.Guard.Loop

/-!
# What one step of the guard can do

Each operation of the coordinator and each step of the loop, inverted once into
its possible effects. Every invariant of the guard is proved from these.
-/

namespace ConfigGuard
open OsPath Transition

/-- What the policy says of an event, if its target is readable and watched and
the policy answers. -/
def evaluationOf (g : Guard) (event : GuardEvent) : Option GuardEvaluation :=
  match event.target with
  | .error _ => none
  | .ok target =>
    if isWatchedPath target g.paths g.excludedPaths then
      (evaluateGuardAccess g event target).toOption
    else none

/-- The decision that resolves an event without a prompt. -/
def immediateOf (g : Guard) (c : PromptCoordinator) (event : GuardEvent)
    (evaluation : GuardEvaluation) : Option Decision × PromptDecisionCache :=
  immediatePromptDecision g.requiresGraphicalSession c.promptCache evaluation.promptKey
    evaluation.authorization event.env evaluation.policyDecision

/-- The three ways an event is prepared. -/
inductive Prepared (g : Guard) (c : PromptCoordinator) (event : GuardEvent) :
    Except GuardError GuardAction × PromptCoordinator → Prop
  | failed (error : GuardError) : Prepared g c event (.error error, c)
  | unwatched (target : Path) (htarget : event.target = .ok target)
      (hwatched : isWatchedPath target g.paths g.excludedPaths = false) :
      Prepared g c event (.ok (.respond .allow), c)
  | immediate (evaluation : GuardEvaluation) (decision : Decision)
      (hevaluation : evaluationOf g event = some evaluation)
      (hdecision : (immediateOf g c event evaluation).1 = some decision) :
      Prepared g c event (.ok (.respond decision),
        { c with promptCache := (immediateOf g c event evaluation).2 })
  | prompt (evaluation : GuardEvaluation) (spec : PromptSpec) (scope : Path)
      (hevaluation : evaluationOf g event = some evaluation)
      (hnone : (immediateOf g c event evaluation).1 = none)
      (hdecision : evaluation.policyDecision = .prompt spec.reason spec.defaultDecision scope)
      (hkey : spec.key = evaluation.promptKey)
      (hauthorization : spec.authorization = evaluation.authorization) :
      Prepared g c event (.ok (.prompt spec), c)

theorem prepareEventAction_cases (g : Guard) (c : PromptCoordinator) (event : GuardEvent) :
    Prepared g c event (prepareEventAction g c event) := by
  unfold prepareEventAction
  cases htarget : event.target with
  | error error => exact .failed _
  | ok target =>
    by_cases hwatched : isWatchedPath target g.paths g.excludedPaths = true
    · dsimp only
      rw [if_pos hwatched]
      cases hevaluate : evaluateGuardAccess g event target with
      | error error => exact .failed _
      | ok evaluation =>
        have hevaluation : evaluationOf g event = some evaluation := by
          simp [evaluationOf, htarget, hwatched, hevaluate, Except.toOption]
        dsimp only [resolveGuardAction, PromptCoordinator.immediateDecision]
        cases hdecision : (immediateOf g c event evaluation).1 with
        | some decision =>
          have himm : immediatePromptDecision g.requiresGraphicalSession c.promptCache
              evaluation.promptKey evaluation.authorization event.env evaluation.policyDecision =
              (some decision, (immediateOf g c event evaluation).2) :=
            Prod.ext hdecision rfl
          rw [himm]
          exact .immediate evaluation decision hevaluation hdecision
        | none =>
          obtain ⟨⟨reason, default, scope, hprompt⟩, himm⟩ :=
            immediatePromptDecision_none hdecision
          rw [himm]
          simp only [promptSpec, hprompt]
          exact .prompt evaluation _ scope hevaluation hdecision hprompt rfl rfl
    · dsimp only
      rw [if_neg hwatched]
      exact .unwatched target htarget (Bool.eq_false_iff.mpr hwatched)

theorem prepare_respond {g : Guard} {c c' : PromptCoordinator} {event : GuardEvent} {d : Decision}
    (h : prepareEventAction g c event = (.ok (.respond d), c')) :
    (c' = c ∧ d = .allow ∧ ∃ target, event.target = .ok target ∧
      isWatchedPath target g.paths g.excludedPaths = false) ∨
    ∃ evaluation, evaluationOf g event = some evaluation ∧
      (immediateOf g c event evaluation).1 = some d ∧
      c' = { c with promptCache := (immediateOf g c event evaluation).2 } := by
  have hcases := prepareEventAction_cases g c event
  generalize prepareEventAction g c event = prepared at h hcases
  cases hcases with
  | failed => cases (Prod.mk.inj h).1
  | unwatched target htarget hwatched =>
    obtain ⟨haction, rfl⟩ := Prod.mk.inj h
    cases haction
    exact .inl ⟨rfl, rfl, target, htarget, hwatched⟩
  | immediate evaluation decision hevaluation hdecision =>
    obtain ⟨haction, rfl⟩ := Prod.mk.inj h
    cases haction
    exact .inr ⟨evaluation, hevaluation, hdecision, rfl⟩
  | prompt => cases (Prod.mk.inj h).1

theorem prepare_prompt {g : Guard} {c c' : PromptCoordinator} {event : GuardEvent}
    {spec : PromptSpec} (h : prepareEventAction g c event = (.ok (.prompt spec), c')) :
    c' = c ∧ ∃ evaluation scope, evaluationOf g event = some evaluation ∧
      evaluation.policyDecision = .prompt spec.reason spec.defaultDecision scope ∧
      spec.key = evaluation.promptKey ∧ spec.authorization = evaluation.authorization := by
  have hcases := prepareEventAction_cases g c event
  generalize prepareEventAction g c event = prepared at h hcases
  cases hcases with
  | failed => cases (Prod.mk.inj h).1
  | unwatched => cases (Prod.mk.inj h).1
  | immediate => cases (Prod.mk.inj h).1
  | prompt evaluation spec scope hevaluation _ hdecision hkey hauthorization =>
    obtain ⟨haction, rfl⟩ := Prod.mk.inj h
    cases haction
    exact ⟨rfl, evaluation, scope, hevaluation, hdecision, hkey, hauthorization⟩

/-- The cache only gains the default of a prompt that cannot be shown. -/
theorem immediateOf_cache (g : Guard) (c : PromptCoordinator) (event : GuardEvent)
    (evaluation : GuardEvaluation) :
    (immediateOf g c event evaluation).2 = c.promptCache ∨
    ∃ reason default scope, evaluation.policyDecision = .prompt reason default scope ∧
      (immediateOf g c event evaluation).2 =
        cachePromptDecision c.promptCache evaluation.promptKey default := by
  unfold immediateOf
  cases hdecision : evaluation.policyDecision with
  | allow => exact .inl rfl
  | deny => exact .inl rfl
  | prompt reason default scope =>
    rcases immediatePromptDecision_cases g.requiresGraphicalSession c.promptCache
      evaluation.promptKey evaluation.authorization event.env reason default scope with
      ⟨_, himm⟩ | ⟨_, ⟨_, _, himm⟩ | ⟨_, himm | himm⟩⟩
    · exact .inl (by rw [himm])
    · exact .inl (by rw [himm])
    · exact .inr ⟨reason, default, scope, rfl, by rw [himm]⟩
    · exact .inl (by rw [himm])

theorem evaluationOf_eq_some {g : Guard} {event : GuardEvent} {evaluation : GuardEvaluation}
    (h : evaluationOf g event = some evaluation) :
    ∃ target, event.target = .ok target ∧
      isWatchedPath target g.paths g.excludedPaths = true ∧
      evaluateGuardAccess g event target = .ok evaluation := by
  unfold evaluationOf at h
  split at h
  · cases h
  · rename_i target htarget
    split at h
    · rename_i hwatched
      refine ⟨target, htarget, hwatched, ?_⟩
      cases hevaluate : evaluateGuardAccess g event target with
      | error error =>
        rw [hevaluate] at h
        cases h
      | ok evaluation' =>
        rw [hevaluate] at h
        rw [Option.some.inj h]
    · cases h

/-- A key and an authorization come with a prompt decision, the latter with one
about an access across owners. -/
theorem evaluation_prompt {g : Guard} {event : GuardEvent} {evaluation : GuardEvaluation}
    (h : evaluationOf g event = some evaluation) :
    (∀ key, evaluation.promptKey = some key →
      ∃ default scope, evaluation.policyDecision = .prompt key.reason default scope) ∧
    (∀ a, evaluation.authorization = some a → ∃ reason default scope,
      evaluation.policyDecision = .prompt reason default scope ∧ reason.isCrossOwner = true) := by
  obtain ⟨target, _, _, hevaluate⟩ := evaluationOf_eq_some h
  unfold evaluateGuardAccess at hevaluate
  dsimp only at hevaluate
  split at hevaluate
  · cases hevaluate
  · rw [← Except.ok.inj hevaluate]
    constructor
    · intro key hkey
      exact PromptDecisionKey.new_reason hkey
    · intro a ha
      obtain ⟨owner, _, hnew⟩ := Option.bind_eq_some_iff.mp ha
      exact (new_eq_some hnew).1

/-- The ways `handle_event` proceeds, the event having been handed over in `w`. -/
inductive Handled (g : Guard) (c : PromptCoordinator) (w : World) (event : GuardEvent) :
    Handling × PromptCoordinator × World → Prop
  | rejected (error : GuardError)
      (hevent : ensureEventDescriptor event.mask event.fd = .error error) :
      Handled g c w event (.finished (.error error), c, w)
  | answered (decision : Decision) (cache : PromptDecisionCache)
      (hevent : ensureEventDescriptor event.mask event.fd = .ok ())
      (hprepared : prepareEventAction g c event =
        (.ok (.respond decision), { c with promptCache := cache })) :
      Handled g c w event
        (.finished (respondAndCloseEvent g.io w event.fd event.mask decision).1,
          { c with promptCache := cache },
          (respondAndCloseEvent g.io w event.fd event.mask decision).2)
  | unprepared (error : GuardError)
      (hevent : ensureEventDescriptor event.mask event.fd = .ok ())
      (hprepared : prepareEventAction g c event = (.error error, c)) :
      Handled g c w event
        (.finished (.error error), c, (closeDescriptor g.io w event.fd).2)
  | appended (spec : PromptSpec) (key : PromptDecisionKey) (id : PromptId) (prompt : PendingPrompt)
      (hevent : ensureEventDescriptor event.mask event.fd = .ok ())
      (hprepared : prepareEventAction g c event = (.ok (.prompt spec), c))
      (hspec : spec.key = some key) (hkey : c.pendingByKey.lookup key = some id)
      (hid : c.pending.lookup id = some prompt) :
      Handled g c w event (.finished (.ok ()),
        { c with
          pending := c.pending.insert id (prompt.push ⟨event.fd, event.mask, spec.defaultDecision⟩) },
        w.observe (.queued (w.eventOf event.fd) id))
  | dangling (spec : PromptSpec) (key : PromptDecisionKey) (id : PromptId)
      (hevent : ensureEventDescriptor event.mask event.fd = .ok ())
      (hprepared : prepareEventAction g c event = (.ok (.prompt spec), c))
      (hspec : spec.key = some key) (hkey : c.pendingByKey.lookup key = some id)
      (hid : c.pending.lookup id = none) :
      Handled g c w event (.finished (.error .missingPending), c, w)
  | exhausted (spec : PromptSpec)
      (hevent : ensureEventDescriptor event.mask event.fd = .ok ())
      (hprepared : prepareEventAction g c event = (.ok (.prompt spec), c))
      (hkey : c.pendingPromptId spec.key = none) (hid : ¬ c.nextId + 1 < 2 ^ 64) :
      Handled g c w event (.finished (.error .idOverflow), c, w)
  | sending (spec : PromptSpec) (job : PromptJob)
      (hevent : ensureEventDescriptor event.mask event.fd = .ok ())
      (hprepared : prepareEventAction g c event = (.ok (.prompt spec), c))
      (hkey : c.pendingPromptId spec.key = none) (hid : c.nextId + 1 < 2 ^ 64)
      (hjob : job.id = c.nextId ∧ job.key = spec.key ∧ job.authorization = spec.authorization ∧
        job.reason = spec.reason ∧ job.defaultDecision = spec.defaultDecision) :
      Handled g c w event
        (.sending job
          ⟨spec.key, spec.authorization, [⟨event.fd, event.mask, spec.defaultDecision⟩]⟩,
          { c with nextId := c.nextId + 1 }, w)

theorem handleEvent_cases (g : Guard) (c : PromptCoordinator) (w : World) (event : GuardEvent) :
    Handled g c w event (handleEvent g c w event) := by
  unfold handleEvent
  cases hevent : ensureEventDescriptor event.mask event.fd with
  | error error => exact .rejected error hevent
  | ok =>
    dsimp only
    have hcases := prepareEventAction_cases g c event
    generalize hprepared : prepareEventAction g c event = prepared at hcases ⊢
    cases hcases with
    | failed error => exact .unprepared error hevent hprepared
    | unwatched target => exact .answered .allow c.promptCache hevent hprepared
    | immediate evaluation decision =>
      exact .answered decision _ hevent hprepared
    | prompt evaluation spec scope =>
      dsimp only [queuePrompt]
      cases hkey : c.pendingPromptId spec.key with
      | some id =>
        obtain ⟨key, hspec, hlookup⟩ := Option.bind_eq_some_iff.mp hkey
        dsimp only [PromptCoordinator.appendPendingEvent]
        cases hid : c.pending.lookup id with
        | none => exact .dangling spec key id hevent hprepared hspec hlookup hid
        | some prompt => exact .appended spec key id prompt hevent hprepared hspec hlookup hid
      | none =>
        dsimp only [startPrompt, PromptCoordinator.allocateId]
        by_cases hid : c.nextId + 1 < 2 ^ 64
        · rw [if_pos hid]
          exact .sending spec _ hevent hprepared hkey hid ⟨rfl, rfl, rfl, rfl, rfl⟩
        · rw [if_neg hid]
          exact .exhausted spec hevent hprepared hkey hid

namespace PromptOutcome

def decisionFor : PromptOutcome → PendingEvent → Decision
  | answer decision _, _ => decision
  | failure, event => event.defaultDecision

def cacheAfter (outcome : PromptOutcome) (cache : PromptDecisionCache) (prompt : PendingPrompt) :
    PromptDecisionCache :=
  match outcome with
  | answer decision explicit =>
    cachePromptAnswer cache prompt.key prompt.authorization decision explicit
  | failure => cache

end PromptOutcome

/-- The coordinator once a prompt has left both maps. -/
def PromptCoordinator.forget (c : PromptCoordinator) (id : PromptId) (prompt : PendingPrompt)
    (cache : PromptDecisionCache) : PromptCoordinator where
  promptCache := cache
  pending := c.pending.erase id
  pendingByKey :=
    match prompt.key with
    | some key => c.pendingByKey.erase key
    | none => c.pendingByKey
  nextId := c.nextId

inductive Completed (c : PromptCoordinator) (io : IoResults) (w : World)
    (completion : PromptCompletion) :
    Except GuardError Unit × PromptCoordinator × World → Prop
  | unknown (hid : c.pending.lookup completion.id = none) :
      Completed c io w completion (.error (.unknownPrompt completion.id), c, w)
  | mismatched (prompt : PendingPrompt) (key : PromptDecisionKey)
      (hid : c.pending.lookup completion.id = some prompt) (hprompt : prompt.key = some key)
      (hkey : c.pendingByKey.lookup key ≠ some completion.id) :
      Completed c io w completion
        (.error (.keyMismatch completion.id (c.pendingByKey.lookup key)),
          c.forget completion.id prompt c.promptCache, w)
  | completed (prompt : PendingPrompt) (hid : c.pending.lookup completion.id = some prompt)
      (hkey : ∀ key, prompt.key = some key → c.pendingByKey.lookup key = some completion.id) :
      Completed c io w completion
        ((respondToEvents io completion.outcome.decisionFor w prompt.events).1,
          c.forget completion.id prompt (completion.outcome.cacheAfter c.promptCache prompt),
          (respondToEvents io completion.outcome.decisionFor w prompt.events).2)

theorem completePrompt_eq {c : PromptCoordinator} {io : IoResults} {w : World}
    {completion : PromptCompletion} {prompt : PendingPrompt}
    (hid : c.pending.lookup completion.id = some prompt)
    (hkey : ∀ key, prompt.key = some key → c.pendingByKey.lookup key = some completion.id) :
    c.completePrompt io w completion =
      ((respondToEvents io completion.outcome.decisionFor w prompt.events).1,
        c.forget completion.id prompt (completion.outcome.cacheAfter c.promptCache prompt),
        (respondToEvents io completion.outcome.decisionFor w prompt.events).2) := by
  have hremove : PromptCoordinator.removePendingKey
      { c with pending := c.pending.erase completion.id } completion.id prompt.key =
      (.ok (), c.forget completion.id prompt c.promptCache) := by
    cases hprompt : prompt.key with
    | none => simp [PromptCoordinator.removePendingKey, PromptCoordinator.forget, hprompt]
    | some key =>
      simp [PromptCoordinator.removePendingKey, PromptCoordinator.forget, hprompt,
        hkey key hprompt]
  unfold PromptCoordinator.completePrompt
  simp only [hid, hremove]
  cases completion.outcome <;> rfl

theorem completePrompt_cases (c : PromptCoordinator) (io : IoResults) (w : World)
    (completion : PromptCompletion) :
    Completed c io w completion (c.completePrompt io w completion) := by
  cases hid : c.pending.lookup completion.id with
  | none =>
    unfold PromptCoordinator.completePrompt
    rw [hid]
    exact .unknown hid
  | some prompt =>
    by_cases hkey : ∀ key, prompt.key = some key → c.pendingByKey.lookup key = some completion.id
    · rw [completePrompt_eq hid hkey]
      exact .completed prompt hid hkey
    · obtain ⟨key, hkey⟩ := not_forall.mp hkey
      obtain ⟨hprompt, hne⟩ := Classical.not_imp.mp hkey
      have hremove : PromptCoordinator.removePendingKey
          { c with pending := c.pending.erase completion.id } completion.id prompt.key =
          (.error (.keyMismatch completion.id (c.pendingByKey.lookup key)),
            c.forget completion.id prompt c.promptCache) := by
        simp [PromptCoordinator.removePendingKey, PromptCoordinator.forget, hprompt, hne]
      unfold PromptCoordinator.completePrompt
      simp only [hid, hremove]
      exact .mismatched prompt key hid hprompt hne

/-- The prompt whose job has been sent and which is not in the maps yet. -/
def MainPc.recorded : MainPc → Option (PromptId × PendingPrompt)
  | recording id prompt _ _ => some (id, prompt)
  | _ => none

/-- The main thread has seen that the worker is gone. -/
def MainPc.sawWorkerStop : MainPc → Bool
  | drainingWake closed _ | drainingCompletions closed _ => closed
  | failing => true
  | _ => false

/-- The effects a step can have. -/
inductive Stepped (g : Guard) (s : GuardState) : Move → GuardState → Prop
  /-- the main thread moves on between its operations -/
  | control (a : Move) (main : MainPc) (bytes : Nat) (hlive : s.main.live = true)
      (hrecorded : s.main.recorded = none) (hlive' : main.live = true)
      (hrecorded' : main.recorded = none)
      (hclosed : main.sawWorkerStop = true →
        s.main.sawWorkerStop = true ∨ s.worker.isStopped = true)
      (hdrained : main = .failing → s.completions = [])
      (hfailed : ∀ error, main = .failed error → error.isBookkeeping = false ∧
        ((∃ text, a = .pollError text ∨ a = .wakeError text ∨ a = .readError text) ∨
          a = .endBatch ∧ ∃ text, s.main = .serving [] (.error text))) :
      Stepped g s a { s with main := main, wakeBytes := bytes }
  | handled (event : GuardEvent) (events : List GuardEvent) (tail : Except String Unit)
      (result : Except GuardError Unit) (c : PromptCoordinator) (w : World)
      (hmain : s.main = .serving (event :: events) tail)
      (hfree : s.world.descriptorIsFree event = true)
      (hhandled : Handled g s.coordinator (s.world.handOver event) event (.finished result, c, w)) :
      Stepped g s .handle
        { s with coordinator := c, world := w, main := .afterEvent result events tail }
  | sent (event : GuardEvent) (events : List GuardEvent) (tail : Except String Unit)
      (job : PromptJob) (prompt : PendingPrompt) (c : PromptCoordinator) (w : World)
      (hmain : s.main = .serving (event :: events) tail)
      (hfree : s.world.descriptorIsFree event = true)
      (hhandled : Handled g s.coordinator (s.world.handOver event) event
        (.sending job prompt, c, w))
      (hstopped : s.worker.isStopped = false) :
      Stepped g s .handle
        { s with
          coordinator := c, jobs := s.jobs ++ [job]
          world := w.observe (.queued (w.eventOf event.fd) job.id)
          main := .recording job.id prompt events tail }
  | unsent (event : GuardEvent) (events : List GuardEvent) (tail : Except String Unit)
      (job : PromptJob) (prompt : PendingPrompt) (c : PromptCoordinator) (w : World)
      (error : GuardError) (hmain : s.main = .serving (event :: events) tail)
      (hfree : s.world.descriptorIsFree event = true)
      (hhandled : Handled g s.coordinator (s.world.handOver event) event
        (.sending job prompt, c, w))
      (hstopped : s.worker.isStopped = true)
      (herror : error = .sendingPrompt ∨
        (respondAndCloseEvent g.io w event.fd event.mask job.defaultDecision).1 = .error error) :
      Stepped g s .handle
        { s with
          coordinator := c, main := .failed error
          world := (respondAndCloseEvent g.io w event.fd event.mask job.defaultDecision).2 }
  | recorded (id : PromptId) (prompt : PendingPrompt) (events : List GuardEvent)
      (tail : Except String Unit) (hmain : s.main = .recording id prompt events tail) :
      Stepped g s .record
        { s with
          coordinator := s.coordinator.recordPrompt id prompt, main := .serving events tail }
  | completed (closed ready : Bool) (completion : PromptCompletion)
      (completions : List PromptCompletion) (result : Except GuardError Unit)
      (c : PromptCoordinator) (w : World) (main : MainPc)
      (hmain : s.main = .drainingCompletions closed ready)
      (hcompletions : s.completions = completion :: completions)
      (hcompleted : Completed s.coordinator g.io s.world completion (result, c, w))
      (hmain' : main = .drainingCompletions closed ready ∧ result = .ok () ∨
        ∃ error, main = .failed error ∧ result = .error error) :
      Stepped g s .tryRecv
        { s with coordinator := c, world := w, completions := completions, main := main }
  | fellBack (order : List PromptId) (error : GuardError) (hmain : s.main = .failing)
      (horder : order.Perm s.coordinator.pending.keys)
      (herror : error = .workerStopped ∨ ∃ inner, error = .workerStoppedPending inner ∧
        (PromptCoordinator.failPrompts g.io s.world
          (order.filterMap s.coordinator.pending.lookup)).1 = .error inner) :
      Stepped g s (.failPending order)
        { s with
          coordinator := { s.coordinator with pending := ∅, pendingByKey := ∅ }
          world := (PromptCoordinator.failPrompts g.io s.world
            (order.filterMap s.coordinator.pending.lookup)).2
          main := .failed error }
  | dropped (error : GuardError) (hmain : s.main = .failed error) :
      Stepped g s .drop
        { s with
          coordinator := { s.coordinator with pending := ∅, pendingByKey := ∅ }
          completions := [], wakeBytes := 0, main := .joining error }
  | joined (error error' : GuardError) (hmain : s.main = .joining error)
      (herror : error' = error ∨ error' = .workerPanicked) :
      Stepped g s .join { s with main := .returned error' }
  | received (job : PromptJob) (jobs : List PromptJob) (hworker : s.worker = .idle)
      (hjobs : s.jobs = job :: jobs) :
      Stepped g s .workerRecv { s with jobs := jobs, worker := .asking job }
  | resolved (job : PromptJob) (current : Int → Nat → Bool)
      (askAnswer : PromptRequest → Except String PromptAnswer) (outcome : PromptOutcome)
      (houtcome : outcome = resolvePromptJob ⟨askAnswer, g.requiresGraphicalSession⟩ current job)
      (hworker : s.worker = .asking job) (hlive : s.main.live = true) :
      Stepped g s (.workerResolve current askAnswer)
        { s with
          world := s.world.observe (.answered job outcome)
          completions := s.completions ++ [⟨job.id, outcome⟩]
          worker := .notifying }
  | notified (hworker : s.worker = .notifying) (hlive : s.main.live = true) :
      Stepped g s .workerNotify { s with wakeBytes := s.wakeBytes + 1, worker := .idle }
  /-- the worker ends; a backend that panicked has given no answer -/
  | stopped (a : Move) (panicked : Bool) (answers : List Observation)
      (hanswers : ∀ o ∈ answers, ∃ job outcome, s.worker = .asking job ∧ o = .answered job outcome) :
      Stepped g s a
        (({ s with world := { s.world with trace := s.world.trace ++ answers } } :
          GuardState).stopWorker panicked)

theorem stopped_of_no_answer {g : Guard} {s : GuardState} (a : Move) (panicked : Bool) :
    Stepped g s a (s.stopWorker panicked) := by
  have hstopped := Stepped.stopped (g := g) (s := s) a panicked [] (by simp)
  simpa using hstopped

theorem handle_inv {g : Guard} {s t : GuardState} (h : s.handle g = some t) :
    Stepped g s .handle t := by
  unfold GuardState.handle at h
  split at h
  · rename_i event events tail hmain
    split at h
    · rename_i hfree
      have hcases := handleEvent_cases g s.coordinator (s.world.handOver event) event
      split at h
      · rename_i result c w hhandled
        rw [hhandled] at hcases
        rw [← Option.some.inj h]
        exact .handled event events tail result c w hmain hfree hcases
      · rename_i job prompt c w hhandled
        rw [hhandled] at hcases
        split at h
        · rename_i hstopped
          rw [← Option.some.inj h]
          refine .unsent event events tail job prompt c w _ hmain hfree hcases hstopped ?_
          dsimp only
          split
          · exact .inl rfl
          · rename_i error herror
            exact .inr herror
        · rename_i hstopped
          rw [← Option.some.inj h]
          exact .sent event events tail job prompt c w hmain hfree hcases
            (Bool.eq_false_iff.mpr hstopped)
    · cases h
  · cases h

theorem tryRecv_inv {g : Guard} {s t : GuardState} (h : s.tryRecv g = some t) :
    Stepped g s .tryRecv t := by
  unfold GuardState.tryRecv at h
  split at h
  · rename_i closed ready hmain
    split at h
    · rename_i completion completions hcompletions
      have hcases := completePrompt_cases s.coordinator g.io s.world completion
      generalize s.coordinator.completePrompt g.io s.world completion = r at h hcases
      obtain ⟨result, c, w⟩ := r
      rw [← Option.some.inj h]
      refine .completed closed ready completion completions result c w _ hmain hcompletions hcases
        ?_
      cases result with
      | ok => exact .inl ⟨rfl, rfl⟩
      | error error => exact .inr ⟨error, rfl, rfl⟩
    · rename_i hcompletions
      -- the channel is empty: the fallback, or what follows the completions
      rw [← Option.some.inj h]
      refine .control _ _ s.wakeBytes (by rw [hmain]; rfl) (by rw [hmain]; rfl) ?_ ?_ ?_
        (fun _ => hcompletions) ?_
      · split
        · rfl
        · cases ready <;> rfl
      · split
        · rfl
        · cases ready <;> rfl
      · intro hsaw
        split at hsaw
        · rename_i hclosed
          rw [hmain]
          simpa [MainPc.sawWorkerStop] using hclosed
        · cases ready <;> cases hsaw
      · intro error hfailed
        split at hfailed
        · cases hfailed
        · cases ready <;> cases hfailed
  · cases h

theorem failPending_inv {g : Guard} {s t : GuardState} {order : List PromptId}
    (h : s.failPending g order = some t) : Stepped g s (.failPending order) t := by
  unfold GuardState.failPending at h
  split at h
  · rename_i hmain
    split at h
    · rename_i horder
      rw [← Option.some.inj h]
      refine .fellBack order _ hmain horder ?_
      split
      · rename_i inner hinner
        exact .inr ⟨inner, rfl, hinner⟩
      · exact .inl rfl
    · cases h
  · cases h

theorem workerRecv_inv {g : Guard} {s t : GuardState} (h : s.workerRecv = some t) :
    Stepped g s .workerRecv t := by
  unfold GuardState.workerRecv at h
  split at h
  · rename_i job jobs hworker hjobs
    rw [← Option.some.inj h]
    exact .received job jobs hworker hjobs
  · -- no job is left: the worker waits, or its channel is closed
    split at h
    · cases h
    · rw [← Option.some.inj h]
      exact stopped_of_no_answer _ _
  · cases h

theorem workerResolve_inv {g : Guard} {s t : GuardState} {current : Int → Nat → Bool}
    {ask : PromptRequest → Except String PromptAnswer}
    (h : s.workerResolve g current ask = some t) : Stepped g s (.workerResolve current ask) t := by
  unfold GuardState.workerResolve at h
  split at h
  · rename_i job hworker
    dsimp only at h
    split at h
    · rename_i hlive
      rw [← Option.some.inj h]
      exact .resolved job current ask _ rfl hworker hlive
    · -- the prompt has been answered, but nobody receives the completion
      rw [← Option.some.inj h]
      refine .stopped _ false [.answered job _] ?_
      intro o ho
      exact ⟨job, _, hworker, List.mem_singleton.mp ho⟩
  · cases h

theorem workerNotify_inv {g : Guard} {s t : GuardState} (h : s.workerNotify = some t) :
    Stepped g s .workerNotify t := by
  unfold GuardState.workerNotify at h
  split at h
  · rename_i hworker
    split at h
    · rename_i hlive
      rw [← Option.some.inj h]
      exact .notified hworker hlive
    · rw [← Option.some.inj h]
      exact stopped_of_no_answer _ _
  · cases h

theorem workerFail_inv {g : Guard} {s t : GuardState} (h : s.workerFail = some t) :
    Stepped g s .workerFail t := by
  unfold GuardState.workerFail at h
  split at h
  · rw [← Option.some.inj h]
    exact stopped_of_no_answer _ _
  · rw [← Option.some.inj h]
    exact stopped_of_no_answer _ _
  · cases h

theorem poll_inv {g : Guard} {s t : GuardState} {fanotifyReady : Bool}
    (h : s.poll fanotifyReady = some t) : Stepped g s (.poll fanotifyReady) t := by
  unfold GuardState.poll at h
  split at h
  · rename_i hmain
    have hlive : s.main.live = true := by rw [hmain]; rfl
    have hrecorded : s.main.recorded = none := by rw [hmain]; rfl
    split at h
    · rw [← Option.some.inj h]
      exact .control _ _ s.wakeBytes hlive hrecorded rfl rfl .inr nofun nofun
    · split at h
      · rw [← Option.some.inj h]
        exact .control _ _ s.wakeBytes hlive hrecorded rfl rfl nofun nofun nofun
      · cases h
  · cases h

theorem readWake_inv {g : Guard} {s t : GuardState} (h : s.readWake = some t) :
    Stepped g s .readWake t := by
  unfold GuardState.readWake at h
  split at h
  · rename_i closed ready hmain
    have hlive : s.main.live = true := by rw [hmain]; rfl
    have hrecorded : s.main.recorded = none := by rw [hmain]; rfl
    split at h
    · -- more bytes may be waiting, so the state of the loop is the same
      rw [← Option.some.inj h]
      exact .control _ s.main _ hlive hrecorded hlive hrecorded .inl
        (by rw [hmain]; exact nofun) (by rw [hmain]; exact nofun)
    · rw [← Option.some.inj h]
      refine .control _ _ s.wakeBytes hlive hrecorded rfl rfl ?_ nofun nofun
      intro hsaw
      rw [hmain]
      simpa [MainPc.sawWorkerStop] using hsaw
  · cases h

theorem endBatch_inv {g : Guard} {s t : GuardState} (h : s.endBatch = some t) :
    Stepped g s .endBatch t := by
  unfold GuardState.endBatch at h
  split at h
  · rename_i hmain
    rw [← Option.some.inj h]
    exact .control _ _ s.wakeBytes (by rw [hmain]; rfl) (by rw [hmain]; rfl) rfl rfl nofun nofun
      nofun
  · rename_i text hmain
    rw [← Option.some.inj h]
    refine .control _ _ s.wakeBytes (by rw [hmain]; rfl) (by rw [hmain]; rfl) rfl rfl nofun nofun
      ?_
    rintro _ ⟨⟩
    exact ⟨rfl, .inr ⟨rfl, text, hmain⟩⟩
  · cases h

/-- Every step has one of the listed effects. -/
theorem step_inv {g : Guard} {s t : GuardState} {a : Move} (h : s.step g a = some t) :
    Stepped g s a t := by
  -- the moves that end the loop at once
  have hfails : ∀ (a : Move) (error : GuardError) (_ : s.main.live = true)
      (_ : s.main.recorded = none) (_ : error.isBookkeeping = false)
      (_ : ∃ text, a = .pollError text ∨ a = .wakeError text ∨ a = .readError text),
      Stepped g s a { s with main := .failed error } := by
    intro a error hlive hrecorded herror ha
    refine .control a _ s.wakeBytes hlive hrecorded rfl rfl nofun nofun ?_
    rintro _ ⟨⟩
    exact ⟨herror, .inl ha⟩
  cases a with
  | poll fanotifyReady => exact poll_inv h
  | pollError text =>
    simp only [GuardState.step] at h
    split at h
    · rename_i hmain
      rw [← Option.some.inj h]
      exact hfails _ _ (by rw [hmain]; rfl) (by rw [hmain]; rfl) rfl ⟨text, .inl rfl⟩
    · cases h
  | readWake => exact readWake_inv h
  | wakeError text =>
    simp only [GuardState.step] at h
    split at h
    · rename_i hmain
      rw [← Option.some.inj h]
      exact hfails _ _ (by rw [hmain]; rfl) (by rw [hmain]; rfl) rfl ⟨text, .inr (.inl rfl)⟩
    · cases h
  | tryRecv => exact tryRecv_inv h
  | failPending order => exact failPending_inv h
  | readBatch events tail =>
    simp only [GuardState.step] at h
    split at h
    · rename_i hmain
      rw [← Option.some.inj h]
      exact .control _ _ s.wakeBytes (by rw [hmain]; rfl) (by rw [hmain]; rfl) rfl rfl nofun nofun
        nofun
    · cases h
  | readError text =>
    simp only [GuardState.step] at h
    split at h
    · rename_i hmain
      rw [← Option.some.inj h]
      exact hfails _ _ (by rw [hmain]; rfl) (by rw [hmain]; rfl) rfl ⟨text, .inr (.inr rfl)⟩
    · cases h
  | handle => exact handle_inv h
  | endBatch => exact endBatch_inv h
  | record =>
    simp only [GuardState.step, GuardState.record] at h
    split at h
    · rename_i id prompt events tail hmain
      rw [← Option.some.inj h]
      exact .recorded id prompt events tail hmain
    · cases h
  | drop =>
    simp only [GuardState.step, GuardState.drop] at h
    split at h
    · rename_i error hmain
      rw [← Option.some.inj h]
      exact .dropped error hmain
    · cases h
  | join =>
    simp only [GuardState.step, GuardState.join] at h
    split at h
    · rename_i error panicked hmain hworker
      rw [← Option.some.inj h]
      refine .joined error _ hmain ?_
      cases panicked
      · exact .inl rfl
      · exact .inr rfl
    · cases h
  | workerRecv => exact workerRecv_inv h
  | workerResolve current ask => exact workerResolve_inv h
  | workerNotify => exact workerNotify_inv h
  | workerFail => exact workerFail_inv h

end ConfigGuard
