import ConfigGuard.Guard.Bookkeeping
import ConfigGuard.Prompt.Stability

/-!
# The guard and the synchronous resolver

The coordinator serving accesses one after the other, each prompt completed
before the next access arrives, against the resolver that asks on the spot.
-/

namespace ConfigGuard
open OsPath Transition

/-- One event with what the guard has found out about it, and the backend and
the processes as they are while it is served. -/
structure GuardAccess where
  event : GuardEvent
  target : Path
  evaluation : GuardEvaluation
  askAnswer : PromptRequest → Except String PromptAnswer
  current : Int → Nat → Bool

/-- The processes the prompt is about are the ones the guard saw. -/
structure GuardAccess.Current (a : GuardAccess) : Prop where
  helper : ∀ key, a.evaluation.promptKey = some key → key.isCurrentProcess a.current = true
  owner : ∀ authorization, a.evaluation.authorization = some authorization →
    authorization.ownerIsCurrent a.current = true

def GuardAccess.resolution (g : Guard) (a : GuardAccess) : Resolution where
  prompt := ⟨a.askAnswer, g.requiresGraphicalSession⟩
  key := a.evaluation.promptKey
  request :=
    { authorization := a.evaluation.authorization
      subject := a.evaluation.subject
      targetPath := a.target
      env := a.event.env
      decision := a.evaluation.policyDecision }

/-- An access served to its end: the event is handed over, answered at once or
queued, and a prompt it starts is resolved and completed. Failed writes would
end the loop; here they are passed over. -/
def serve (g : Guard) (c : PromptCoordinator) (w : World) (a : GuardAccess) :
    PromptCoordinator × World :=
  let w := w.handOver a.event
  match resolveGuardAction g c a.event a.target a.evaluation with
  | (.respond decision, c) =>
    (c, (respondAndCloseEvent g.io w a.event.fd a.event.mask decision).2)
  | (.prompt spec, c) =>
    match queuePrompt c w a.event spec with
    | (.finished _, c, w) => (c, w)
    | (.sending job prompt, c, w) =>
      let w := w.observe (.queued (w.eventOf a.event.fd) job.id)
      let outcome := resolvePromptJob ⟨a.askAnswer, g.requiresGraphicalSession⟩ a.current job
      let w := w.observe (.answered job outcome)
      ((c.recordPrompt job.id prompt).completePrompt g.io w ⟨job.id, outcome⟩).2

def serveAll (g : Guard) (c : PromptCoordinator) (w : World) :
    List GuardAccess → PromptCoordinator × World
  | [] => (c, w)
  | a :: accesses => serveAll g (serve g c w a).1 (serve g c w a).2 accesses

/-- The responses written, in order. -/
def responses (trace : List Observation) : List Decision :=
  trace.filterMap fun
    | .responded _ decision _ => some decision
    | .closed _ _ | .queued _ _ | .answered _ _ => none

/-- The responses the resolver's decisions would make, and the cache it ends with. -/
def resolveAll (g : Guard) (cache : PromptDecisionCache) :
    List GuardAccess → List Decision × PromptDecisionCache
  | [] => ([], cache)
  | a :: accesses =>
    let (decision, cache) := resolve cache (a.resolution g)
    let (decisions, cache) := resolveAll g cache accesses
    (if isPermissionEvent a.event.mask then decision :: decisions else decisions, cache)

/-- How many of the accesses the resolver puts to the backend. -/
def prompted (g : Guard) (cache : PromptDecisionCache) : List GuardAccess → Nat
  | [] => 0
  | a :: accesses =>
    (if (immediateFor cache (a.resolution g)).1.isNone then 1 else 0) +
      prompted g (resolve cache (a.resolution g)).2 accesses

/-- Nothing is pending. -/
structure Idle (c : PromptCoordinator) : Prop where
  pending : ∀ id, c.pending.lookup id = none
  pendingByKey : ∀ key, c.pendingByKey.lookup key = none

theorem responses_append (l l' : List Observation) :
    responses (l ++ l') = responses l ++ responses l' := List.filterMap_append

theorem responses_settlement (io : IoResults) (n : Nat) (event : Option EventId) (mask : UInt64)
    (decision : Decision) :
    responses (settlement io n event mask decision) =
      if isPermissionEvent mask then [decision] else [] := by
  rw [settlement]
  split <;> rfl

theorem responses_respondAndClose (io : IoResults) (w : World) (fd : Int) (mask : UInt64)
    (decision : Decision) :
    responses (respondAndCloseEvent io w fd mask decision).2.trace =
      responses w.trace ++ if isPermissionEvent mask then [decision] else [] := by
  rw [trace_respondAndCloseEvent, responses_append, responses_settlement]

/-- No event is held open. -/
def World.NoneOpen (w : World) : Prop := ∀ fd, w.eventOf fd = none

theorem World.NoneOpen.settle {w w' : World} (h : w.NoneOpen) {event : GuardEvent}
    (hw : w'.descriptors = (w.handOver event).descriptors) (io : IoResults) (mask : UInt64)
    (decision : Decision) : (respondAndCloseEvent io w' event.fd mask decision).2.NoneOpen := by
  intro fd
  by_cases hfd : fd = event.fd
  · rw [hfd]
    exact eventOf_respondAndCloseEvent_self _ _ _ _ _
  · rw [eventOf_respondAndCloseEvent_ne _ _ _ _ _ hfd, World.eventOf, hw]
    exact (World.eventOf_handOver_ne w event hfd).trans (h fd)

/-- What serving an access does to an idle coordinator, with the resolver's
decision and cache. -/
structure Served (c : PromptCoordinator) (w : World) (a : GuardAccess) (decision : Decision)
    (cache : PromptDecisionCache) (nextId : PromptId) (result : PromptCoordinator × World) :
    Prop where
  idle : Idle result.1
  cache : result.1.promptCache = cache
  nextId : result.1.nextId = nextId
  responses : ConfigGuard.responses result.2.trace = ConfigGuard.responses w.trace ++
    if isPermissionEvent a.event.mask then [decision] else []
  noneOpen : w.NoneOpen → result.2.NoneOpen

section Serve

variable {g : Guard} {c : PromptCoordinator} {w : World} {a : GuardAccess}

theorem resolveGuardAction_immediate {decision : Decision} {cache : PromptDecisionCache}
    (himm : immediateFor c.promptCache (a.resolution g) = (some decision, cache)) :
    resolveGuardAction g c a.event a.target a.evaluation =
      (.respond decision, { c with promptCache := cache }) := by
  have himm : immediatePromptDecision g.requiresGraphicalSession c.promptCache
      a.evaluation.promptKey a.evaluation.authorization a.event.env a.evaluation.policyDecision =
        (some decision, cache) := himm
  simp only [resolveGuardAction, PromptCoordinator.immediateDecision, himm]

theorem serve_immediate (hidle : Idle c) {decision : Decision}
    (himmediate : (immediateFor c.promptCache (a.resolution g)).1 = some decision) :
    Served c w a (resolve c.promptCache (a.resolution g)).1
      (resolve c.promptCache (a.resolution g)).2 c.nextId (serve g c w a) := by
  obtain ⟨cache, hcache⟩ : ∃ cache, immediateFor c.promptCache (a.resolution g) =
      (some decision, cache) := ⟨_, Prod.ext himmediate rfl⟩
  have hresolve : resolve c.promptCache (a.resolution g) = (decision, cache) := by
    rw [immediateFor] at hcache
    rw [resolve, promptForPolicyDecisionWithAuthorization, hcache]
  rw [hresolve, serve, resolveGuardAction_immediate hcache]
  exact ⟨⟨hidle.pending, hidle.pendingByKey⟩, rfl, rfl, responses_respondAndClose _ _ _ _ _,
    fun hnone => hnone.settle rfl _ _ _⟩

theorem resolvePromptJob_current {prompt : Prompt} {current : Int → Nat → Bool} {job : PromptJob}
    (hhelper : ∀ key, job.key = some key → key.isCurrentProcess current = true)
    (howner : ∀ authorization, job.authorization = some authorization →
      authorization.ownerIsCurrent current = true) :
    resolvePromptJob prompt current job = askPrompt prompt
      ⟨job.subject, job.targetPath, job.reason, job.defaultDecision, job.env,
        job.authorization⟩ := by
  have hkey : (job.key.any fun key => !key.isCurrentProcess current) = false := by
    cases hk : job.key with
    | none => rfl
    | some key => rw [Option.any_some, hhelper key hk]; rfl
  have hauthorization : (job.authorization.any fun authorization =>
      !authorization.ownerIsCurrent current) = false := by
    cases ha : job.authorization with
    | none => rfl
    | some authorization => rw [Option.any_some, howner authorization ha]; rfl
  rw [resolvePromptJob, hkey, hauthorization]
  rfl

/-- A prompt recorded by an idle coordinator is completed, and leaves it idle. -/
theorem complete_recorded (hidle : Idle c) (io : IoResults) (id : PromptId)
    (prompt : PendingPrompt) (outcome : PromptOutcome) :
    ∃ c', (c.recordPrompt id prompt).completePrompt io w ⟨id, outcome⟩ =
        ((respondToEvents io outcome.decisionFor w prompt.events).1, c',
          (respondToEvents io outcome.decisionFor w prompt.events).2) ∧
      Idle c' ∧ c'.nextId = c.nextId ∧
      c'.promptCache = outcome.cacheAfter c.promptCache prompt := by
  have hpending : ∀ other p, (c.recordPrompt id prompt).pending.lookup other = some p ↔
      other = id ∧ p = prompt := by
    intro other p
    simp [PromptCoordinator.pending_recordPrompt (hidle.pending id), hidle.pending]
  have hbyKey : ∀ key other, (c.recordPrompt id prompt).pendingByKey.lookup key = some other ↔
      prompt.key = some key ∧ other = id := by
    intro key other
    simp [PromptCoordinator.pendingByKey_recordPrompt fun key _ => hidle.pendingByKey key,
      hidle.pendingByKey]
  refine ⟨(c.recordPrompt id prompt).forget id prompt (outcome.cacheAfter c.promptCache prompt),
    ?_, ⟨?_, ?_⟩, rfl, rfl⟩
  · rw [completePrompt_eq ((hpending id prompt).mpr ⟨rfl, rfl⟩)
      (fun key hkey => (hbyKey key id).mpr ⟨hkey, rfl⟩)]
    rfl
  · intro other
    rw [Option.eq_none_iff_forall_ne_some]
    intro p hp
    obtain ⟨hne, hp⟩ := PromptCoordinator.pending_forget.mp hp
    exact hne ((hpending other p).mp hp).1
  · intro key
    rw [Option.eq_none_iff_forall_ne_some]
    intro other hother
    obtain ⟨hne, hother⟩ := PromptCoordinator.pendingByKey_forget.mp hother
    exact hne ((hbyKey key other).mp hother).1

/-- An idle coordinator sends a job for every prompt, while ids last. -/
theorem queuePrompt_idle (hidle : Idle c) (hid : c.nextId + 1 < 2 ^ 64) (event : GuardEvent)
    (spec : PromptSpec) :
    queuePrompt c w event spec =
      (.sending
        ⟨c.nextId, spec.key, spec.authorization, spec.subject, spec.targetPath, spec.reason,
          spec.defaultDecision, spec.env⟩
        ⟨spec.key, spec.authorization, [⟨event.fd, event.mask, spec.defaultDecision⟩]⟩,
        { c with nextId := c.nextId + 1 }, w) := by
  have hpending : c.pendingPromptId spec.key = none :=
    Option.bind_eq_none_iff.mpr fun key _ => hidle.pendingByKey key
  simp only [queuePrompt, hpending, startPrompt, PromptCoordinator.allocateId, if_pos hid]

/-- The prompt an access starts, with the reason and the default of its decision. -/
def GuardAccess.spec (a : GuardAccess) (reason : DecisionReason) (default : Decision) :
    PromptSpec :=
  ⟨a.evaluation.promptKey, a.evaluation.authorization, a.evaluation.subject, a.target, reason,
    default, a.event.env⟩

/-- What the backend makes of the access. -/
def GuardAccess.outcome (g : Guard) (a : GuardAccess) (reason : DecisionReason)
    (default : Decision) : PromptOutcome :=
  askPrompt ⟨a.askAnswer, g.requiresGraphicalSession⟩
    ⟨a.evaluation.subject, a.target, reason, default, a.event.env, a.evaluation.authorization⟩

variable {reason : DecisionReason} {default : Decision} {scope : Path}

theorem resolveGuardAction_prompt
    (hdecision : a.evaluation.policyDecision = .prompt reason default scope)
    (himm : immediateFor c.promptCache (a.resolution g) = (none, c.promptCache)) :
    resolveGuardAction g c a.event a.target a.evaluation = (.prompt (a.spec reason default), c) := by
  have himm : immediatePromptDecision g.requiresGraphicalSession c.promptCache
      a.evaluation.promptKey a.evaluation.authorization a.event.env a.evaluation.policyDecision =
        (none, c.promptCache) := himm
  simp only [resolveGuardAction, PromptCoordinator.immediateDecision, himm]
  simp only [promptSpec, hdecision]
  rfl

/-- What the resolver does with a prompt that is not immediate. -/
theorem resolve_prompt {cache : PromptDecisionCache}
    (hdecision : a.evaluation.policyDecision = .prompt reason default scope)
    (himm : immediateFor cache (a.resolution g) = (none, cache)) (events : List PendingEvent)
    (event : PendingEvent) (hdefault : event.defaultDecision = default) :
    resolve cache (a.resolution g) =
      ((a.outcome g reason default).decisionFor event,
        (a.outcome g reason default).cacheAfter cache
          ⟨a.evaluation.promptKey, a.evaluation.authorization, events⟩) := by
  rw [immediateFor] at himm
  rw [resolve, promptForPolicyDecisionWithAuthorization, himm]
  simp only [GuardAccess.resolution, buildPolicyPromptRequest, hdecision]
  rw [GuardAccess.outcome]
  cases askPrompt _ _ with
  | answer decision explicit => rfl
  | failure => rw [PromptOutcome.decisionFor, hdefault]; rfl

theorem serve_prompt (hidle : Idle c) (hcurrent : a.Current)
    (hnone : (immediateFor c.promptCache (a.resolution g)).1 = none)
    (hid : c.nextId + 1 < 2 ^ 64) :
    Served c w a (resolve c.promptCache (a.resolution g)).1
      (resolve c.promptCache (a.resolution g)).2 (c.nextId + 1) (serve g c w a) := by
  obtain ⟨⟨reason, default, scope, hdecision⟩, himm⟩ := immediatePromptDecision_none hnone
  let event : PendingEvent := ⟨a.event.fd, a.event.mask, default⟩
  -- the coordinator the job is recorded in is idle as well
  have hidle' : Idle { c with nextId := c.nextId + 1 } := ⟨hidle.pending, hidle.pendingByKey⟩
  have hcomplete := fun w => complete_recorded (w := w) hidle' g.io c.nextId
    ⟨a.evaluation.promptKey, a.evaluation.authorization, [event]⟩ (a.outcome g reason default)
  rw [resolve_prompt hdecision himm [event] event rfl, serve, resolveGuardAction_prompt hdecision himm]
  dsimp only
  rw [queuePrompt_idle hidle hid]
  dsimp only [GuardAccess.spec]
  -- the processes are current, so the worker puts the prompt to the backend
  rw [resolvePromptJob_current hcurrent.helper hcurrent.owner]
  obtain ⟨c', hcomplete, hidle', hnext, hcache⟩ := hcomplete (((w.handOver a.event).observe
    (.queued ((w.handOver a.event).eventOf a.event.fd) c.nextId)).observe
      (.answered ⟨c.nextId, a.evaluation.promptKey, a.evaluation.authorization,
        a.evaluation.subject, a.target, reason, default, a.event.env⟩
        (a.outcome g reason default)))
  rw [GuardAccess.outcome] at hcomplete
  rw [hcomplete]
  refine ⟨hidle', hcache, hnext, ?_, ?_⟩
  · -- the queueing and the outcome are observed, but they are no responses
    show responses (respondAndCloseEvent g.io _ event.fd event.mask _).2.trace = _
    rw [responses_respondAndClose, World.trace_observe, World.trace_observe, World.trace_handOver,
      responses_append, responses_append]
    simp only [responses, List.filterMap_cons, List.filterMap_nil, List.append_nil]
    rfl
  · intro hnone
    show (respondAndCloseEvent g.io _ a.event.fd event.mask _).2.NoneOpen
    apply hnone.settle
    rfl

theorem serve_served (hidle : Idle c) (hcurrent : a.Current)
    (hid : prompted g c.promptCache [a] + c.nextId < 2 ^ 64) :
    Served c w a (resolve c.promptCache (a.resolution g)).1
      (resolve c.promptCache (a.resolution g)).2 (prompted g c.promptCache [a] + c.nextId)
      (serve g c w a) := by
  cases himmediate : (immediateFor c.promptCache (a.resolution g)).1 with
  | some decision =>
    have hserved := serve_immediate (w := w) hidle himmediate
    simpa [prompted, himmediate] using hserved
  | none =>
    simp only [prompted, himmediate, Option.isNone_none, if_true, add_zero] at hid ⊢
    rw [Nat.add_comm] at hid ⊢
    exact serve_prompt hidle hcurrent himmediate hid

end Serve

theorem prompted_cons (g : Guard) (cache : PromptDecisionCache) (a : GuardAccess)
    (accesses : List GuardAccess) :
    prompted g cache (a :: accesses) = prompted g cache [a] +
      prompted g (resolve cache (a.resolution g)).2 accesses := rfl

/-- The coordinator and the resolver over a whole sequence, while ids last. -/
theorem serveAll_resolveAll (g : Guard) (accesses : List GuardAccess)
    (hcurrent : ∀ a ∈ accesses, a.Current) {c : PromptCoordinator} (hidle : Idle c) (w : World)
    (hid : prompted g c.promptCache accesses + c.nextId < 2 ^ 64) :
    Idle (serveAll g c w accesses).1 ∧
      (serveAll g c w accesses).1.nextId = prompted g c.promptCache accesses + c.nextId ∧
      responses (serveAll g c w accesses).2.trace =
        responses w.trace ++ (resolveAll g c.promptCache accesses).1 ∧
      (serveAll g c w accesses).1.promptCache = (resolveAll g c.promptCache accesses).2 := by
  induction accesses generalizing c w with
  | nil => exact ⟨hidle, (Nat.zero_add _).symm, (List.append_nil _).symm, rfl⟩
  | cons a accesses ih =>
    rw [prompted_cons] at hid ⊢
    have hserved := serve_served (g := g) (w := w) hidle (hcurrent a List.mem_cons_self) (by omega)
    have hrest := ih (fun b hb => hcurrent b (List.mem_cons_of_mem _ hb)) hserved.idle
      (serve g c w a).2 (by rw [hserved.cache, hserved.nextId]; omega)
    rw [hserved.cache, hserved.nextId, hserved.responses] at hrest
    obtain ⟨hidle', hnext, hresponses, hcache⟩ := hrest
    refine ⟨hidle', ?_, ?_, hcache⟩
    · rw [serveAll, hnext]
      exact (Nat.add_left_comm _ _ _).trans (Nat.add_assoc _ _ _).symm
    · rw [serveAll, hresponses, resolveAll]
      dsimp only
      split
      · exact List.append_assoc _ _ _
      · rw [List.append_nil]

theorem idle_new (cache : PromptDecisionCache) : Idle (.new cache) :=
  ⟨fun _ => rfl, fun _ => rfl⟩

/-- The main loop in `poll`, the worker idle and nothing on its way between the two. -/
def GuardState.waiting (c : PromptCoordinator) (w : World) : GuardState where
  coordinator := c
  world := w
  jobs := []
  completions := []
  wakeBytes := 0
  main := .polling
  worker := .idle

/-- The event can be received, and the access is what the guard finds out about it. -/
structure GuardAccess.Arrives (g : Guard) (a : GuardAccess) : Prop where
  descriptor : ensureEventDescriptor a.event.mask a.event.fd = .ok ()
  target : a.event.target = .ok a.target
  watched : isWatchedPath a.target g.paths g.excludedPaths = true
  evaluation : evaluateGuardAccess g a.event a.target = .ok a.evaluation

section Run

variable {g : Guard} {c : PromptCoordinator} {w : World} {a : GuardAccess}

theorem handleEvent_respond (ha : a.Arrives g) {decision : Decision} {c' : PromptCoordinator}
    (haction : resolveGuardAction g c a.event a.target a.evaluation = (.respond decision, c')) :
    handleEvent g c w a.event =
      (.finished (respondAndCloseEvent g.io w a.event.fd a.event.mask decision).1, c',
        (respondAndCloseEvent g.io w a.event.fd a.event.mask decision).2) := by
  simp only [handleEvent, ha.descriptor, prepareEventAction, ha.target, ha.watched, if_true,
    ha.evaluation, haction]

theorem handleEvent_prompt (ha : a.Arrives g) {spec : PromptSpec} {c' : PromptCoordinator}
    (haction : resolveGuardAction g c a.event a.target a.evaluation = (.prompt spec, c')) :
    handleEvent g c w a.event = queuePrompt c' w a.event spec := by
  simp only [handleEvent, ha.descriptor, prepareEventAction, ha.target, ha.watched, if_true,
    ha.evaluation, haction]

variable (g c w) in
/-- The event is read as a batch of its own. -/
theorem waiting_serving (event : GuardEvent) :
    Steps (guardRun g) anyStep (.waiting c w)
      { GuardState.waiting c w with main := .serving [event] (.ok ()) } :=
  exec_steps (show exec _ anyStep _ [.poll true, .readBatch [event] (.ok ())] = _ from rfl)

/-- The worker resolves the one job it has been sent. -/
theorem sent_answered (job : PromptJob) (askAnswer : PromptRequest → Except String PromptAnswer)
    (current : Int → Nat → Bool) :
    Steps (guardRun g) anyStep
      { GuardState.waiting c w with jobs := [job], main := .serving [] (.ok ()) }
      { GuardState.waiting c (w.observe (.answered job
          (resolvePromptJob ⟨askAnswer, g.requiresGraphicalSession⟩ current job))) with
        completions :=
          [⟨job.id, resolvePromptJob ⟨askAnswer, g.requiresGraphicalSession⟩ current job⟩]
        wakeBytes := 1 } :=
  exec_steps (show exec _ anyStep _
    [.workerRecv, .workerResolve current askAnswer, .workerNotify, .endBatch] = _ from rfl)

/-- The wake byte ends the poll, and the completion behind it is processed. -/
theorem answered_waiting {completion : PromptCompletion} {c' : PromptCoordinator} {w' : World}
    (h : c.completePrompt g.io w completion = (.ok (), c', w')) :
    Steps (guardRun g) anyStep
      { GuardState.waiting c w with completions := [completion], wakeBytes := 1 }
      (.waiting c' w') := by
  have hwoken : Steps (guardRun g) anyStep
      { GuardState.waiting c w with completions := [completion], wakeBytes := 1 }
      { GuardState.waiting c w with
        completions := [completion]
        main := .drainingCompletions false false } :=
    exec_steps (show exec _ anyStep _ [.poll false, .readWake, .readWake] = _ from rfl)
  have hcompleted : (guardRun g).step
      { GuardState.waiting c w with
        completions := [completion]
        main := .drainingCompletions false false } .tryRecv =
      some { GuardState.waiting c' w' with main := .drainingCompletions false false } := by
    simp only [guardRun, GuardState.step, GuardState.tryRecv, GuardState.waiting, h]
  exact (hwoken.tail trivial hcompleted).tail (a := .tryRecv) trivial rfl

theorem handled_waiting {event : GuardEvent} {c' : PromptCoordinator} {w' : World}
    (hfree : w.descriptorIsFree event = true)
    (h : handleEvent g c (w.handOver event) event = (.finished (.ok ()), c', w')) :
    Steps (guardRun g) anyStep
      { GuardState.waiting c w with main := .serving [event] (.ok ()) } (.waiting c' w') := by
  have hhandled : (guardRun g).step
      { GuardState.waiting c w with main := .serving [event] (.ok ()) } .handle =
      some { GuardState.waiting c' w' with main := .serving [] (.ok ()) } := by
    simp only [guardRun, GuardState.step, GuardState.handle, GuardState.waiting, hfree, if_true, h]
    rfl
  exact (Steps.single trivial hhandled).tail (a := .endBatch) trivial rfl

theorem sending_sent {event : GuardEvent} {c' : PromptCoordinator} {w' : World} {job : PromptJob}
    {prompt : PendingPrompt} (hfree : w.descriptorIsFree event = true)
    (h : handleEvent g c (w.handOver event) event = (.sending job prompt, c', w')) :
    Steps (guardRun g) anyStep
      { GuardState.waiting c w with main := .serving [event] (.ok ()) }
      { GuardState.waiting (c'.recordPrompt job.id prompt)
          (w'.observe (.queued (w'.eventOf event.fd) job.id)) with
        jobs := [job]
        main := .serving [] (.ok ()) } := by
  have hhandled : (guardRun g).step
      { GuardState.waiting c w with main := .serving [event] (.ok ()) } .handle =
      some { GuardState.waiting c' (w'.observe (.queued (w'.eventOf event.fd) job.id)) with
        jobs := [job]
        main := .recording job.id prompt [] (.ok ()) } := by
    simp only [guardRun, GuardState.step, GuardState.handle, GuardState.waiting, hfree, if_true, h]
    rfl
  exact (Steps.single trivial hhandled).tail (a := .record) trivial rfl

/-- Serving an access is a run of the guard from one `poll` to the next. -/
theorem serve_steps (hio : ∀ n, g.io n = true) (ha : a.Arrives g) (hidle : Idle c)
    (hfree : w.descriptorIsFree a.event = true)
    (hid : prompted g c.promptCache [a] + c.nextId < 2 ^ 64) :
    Steps (guardRun g) anyStep (.waiting c w)
      (.waiting (serve g c w a).1 (serve g c w a).2) := by
  refine (waiting_serving g c w a.event).trans ?_
  cases himmediate : (immediateFor c.promptCache (a.resolution g)).1 with
  | some decision =>
    have haction := resolveGuardAction_immediate (Prod.ext himmediate rfl)
    have hhandle := handleEvent_respond (w := w.handOver a.event) ha haction
    rw [respondAndCloseEvent_ok hio] at hhandle
    rw [serve, haction]
    exact handled_waiting hfree hhandle
  | none =>
    have hid : c.nextId + 1 < 2 ^ 64 := by
      simpa [prompted, himmediate, Nat.add_comm] using hid
    obtain ⟨⟨reason, default, scope, hdecision⟩, himm⟩ := immediatePromptDecision_none himmediate
    have haction := resolveGuardAction_prompt hdecision himm
    have hqueue := queuePrompt_idle (w := w.handOver a.event) hidle hid a.event
      (a.spec reason default)
    have hsent := sending_sent hfree ((handleEvent_prompt ha haction).trans hqueue)
    have hidle' : Idle { c with nextId := c.nextId + 1 } := ⟨hidle.pending, hidle.pendingByKey⟩
    rw [serve, haction]
    dsimp only
    rw [hqueue]
    dsimp only
    refine hsent.trans ((sent_answered _ a.askAnswer a.current).trans ?_)
    obtain ⟨c', hcomplete, _⟩ := complete_recorded hidle' g.io c.nextId _ _
    rw [respondToEvents_ok hio] at hcomplete
    rw [hcomplete]
    exact answered_waiting hcomplete

/-- A sequence of accesses, each served before the next arrives, is a run of the guard. -/
theorem serveAll_steps (hio : ∀ n, g.io n = true) {accesses : List GuardAccess}
    (harrives : ∀ a ∈ accesses, a.Arrives g) (hcurrent : ∀ a ∈ accesses, a.Current)
    (hidle : Idle c) (hnone : w.NoneOpen)
    (hid : prompted g c.promptCache accesses + c.nextId < 2 ^ 64) :
    Steps (guardRun g) anyStep (.waiting c w)
      (.waiting (serveAll g c w accesses).1 (serveAll g c w accesses).2) := by
  induction accesses generalizing c w with
  | nil => exact .refl _
  | cons a accesses ih =>
    rw [prompted_cons] at hid
    have hserved := serve_served (g := g) (w := w) hidle (hcurrent a List.mem_cons_self) (by omega)
    have hfree : w.descriptorIsFree a.event = true := by
      simp [World.descriptorIsFree, hnone a.event.fd]
    have hserve := serve_steps hio (harrives a List.mem_cons_self) hidle hfree (by omega)
    refine hserve.trans (ih (fun b hb => harrives b (List.mem_cons_of_mem _ hb))
      (fun b hb => hcurrent b (List.mem_cons_of_mem _ hb)) hserved.idle (hserved.noneOpen hnone) ?_)
    rw [hserved.cache, hserved.nextId]
    omega

end Run

/-- Each prompt completed before the next access, the coordinator responds as
the resolver decides and ends with its cache; if no response or close fails, serving
accesses that arrive so is a run of the guard. -/
theorem guard_agrees_with_resolver (g : Guard) (cache : PromptDecisionCache)
    (accesses : List GuardAccess) (hcurrent : ∀ a ∈ accesses, a.Current)
    (hid : prompted g cache accesses < 2 ^ 64) :
    responses (serveAll g (.new cache) .empty accesses).2.trace =
        (resolveAll g cache accesses).1 ∧
      (serveAll g (.new cache) .empty accesses).1.promptCache =
        (resolveAll g cache accesses).2 ∧
      ((∀ n, g.io n = true) → (∀ a ∈ accesses, a.Arrives g) →
        Steps (guardRun g) anyStep (.waiting (.new cache) .empty)
          (.waiting (serveAll g (.new cache) .empty accesses).1
            (serveAll g (.new cache) .empty accesses).2)) := by
  have hrun := serveAll_resolveAll g accesses hcurrent (idle_new cache) .empty hid
  refine ⟨hrun.2.2.1, hrun.2.2.2, ?_⟩
  intro hio harrives
  exact serveAll_steps hio harrives hcurrent (idle_new cache) (fun _ => rfl) hid

/-- An open of one of pi's files, as the guard evaluates it for a process. -/
def readAccess (process : ProcessIdentity) (answer : Except String PromptAnswer) : GuardAccess where
  event := { catOpens with pid := process.pid, inspected := some process }
  target := piSession
  evaluation :=
    let decision := piPolicy.decide process.subject piSession .read
    { subject := process.subject
      promptKey := PromptDecisionKey.new process .read decision
      authorization := authorizationFor piPolicy.toAccessPolicy process decision
      policyDecision := decision }
  askAnswer := fun _ => answer
  current := fun _ _ => true

theorem readAccess_current (process : ProcessIdentity) (answer : Except String PromptAnswer)
    (hticks : ∀ authorization, (readAccess process answer).evaluation.authorization =
      some authorization → authorization.ownerAncestor.startTimeTicks.isSome = true) :
    (readAccess process answer).Current := by
  refine ⟨fun _ _ => rfl, ?_⟩
  intro authorization hauthorization
  obtain ⟨ticks, hsome⟩ := Option.isSome_iff_exists.mp (hticks authorization hauthorization)
  rw [AncestryAuthorization.ownerIsCurrent, hsome]
  rfl

theorem readAccess_arrives (process : ProcessIdentity) (answer : Except String PromptAnswer) :
    (readAccess process answer).Arrives piGuard := by
  have hwatched : isWatchedPath piSession piGuard.paths piGuard.excludedPaths = true := by decide
  have hdescriptor : ensureEventDescriptor fanOpenPerm 5 = .ok () := by decide
  have haccess : accessKind fanOpenPerm = .read := by decide
  refine ⟨hdescriptor, rfl, hwatched, ?_⟩
  simp only [evaluateGuardAccess, readAccess, catOpens, haccess]
  rfl

theorem catRead_current (answer : Except String PromptAnswer) :
    (readAccess (catGeneration 42 100) answer).Current := by
  refine readAccess_current _ _ ?_
  rintro authorization ⟨⟩
  rfl

/-- One process generation is asked twice, and answered from the cache the second time. -/
theorem guard_agrees_catReads :
    let accesses :=
      [readAccess (catGeneration 42 100) (.ok (.explicit .deny)),
        readAccess (catGeneration 42 100) (.ok (.explicit .allow))]
    responses (serveAll piGuard (.new .empty) .empty accesses).2.trace =
        (resolveAll piGuard .empty accesses).1 ∧
      (serveAll piGuard (.new .empty) .empty accesses).1.promptCache =
        (resolveAll piGuard .empty accesses).2 ∧
      Steps (guardRun piGuard) anyStep .initial
        (.waiting (serveAll piGuard (.new .empty) .empty accesses).1
          (serveAll piGuard (.new .empty) .empty accesses).2) := by
  intro accesses
  have hcurrent : ∀ a ∈ accesses, a.Current := by
    intro a ha
    simp only [accesses, List.mem_cons, List.not_mem_nil, or_false] at ha
    rcases ha with rfl | rfl
    · exact catRead_current _
    · exact catRead_current _
  have harrives : ∀ a ∈ accesses, a.Arrives piGuard := by
    intro a ha
    simp only [accesses, List.mem_cons, List.not_mem_nil, or_false] at ha
    rcases ha with rfl | rfl
    · exact readAccess_arrives _ _
    · exact readAccess_arrives _ _
  obtain ⟨hresponses, hcache, hsteps⟩ :=
    guard_agrees_with_resolver piGuard .empty accesses hcurrent (by decide)
  exact ⟨hresponses, hcache, hsteps (fun _ => rfl) harrives⟩

/-- A read that cannot be told by its process, with a backend that fails. -/
def keylessRead : GuardAccess := readAccess (ProcessIdentity.unknown 42) (.error "no dialog")

theorem resolve_keylessRead : resolve .empty (keylessRead.resolution piGuard) = (.allow, .empty) :=
  rfl

theorem notImmediate_keylessRead :
    (immediateFor .empty (keylessRead.resolution piGuard)).1 = none := by decide

theorem prompted_keylessReads (n : Nat) :
    prompted piGuard .empty (List.replicate n keylessRead) = n := by
  induction n with
  | zero => rfl
  | succ n ih =>
    rw [List.replicate_succ, prompted, notImmediate_keylessRead, resolve_keylessRead, ih]
    exact Nat.add_comm 1 n

theorem resolveAll_keylessReads (n : Nat) :
    resolveAll piGuard .empty (List.replicate n keylessRead) =
      (List.replicate n .allow, .empty) := by
  induction n with
  | zero => rfl
  | succ n ih =>
    rw [List.replicate_succ, resolveAll, resolve_keylessRead]
    dsimp only
    rw [ih]
    rfl

theorem serveAll_append (g : Guard) (l l' : List GuardAccess) (c : PromptCoordinator) (w : World) :
    serveAll g c w (l ++ l') = serveAll g (serveAll g c w l).1 (serveAll g c w l).2 l' := by
  induction l generalizing c w with
  | nil => rfl
  | cons a l ih => exact ih _ _

/-- The prompt that would get the last id gets none, and its event no response. -/
theorem serve_exhausted {g : Guard} {c : PromptCoordinator} {a : GuardAccess} (w : World)
    (hidle : Idle c) (hnone : (immediateFor c.promptCache (a.resolution g)).1 = none)
    (hid : ¬ c.nextId + 1 < 2 ^ 64) : (serve g c w a).2.trace = w.trace := by
  obtain ⟨⟨reason, default, scope, hdecision⟩, himm⟩ := immediatePromptDecision_none hnone
  have hpending : c.pendingPromptId (a.spec reason default).key = none :=
    Option.bind_eq_none_iff.mpr fun key _ => hidle.pendingByKey key
  rw [serve, resolveGuardAction_prompt hdecision himm]
  simp only [queuePrompt, hpending, startPrompt, PromptCoordinator.allocateId, if_neg hid]
  rfl

theorem keylessReads_current (n : Nat) : ∀ a ∈ List.replicate n keylessRead, a.Current := by
  intro a ha
  rw [List.eq_of_mem_replicate ha]
  exact readAccess_current _ _ nofun

theorem serveAll_keylessReads {n : Nat} (hn : n < 2 ^ 64) :
    let result := serveAll piGuard (.new .empty) .empty (List.replicate n keylessRead)
    Idle result.1 ∧ result.1.nextId = n ∧ responses result.2.trace = List.replicate n .allow ∧
      result.1.promptCache = .empty := by
  have hid : prompted piGuard (PromptCoordinator.new .empty).promptCache
      (List.replicate n keylessRead) + (PromptCoordinator.new .empty).nextId = n :=
    prompted_keylessReads n
  have hresolve : resolveAll piGuard (PromptCoordinator.new .empty).promptCache
      (List.replicate n keylessRead) = (List.replicate n .allow, .empty) := resolveAll_keylessReads n
  have hrun := serveAll_resolveAll piGuard (List.replicate n keylessRead) (keylessReads_current n)
    (idle_new .empty) .empty (by rw [hid]; exact hn)
  rw [hid, hresolve] at hrun
  exact hrun

theorem exhausted_ids_go_unanswered :
    ¬ ∀ (g : Guard) (cache : PromptDecisionCache) (accesses : List GuardAccess),
      (∀ a ∈ accesses, a.Current) →
      responses (serveAll g (.new cache) .empty accesses).2.trace =
          (resolveAll g cache accesses).1 ∧
        (serveAll g (.new cache) .empty accesses).1.promptCache =
          (resolveAll g cache accesses).2 := by
  intro h
  obtain ⟨n, hn⟩ : ∃ n, n + 1 = 2 ^ 64 := ⟨2 ^ 64 - 1, rfl⟩
  have hall := (h piGuard .empty (List.replicate (n + 1) keylessRead)
    (keylessReads_current (n + 1))).1
  -- all but the last of them are served as the resolver decides
  obtain ⟨hidle, hnext, hresponses, hcache⟩ :=
    serveAll_keylessReads (Nat.lt_of_lt_of_eq (Nat.lt_succ_self n) hn)
  have hlast := serve_exhausted (serveAll piGuard (.new .empty) .empty
    (List.replicate n keylessRead)).2 hidle (by rw [hcache]; exact notImmediate_keylessRead)
      (by rw [hnext, hn]; exact Nat.lt_irrefl _)
  rw [resolveAll_keylessReads, List.replicate_succ', serveAll_append, serveAll, serveAll, hlast,
    hresponses] at hall
  exact absurd (congrArg List.length hall) (by simp)

end ConfigGuard
