import ConfigGuard.Guard.Refinement

/-!
# Strict denials

An event that a strict rule denies is answered while it is handled, and neither
the cache, nor a grant, nor a default, nor a pending prompt has a say in it.
-/

namespace ConfigGuard
open OsPath Transition

/-- The subject the policy is asked about. -/
def GuardEvent.subject (event : GuardEvent) : ProcessSubject :=
  (event.inspected.getD (ProcessIdentity.unknown event.pid)).subject

/-- A watched event that the policy of `policy` strictly denies. -/
structure DeniedEvent (g : Guard) (policy : StaticPolicy) (event : GuardEvent) (target : Path) :
    Prop where
  valid : ensureEventDescriptor event.mask event.fd = .ok ()
  permission : isPermissionEvent event.mask = true
  readable : event.target = .ok target
  watched : isWatchedPath target g.paths g.excludedPaths = true
  denied : StrictlyDenied policy.config event.subject (policy.decisionPath target)

section

variable {g : Guard} {policy : StaticPolicy} {event : GuardEvent} {target : Path}

theorem DeniedEvent.evaluation (hpolicy : g.policy = policy.toAccessPolicy)
    (h : DeniedEvent g policy event target) :
    ∃ evaluation, evaluateGuardAccess g event target = .ok evaluation ∧
      evaluation.policyDecision = .deny := by
  have hdeny : policy.decide event.subject target (accessKind event.mask) = .deny :=
    decide_eq_deny_iff.mpr h.denied
  have hdecide : g.policy.decide event.subject target (accessKind event.mask) = .ok .deny := by
    rw [hpolicy]
    exact congrArg Except.ok hdeny
  unfold GuardEvent.subject at hdecide
  unfold evaluateGuardAccess
  dsimp only
  rw [hdecide]
  exact ⟨_, rfl, rfl⟩

theorem DeniedEvent.evaluationOf (hpolicy : g.policy = policy.toAccessPolicy)
    (h : DeniedEvent g policy event target) :
    ∃ evaluation, evaluationOf g event = some evaluation ∧ evaluation.policyDecision = .deny := by
  obtain ⟨evaluation, hevaluate, hdeny⟩ := h.evaluation hpolicy
  refine ⟨evaluation, ?_, hdeny⟩
  simp [ConfigGuard.evaluationOf, h.readable, h.watched, hevaluate, Except.toOption]

/-- Nothing is looked up in the coordinator. -/
theorem DeniedEvent.prepared (hpolicy : g.policy = policy.toAccessPolicy)
    (h : DeniedEvent g policy event target) (c : PromptCoordinator) :
    prepareEventAction g c event = (.ok (.respond .deny), c) := by
  obtain ⟨evaluation, hevaluate, hdeny⟩ := h.evaluation hpolicy
  simp [prepareEventAction, h.readable, h.watched, hevaluate, resolveGuardAction,
    PromptCoordinator.immediateDecision, immediatePromptDecision, hdeny]

theorem DeniedEvent.handled (hpolicy : g.policy = policy.toAccessPolicy)
    (h : DeniedEvent g policy event target) {s t : GuardState} {events : List GuardEvent}
    {tail : Except String Unit} (hmain : s.main = .serving (event :: events) tail)
    (hstep : (guardRun g).step s .handle = some t) :
    t.coordinator = s.coordinator ∧ t.jobs = s.jobs ∧
    t.world = (respondAndCloseEvent g.io (s.world.handOver event) event.fd event.mask .deny).2 := by
  have hhandle : handleEvent g s.coordinator (s.world.handOver event) event =
      (.finished (respondAndCloseEvent g.io (s.world.handOver event) event.fd event.mask .deny).1,
        s.coordinator,
        (respondAndCloseEvent g.io (s.world.handOver event) event.fd event.mask .deny).2) := by
    simp [handleEvent, h.valid, h.prepared hpolicy s.coordinator]
  simp only [guardRun, GuardState.step, GuardState.handle, hmain, hhandle] at hstep
  split at hstep
  · rw [← Option.some.inj hstep]
    exact ⟨rfl, rfl, rfl⟩
  · cases hstep

/-- No reason but the policy's own decision is left for a response. -/
theorem DeniedEvent.grounded (hpolicy : g.policy = policy.toAccessPolicy)
    (h : DeniedEvent g policy event target) {handed : List GuardEvent}
    {before : List Observation} {e : EventId} {d : Decision}
    (hgrounded : Grounded g handed before e event d) : d = .deny := by
  obtain ⟨evaluation, hevaluation, hdeny⟩ := h.evaluationOf hpolicy
  cases hgrounded with
  | unwatched target' htarget hwatched =>
    obtain rfl := Except.ok.inj (h.readable.symm.trans htarget)
    exact absurd (hwatched.symm.trans h.watched) Bool.false_ne_true
  | policy evaluation' hevaluation' hdecision =>
    obtain rfl := Option.some.inj (hevaluation.symm.trans hevaluation')
    exact hdecision.symm.trans hdeny
  | prompt evaluation' reason default scope hevaluation' hdecision =>
    obtain rfl := Option.some.inj (hevaluation.symm.trans hevaluation')
    cases hdeny.symm.trans hdecision

end

/-- An event that a strict rule denies gets FAN_DENY and is closed in the step
that handles it, which leaves the caches, the pending prompts and the job
channel as they are. In every state from then on all responses to it are
denials and no prompt was ever started or joined for it. -/
theorem strictDenial_immediate (g : Guard) (policy : StaticPolicy) (s t u : GuardState)
    (event : GuardEvent) (events : List GuardEvent) (tail : Except String Unit) (target : Path)
    (hpolicy : g.policy = policy.toAccessPolicy) (h : Reachable (guardRun g) anyStep s)
    (hmain : s.main = .serving (event :: events) tail)
    (hdenied : DeniedEvent g policy event target)
    (hstep : (guardRun g).step s .handle = some t) (hlater : Steps (guardRun g) anyStep t u) :
    (t.coordinator = s.coordinator ∧ t.jobs = s.jobs ∧
      responseCode .deny = fanDeny ∧
      t.world.trace = s.world.trace ++
        [.responded (some s.world.handed.length) .deny (g.io s.world.trace.length),
          .closed (some s.world.handed.length) (g.io (s.world.trace.length + 1))]) ∧
    (∀ d ok, .responded (some s.world.handed.length) d ok ∈ u.world.trace → d = .deny) ∧
    ∀ id, .queued (some s.world.handed.length) id ∉ u.world.trace := by
  obtain ⟨hcoordinator, hjobs, hworld⟩ := hdenied.handled hpolicy hmain hstep
  have ht : Reachable (guardRun g) anyStep t := h.step trivial hstep
  have hu : Reachable (guardRun g) anyStep u := ht.steps hlater
  have hpre : t.world.handed <+: u.world.handed :=
    (motions_of_steps (consistent_reachable ht) hlater).handed
  have hhanded : u.world.handed[s.world.handed.length]? = some event := by
    refine handed_of_prefix hpre ?_
    rw [hworld, handed_respondAndCloseEvent]
    exact List.getElem?_concat_length
  refine ⟨⟨hcoordinator, hjobs, rfl, ?_⟩, ?_, ?_⟩
  · rw [hworld, trace_respondAndCloseEvent,
      World.eventOf_handOver_self s.world (fd_nonneg hdenied.valid), settlement,
      if_pos hdenied.permission]
    rfl
  · intro d ok hmem
    exact hdenied.grounded hpolicy (responded_grounded hu hhanded hmem)
  · intro id hmem
    obtain ⟨e, event', held, he, hevent', hheld⟩ := queuesPrompts_reachable hu _ id hmem
    obtain rfl := Option.some.inj he
    obtain rfl := Option.some.inj (hhanded.symm.trans hevent')
    obtain ⟨evaluation, reason, scope, hevaluation, hprompt, _⟩ := hheld.prompted
    obtain ⟨evaluation', hevaluation', hdeny⟩ := hdenied.evaluationOf hpolicy
    obtain rfl := Option.some.inj (hevaluation.symm.trans hevaluation')
    cases hdeny.symm.trans hprompt

def brokerGuard : Guard where
  policy := StaticPolicy.toAccessPolicy ⟨brokerConfig, []⟩
  paths := [Path.ofString "/var/lib"]
  excludedPaths := []
  requiresGraphicalSession := true
  io := fun _ => true

/-- A `cat` opens the broker's key. -/
def catOpensKey : GuardEvent where
  mask := fanOpenPerm
  fd := 5
  pid := 42
  target := .ok brokerKey
  inspected := none
  env := ∅

/-- The batch with the access to the key has been read. -/
def keyServed : GuardState :=
  runFrom (guardRun brokerGuard) anyStep .initial
    [.poll true, .readBatch [catOpensKey] (.ok ())]

def keyDenied : GuardState :=
  runFrom (guardRun brokerGuard) anyStep .initial
    [.poll true, .readBatch [catOpensKey] (.ok ()), .handle]

theorem strictDenial_immediate_brokerKey :
    keyDenied.world.trace =
      keyServed.world.trace ++ [.responded (some 0) .deny true, .closed (some 0) true] := by
  have hreachable : Reachable (guardRun brokerGuard) anyStep keyServed :=
    ⟨.initial, rfl, runFrom_steps (by decide)⟩
  have hdenied : DeniedEvent brokerGuard ⟨brokerConfig, []⟩ catOpensKey brokerKey :=
    ⟨rfl, rfl, rfl, by decide, by decide, ⟨brokerRule, by decide, rfl, by decide⟩⟩
  exact (strictDenial_immediate brokerGuard ⟨brokerConfig, []⟩ keyServed keyDenied keyDenied
    catOpensKey [] (.ok ()) brokerKey rfl hreachable rfl hdenied rfl (.refl _)).1.2.2.2

end ConfigGuard
