import ConfigGuard.Guard.World
import Mathlib.Algebra.Group.Nat.Defs

/-!
# The prompt coordinator

`PromptCoordinator` of `guard.rs` and the handling of one event: it is answered
at once, joins the pending prompt of its key, or starts a prompt of its own.
-/

namespace ConfigGuard
open OsPath

structure PendingPrompt where
  key : Option PromptDecisionKey
  authorization : Option AncestryAuthorization
  events : List PendingEvent

def PendingPrompt.push (prompt : PendingPrompt) (event : PendingEvent) : PendingPrompt :=
  { prompt with events := prompt.events ++ [event] }

structure PromptSpec where
  key : Option PromptDecisionKey
  authorization : Option AncestryAuthorization
  subject : ProcessSubject
  targetPath : Path
  reason : DecisionReason
  defaultDecision : Decision
  env : Env

inductive GuardAction where
  | respond (decision : Decision)
  | prompt (spec : PromptSpec)

structure GuardEvaluation where
  subject : ProcessSubject
  promptKey : Option PromptDecisionKey
  authorization : Option AncestryAuthorization
  policyDecision : Decision

structure PromptCompletion where
  id : PromptId
  outcome : PromptOutcome

/-- What a run of the guard is started with, and the outcomes of its writes
and closes. -/
structure Guard where
  policy : AccessPolicy
  paths : List Path
  excludedPaths : List Path
  requiresGraphicalSession : Bool
  io : IoResults

/-- The channel ends and the wake socket are parts of the loop's state. -/
structure PromptCoordinator where
  promptCache : PromptDecisionCache
  pending : AList fun _ : PromptId => PendingPrompt
  pendingByKey : AList fun _ : PromptDecisionKey => PromptId
  nextId : PromptId

namespace PromptCoordinator

def new (promptCache : PromptDecisionCache) : PromptCoordinator where
  promptCache := promptCache
  pending := ∅
  pendingByKey := ∅
  nextId := 0

def immediateDecision (c : PromptCoordinator) (requiresGraphicalSession : Bool)
    (key : Option PromptDecisionKey) (authorization : Option AncestryAuthorization) (env : Env)
    (decision : Decision) : Option Decision × PromptCoordinator :=
  let (decision, promptCache) :=
    immediatePromptDecision requiresGraphicalSession c.promptCache key authorization env decision
  (decision, { c with promptCache := promptCache })

def pendingPromptId (c : PromptCoordinator) (key : Option PromptDecisionKey) : Option PromptId :=
  key.bind c.pendingByKey.lookup

def appendPendingEvent (c : PromptCoordinator) (id : PromptId) (event : PendingEvent) :
    Except GuardError PromptCoordinator :=
  match c.pending.lookup id with
  | none => .error .missingPending
  | some pending => .ok { c with pending := c.pending.insert id (pending.push event) }

/-- The id is a `u64`. -/
def allocateId (c : PromptCoordinator) : Except GuardError (PromptId × PromptCoordinator) :=
  if c.nextId + 1 < 2 ^ 64 then .ok (c.nextId, { c with nextId := c.nextId + 1 })
  else .error .idOverflow

/-- The end of `send_prompt_job`, after the job has been sent. -/
def recordPrompt (c : PromptCoordinator) (id : PromptId) (prompt : PendingPrompt) :
    PromptCoordinator where
  promptCache := c.promptCache
  pending := c.pending.insert id prompt
  pendingByKey :=
    match prompt.key with
    | some key => c.pendingByKey.insert key id
    | none => c.pendingByKey
  nextId := c.nextId

/-- The first `remove` has happened even where the ids do not agree. -/
def removePendingKey (c : PromptCoordinator) (id : PromptId) (key : Option PromptDecisionKey) :
    Except GuardError Unit × PromptCoordinator :=
  match key with
  | none => (.ok (), c)
  | some key =>
    let mapped := c.pendingByKey.lookup key
    let c := { c with pendingByKey := c.pendingByKey.erase key }
    (if mapped = some id then .ok () else .error (.keyMismatch id mapped), c)

def completePrompt (c : PromptCoordinator) (io : IoResults) (w : World)
    (completion : PromptCompletion) : Except GuardError Unit × PromptCoordinator × World :=
  match c.pending.lookup completion.id with
  | none => (.error (.unknownPrompt completion.id), c, w)
  | some pending =>
    let c := { c with pending := c.pending.erase completion.id }
    match c.removePendingKey completion.id pending.key with
    | (.error error, c) => (.error error, c, w)
    | (.ok _, c) =>
      match completion.outcome with
      | .answer decision explicit =>
        let cache :=
          cachePromptAnswer c.promptCache pending.key pending.authorization decision explicit
        let (result, w) := respondWithDecision io w pending.events decision
        (result, { c with promptCache := cache }, w)
      | .failure =>
        let (result, w) := respondWithDefaults io w pending.events
        (result, c, w)

/-- `try_for_each` over the prompts taken out of the map: the first one whose
events could not all be answered is the last. -/
def failPrompts (io : IoResults) : World → List PendingPrompt → Except GuardError Unit × World
  | w, [] => (.ok (), w)
  | w, prompt :: prompts =>
    match respondWithDefaults io w prompt.events with
    | (.error error, w) => (.error error, w)
    | (.ok _, w) => failPrompts io w prompts

/-- `order` is the order in which the map yields its ids. -/
def failPendingPrompts (c : PromptCoordinator) (io : IoResults) (w : World)
    (order : List PromptId) : GuardError × PromptCoordinator × World :=
  let (result, w) := failPrompts io w (order.filterMap c.pending.lookup)
  (match result with
    | .error error => .workerStoppedPending error
    | .ok _ => .workerStopped,
    { c with pending := ∅, pendingByKey := ∅ }, w)

end PromptCoordinator

def evaluateGuardAccess (g : Guard) (event : GuardEvent) (target : Path) :
    Except GuardError GuardEvaluation :=
  let access := accessKind event.mask
  let process := event.inspected.getD (ProcessIdentity.unknown event.pid)
  let subject := process.subject
  match g.policy.decide subject target access with
  | .error error => .error (.policy error)
  | .ok decision =>
    .ok { subject := subject
          promptKey := PromptDecisionKey.new process access decision
          authorization := authorizationFor g.policy process decision
          policyDecision := decision }

/-- `none` stands for the unreachable branch: other decisions resolve immediately. -/
def promptSpec (target : Path) (evaluation : GuardEvaluation) (env : Env) : Option PromptSpec :=
  match evaluation.policyDecision with
  | .prompt reason default _ =>
    some ⟨evaluation.promptKey, evaluation.authorization, evaluation.subject, target, reason,
      default, env⟩
  | .allow | .deny => none

def resolveGuardAction (g : Guard) (c : PromptCoordinator) (event : GuardEvent) (target : Path)
    (evaluation : GuardEvaluation) : GuardAction × PromptCoordinator :=
  match c.immediateDecision g.requiresGraphicalSession evaluation.promptKey
      evaluation.authorization event.env evaluation.policyDecision with
  | (some decision, c) => (.respond decision, c)
  | (none, c) =>
    match promptSpec target evaluation event.env with
    | some spec => (.prompt spec, c)
    | none => (.respond evaluation.policyDecision, c)

def prepareEventAction (g : Guard) (c : PromptCoordinator) (event : GuardEvent) :
    Except GuardError GuardAction × PromptCoordinator :=
  match event.target with
  | .error error => (.error (.resolvingDescriptor event.fd error), c)
  | .ok target =>
    if isWatchedPath target g.paths g.excludedPaths then
      match evaluateGuardAccess g event target with
      | .error error => (.error error, c)
      | .ok evaluation =>
        let (action, c) := resolveGuardAction g c event target evaluation
        (.ok action, c)
    else (.ok (.respond .allow), c)

/-- How far `handle_event` gets in one go: to its end, or to the moment a job
is sent to the worker. -/
inductive Handling where
  | finished (result : Except GuardError Unit)
  | sending (job : PromptJob) (prompt : PendingPrompt)

def startPrompt (c : PromptCoordinator) (event : GuardEvent) (spec : PromptSpec) :
    Handling × PromptCoordinator :=
  match c.allocateId with
  | .error error => (.finished (.error error), c)
  | .ok (id, c) =>
    (.sending
      ⟨id, spec.key, spec.authorization, spec.subject, spec.targetPath, spec.reason,
        spec.defaultDecision, spec.env⟩
      ⟨spec.key, spec.authorization, [⟨event.fd, event.mask, spec.defaultDecision⟩]⟩, c)

def queuePrompt (c : PromptCoordinator) (w : World) (event : GuardEvent) (spec : PromptSpec) :
    Handling × PromptCoordinator × World :=
  match c.pendingPromptId spec.key with
  | some id =>
    match c.appendPendingEvent id ⟨event.fd, event.mask, spec.defaultDecision⟩ with
    | .error error => (.finished (.error error), c, w)
    | .ok c => (.finished (.ok ()), c, w.observe (.queued (w.eventOf event.fd) id))
  | none =>
    let (handling, c) := startPrompt c event spec
    (handling, c, w)

/-- The world is the one the event has been handed over in. -/
def handleEvent (g : Guard) (c : PromptCoordinator) (w : World) (event : GuardEvent) :
    Handling × PromptCoordinator × World :=
  match ensureEventDescriptor event.mask event.fd with
  | .error error => (.finished (.error error), c, w)
  | .ok _ =>
    match prepareEventAction g c event with
    | (.ok (.respond decision), c) =>
      let (result, w) := respondAndCloseEvent g.io w event.fd event.mask decision
      (.finished result, c, w)
    | (.ok (.prompt spec), c) => queuePrompt c w event spec
    | (.error error, c) =>
      let (closeResult, w) := closeDescriptor g.io w event.fd
      (.finished ((Except.error error : Except GuardError Unit).bind fun _ => closeResult), c, w)

end ConfigGuard
