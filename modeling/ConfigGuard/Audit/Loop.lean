import ConfigGuard.Audit.Attribution
import ConfigGuard.Fanotify.Report
import ConfigGuard.Guard.World
import ConfigGuard.Learning.Replay

/-!
# The audit modes

The event loop of `fanotify.rs` in the modes `audit` and `audit-prompt`, and the
evaluation of events in `audit.rs`.
-/

namespace ConfigGuard
open OsPath Transition

def fanOpenExec : UInt64 := 0x1000

/-- An event as it reaches the audit loop, with what is read about it while it
is handled: the link and the file of its descriptor, its process at the exec, at
the open and at the close, and for each access the environment and what the
prompt backend would answer. -/
structure AuditDelivery where
  mask : UInt64
  fd : Int
  pid : Int
  generation : Option ProcessGeneration
  target : Except String Path
  object : Except String AuditObjectId
  executedAt : Nat
  inspectedAtExec : Option ProcessIdentity
  openedAt : Nat
  inspectedAtOpen : Option ProcessIdentity
  closedAt : Nat
  inspectedAtClose : Option ProcessIdentity
  env : AccessKind → Env
  askAnswer : AccessKind → PromptRequest → Except String PromptAnswer
  actual : ProcessGeneration

namespace AuditDelivery

/-- The event as it would reach the guard. -/
def guardEvent (event : AuditDelivery) : GuardEvent where
  mask := event.mask
  fd := event.fd
  pid := event.pid
  target := event.target
  inspected := event.inspectedAtClose
  env := event.env (accessKind event.mask)

def isExec (event : AuditDelivery) : Bool := event.mask &&& fanOpenExec != 0

def execEvent (event : AuditDelivery) (target : Path) : ExecEvent where
  pid := event.pid
  executablePath := target
  generation := event.generation
  inspected := event.inspectedAtExec
  executedAt := event.executedAt

def accessEvent (event : AuditDelivery) (object : AuditObjectId) : AuditEvent where
  mask := event.mask
  pid := event.pid
  object := object
  generation := event.generation
  openedAt := event.openedAt
  inspectedAtOpen := event.inspectedAtOpen
  closedAt := event.closedAt
  inspectedAtClose := event.inspectedAtClose
  actual := event.actual

end AuditDelivery

inductive AuditMode where
  | audit (policy : Option AccessPolicy)
  | auditPrompt (policy : AccessPolicy) (requiresGraphicalSession : Bool)

/-- `writes n` tells whether the write of the learner's output made when there
are `n` records succeeds. -/
structure AuditSetup where
  paths : List Path
  excludedPaths : List Path
  mode : AuditMode
  io : IoResults
  writes : Nat → Bool

/-- The errors the audit loop ends with. -/
inductive AuditError where
  | event (error : GuardError)
  | objectIdentity (fd : Int) (error : String)
  | serializingOutput
  | writingOutput (path : Path)

/-- The outermost text of the error. -/
def AuditError.message : AuditError → String
  | event error => error.message
  | objectIdentity fd _ => s!"reading object identity for fanotify descriptor {fd}"
  | serializingOutput => "serializing learned config"
  | writingOutput path => s!"writing {path.display}"

/-- What is seen of the evaluation: the decisions of the policy, the answers of
the user with the environment they are asked in and the dialog, if one was shown,
the accesses the learner is told of and the files it writes. -/
inductive AuditRecord where
  | decided (pid : Int) (access : Access) (decision : Decision)
  | userDecided (pid : Int) (access : Access) (key : Option PromptDecisionKey) (env : Env)
    (policyDecision userDecision : Decision) (dialog : Option PromptOutcome)
  | observed (access : Access)
  | wrote (output : Path × LearnedConfig) (ok : Bool)

/-- The line that is printed for a record, if there is one. -/
def AuditRecord.line (debugPath : Path → String) : AuditRecord → Option String
  | decided pid a decision =>
    formatAuditDecision debugPath pid a.subject.executable a.target a.access decision
  | userDecided pid a _ _ policyDecision userDecision _ =>
    some (auditPromptLine debugPath pid a.subject.executable a.target a.access policyDecision
      userDecision)
  | observed _ | wrote _ _ => none

structure AuditRuntime where
  world : World
  caches : AuditCaches
  learner : Option AuditLearner
  promptCache : PromptDecisionCache
  records : List AuditRecord

def SelectedIdentity.process : SelectedIdentity → ProcessIdentity
  | .recorded entry => entry.identity
  | .executed identity => identity
  | .inspected identity => identity

namespace AuditRuntime

def record (s : AuditRuntime) (r : AuditRecord) : AuditRuntime :=
  { s with records := s.records ++ [r] }

/-- The event is handed to `handle_event`. -/
def handOver (s : AuditRuntime) (event : AuditDelivery) : AuditRuntime :=
  { s with world := s.world.handOver event.guardEvent }

/-- `write_output` of the learner. -/
def writeOutput (setup : AuditSetup) (output : Path × LearnedConfig) (s : AuditRuntime) :
    Except AuditError Unit × AuditRuntime :=
  if output.2.isSerializable then
    let ok := setup.writes s.records.length
    (if ok then .ok () else .error (.writingOutput output.1), s.record (.wrote output ok))
  else (.error .serializingOutput, s)

/-- `learner.observe`, where there is a learner. -/
def observe (setup : AuditSetup) (s : AuditRuntime) (a : Access) :
    Except AuditError Unit × AuditRuntime :=
  match s.learner with
  | none => (.ok (), s)
  | some learner =>
    let (learner, written) := learner.observe a.subject a.target a.access
    let s := { s with learner := some learner }.record (.observed a)
    match written with
    | none => (.ok (), s)
    | some output => s.writeOutput setup output

/-- `decide_event` of `audit.rs`. -/
def decideEvent (setup : AuditSetup) (policy : Option AccessPolicy) (pid : Int) (a : Access)
    (s : AuditRuntime) : Except AuditError Unit × AuditRuntime :=
  match policy with
  | none => s.observe setup a
  | some policy =>
    match policy.decide a.subject a.target a.access with
    | .error error => (.error (.event (.policy error)), s)
    | .ok decision => (s.record (.decided pid a decision)).observe setup a

/-- The dialog an access leads to, if it leads to one. -/
def dialog (s : AuditRuntime) (prompt : Prompt) (key : Option PromptDecisionKey) (a : Access)
    (env : Env) (decision : Decision) : Option PromptOutcome :=
  match immediatePromptDecision prompt.requiresGraphicalSession s.promptCache key none env
      decision with
  | (some _, _) => none
  | (none, _) =>
    (buildPolicyPromptRequest ⟨none, a.subject, a.target, env, decision⟩).map (askPrompt prompt)

def promptOnPolicyViolation (s : AuditRuntime) (prompt : Prompt) (pid : Int)
    (process : ProcessIdentity) (a : Access) (env : Env) (decision : Decision) : AuditRuntime :=
  match decision with
  | .prompt _ _ _ =>
    let key := PromptDecisionKey.new process a.access decision
    let (userDecision, cache) :=
      promptForPolicyDecision prompt s.promptCache key a.subject a.target env decision
    { s with promptCache := cache }.record
      (.userDecided pid a key env decision userDecision (s.dialog prompt key a env decision))
  | .allow | .deny => s

def auditPromptEvent (setup : AuditSetup) (policy : AccessPolicy)
    (requiresGraphicalSession : Bool) (event : AuditDelivery) (process : ProcessIdentity)
    (a : Access) (s : AuditRuntime) : Except AuditError Unit × AuditRuntime :=
  match policy.decide a.subject a.target a.access with
  | .error error => (.error (.event (.policy error)), s)
  | .ok decision =>
    ((s.record (.decided event.pid a decision)).promptOnPolicyViolation
      ⟨event.askAnswer a.access, requiresGraphicalSession⟩ event.pid process a
      (event.env a.access) decision).observe setup a

/-- What is done with one access of a process in the mode of the loop. -/
def evaluate (setup : AuditSetup) (event : AuditDelivery) (process : ProcessIdentity) :
    Access → AuditRuntime → Except AuditError Unit × AuditRuntime :=
  match setup.mode with
  | .audit policy => decideEvent setup policy event.pid
  | .auditPrompt policy requiresGraphicalSession =>
    auditPromptEvent setup policy requiresGraphicalSession event process

/-- One access after the other, up to the first error. -/
def evaluateAll (evaluate : Access → AuditRuntime → Except AuditError Unit × AuditRuntime) :
    List Access → AuditRuntime → Except AuditError Unit × AuditRuntime
  | [], s => (.ok (), s)
  | a :: accesses, s =>
    match evaluate a s with
    | (.error error, s) => (.error error, s)
    | (.ok _, s) => evaluateAll evaluate accesses s

/-- `decide_audit_mode`, whose decision is `Allow` where it has one. -/
def decideAuditMode (setup : AuditSetup) (event : AuditDelivery) (target : Path)
    (object : AuditObjectId) (s : AuditRuntime) : Except AuditError Decision × AuditRuntime :=
  match s.caches.recordIdentityAndSelectProcess (event.accessEvent object) with
  | (none, caches) => (.ok .allow, { s with caches := caches })
  | (some (kinds, selected), caches) =>
    let process := selected.process
    let accesses := kinds.map fun kind => ⟨process.subject, target, kind⟩
    let (result, s) :=
      evaluateAll (evaluate setup event process) accesses { s with caches := caches }
    (result.map fun _ => .allow, s)

def respond (setup : AuditSetup) (s : AuditRuntime) (event : AuditDelivery)
    (decision : Decision) : Except AuditError Unit × AuditRuntime :=
  let (result, world) :=
    respondToPermissionEventFd setup.io s.world event.fd event.mask decision
  (result.mapError .event, { s with world := world })

def close (setup : AuditSetup) (s : AuditRuntime) (event : AuditDelivery) :
    Except AuditError Unit × AuditRuntime :=
  let (result, world) := closeDescriptor setup.io s.world event.fd
  (result.mapError .event, { s with world := world })

/-- What is left to do with an event that is not just an exec. -/
def evaluateEvent (setup : AuditSetup) (event : AuditDelivery) (target : Path)
    (s : AuditRuntime) : Except AuditError Unit × AuditRuntime :=
  if isWatchedPath target setup.paths setup.excludedPaths then
    match event.object with
    | .error error => (.error (.objectIdentity event.fd error), s)
    | .ok object =>
      match s.decideAuditMode setup event target object with
      | (.error error, s) => (.error error, s)
      | (.ok decision, s) => s.respond setup event decision
  else s.respond setup event .allow

def handleEventWithDescriptor (setup : AuditSetup) (event : AuditDelivery) (s : AuditRuntime) :
    Except AuditError Unit × AuditRuntime :=
  match event.target with
  | .error error => (.error (.event (.resolvingDescriptor event.fd error)), s)
  | .ok target =>
    if event.isExec then
      let s := { s with
        caches := s.caches.recordExecIdentity Path.display (event.execEvent target) }
      if event.mask &&& (fanCloseNowrite ||| fanCloseWrite) = 0 then
        s.respond setup event .allow
      else s.evaluateEvent setup event target
    else s.evaluateEvent setup event target

def handleEvent (setup : AuditSetup) (event : AuditDelivery) (s : AuditRuntime) :
    Except AuditError Unit × AuditRuntime :=
  match ensureEventDescriptor event.mask event.fd with
  | .error error => (.error (.event error), s)
  | .ok _ =>
    let (result, s) := s.handleEventWithDescriptor setup event
    let (closeResult, s) := s.close setup event
    (result.bind fun _ => closeResult, s)

end AuditRuntime

/-- Where the loop is. -/
inductive AuditPc where
  /-- before `read_event_batch` -/
  | reading
  /-- in `process_event_buffer`; `tail` is what the buffer ends with -/
  | serving (events : List AuditDelivery) (tail : Except String Unit)
  | failed (error : AuditError)

/-- `delivered` are the events handed to `handle_event`. -/
structure AuditSession where
  runtime : AuditRuntime
  pc : AuditPc
  delivered : List AuditDelivery

def AuditPc.running : AuditPc → Bool
  | reading | serving _ _ => true
  | failed _ => false

inductive AuditMove where
  | readBatch (events : List AuditDelivery) (tail : Except String Unit)
  | readError (error : String)
  | handle
  | endBatch

namespace AuditSession

def start (learner : Option AuditLearner) : AuditSession where
  runtime :=
    { world := .empty
      caches := .new AuditIdentityCache.defaultCapacity AuditProcessCache.defaultCapacity
        AuditProcessCache.defaultTtl
      learner := learner
      promptCache := .empty
      records := [] }
  pc := .reading
  delivered := []

/-- Hand the next event of the batch to `handle_event`. -/
def handle (setup : AuditSetup) (s : AuditSession) : Option AuditSession :=
  match s.pc with
  | .serving (event :: events) tail =>
    if s.runtime.world.descriptorIsFree event.guardEvent then
      match (s.runtime.handOver event).handleEvent setup event with
      | (.ok _, runtime) => some ⟨runtime, .serving events tail, s.delivered ++ [event]⟩
      | (.error error, runtime) => some ⟨runtime, .failed error, s.delivered ++ [event]⟩
    else none
  | _ => none

def step (setup : AuditSetup) (s : AuditSession) : AuditMove → Option AuditSession
  | .readBatch events tail =>
    match s.pc with
    | .reading => some { s with pc := .serving events tail }
    | _ => none
  | .readError error =>
    match s.pc with
    | .reading => some { s with pc := .failed (.event (.readingEvents error)) }
    | _ => none
  | .handle => s.handle setup
  | .endBatch =>
    match s.pc with
    | .serving [] (.ok _) => some { s with pc := .reading }
    | .serving [] (.error error) => some { s with pc := .failed (.event (.malformedEvent error)) }
    | _ => none

end AuditSession

/-- The audit loop with a learner, or without one. -/
def auditLoop (setup : AuditSetup) (learner : Option AuditLearner) :
    System AuditSession AuditMove where
  init s := s = .start learner
  step := AuditSession.step setup

end ConfigGuard
