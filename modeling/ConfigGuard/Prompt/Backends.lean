import ConfigGuard.Fanotify.Report
import ConfigGuard.Prompt.Resolution

/-!
# The prompt backends

`prompt.rs`: a dialog is shown by authd over its socket, or by a command that is
waited for until a deadline; without either the default is the answer.
-/

namespace ConfigGuard
open OsPath

def displaySubject (subject : ProcessSubject) : String := executableName subject.executable

def promptMessage (request : PromptRequest) : String :=
  match request.authorization with
  | none => s!"Allow {displaySubject request.subject} to access this config file?"
  | some authorization =>
    s!"Allow {displaySubject request.subject} launched by " ++
      s!"{authorization.ownerAncestor.executable.display} to access all Config Guard protected " ++
      "paths until Config Guard restarts?"

def promptDetail (request : PromptRequest) : String :=
  let detail := s!"{request.reason.debug}\n{request.targetPath.display}"
  match request.authorization with
  | none => detail
  | some authorization =>
    detail ++ "\n\nGrant: read and write across all Config Guard protected paths\n" ++
      s!"Owner executable: {authorization.ownerAncestor.executable.display}\n" ++
      s!"Current owner process: PID {authorization.ownerAncestor.pid}"

/-- `code` is `none` where a signal ended the process. -/
structure ExitStatus where
  code : Option Int
  deriving DecidableEq, Repr

def answerFromStatus (status : ExitStatus) (defaultDecision : Decision) : PromptAnswer :=
  if status.code = some 0 then .explicit .allow
  else if status.code = some 1 then .explicit .deny
  else .default defaultDecision

/-- The sleep between two polls, in milliseconds. -/
def pollInterval : Nat := 50

/-- A command while it is waited for. The first reading of the clock sets the
deadline, and each of the others is made before a poll; between a poll and the
next reading the guard sleeps. -/
structure ChildRun where
  reading : Nat → Nat
  tryWait : Nat → Except String (Option ExitStatus)
  starts : reading 0 ≤ reading 1
  sleeps : ∀ n, reading (n + 1) + pollInterval ≤ reading (n + 1 + 1)

structure Waited where
  answer : Except String PromptAnswer
  killed : Bool

/-- The loop of `wait_for_prompt_answer`, before its `n`-th poll. -/
def ChildRun.waitLoop (child : ChildRun) (deadline : Nat) (defaultDecision : Decision) (n : Nat) :
    Waited :=
  if child.reading (n + 1) < deadline then
    match child.tryWait n with
    | .error error => ⟨.error error, false⟩
    | .ok (some status) => ⟨.ok (answerFromStatus status defaultDecision), false⟩
    | .ok none => child.waitLoop deadline defaultDecision (n + 1)
  else ⟨.ok (.default defaultDecision), true⟩
termination_by deadline - child.reading (n + 1)
decreasing_by
  have hsleeps := child.sleeps n
  rw [pollInterval] at hsleeps
  omega

def waitForPromptAnswer (child : ChildRun) (timeout : Nat) (defaultDecision : Decision) : Waited :=
  child.waitLoop (child.reading 0 + timeout) defaultDecision 0

def commandArgs (request : PromptRequest) : List Bytes :=
  [utf8 "--subject", utf8 (displaySubject request.subject), utf8 "--path", request.targetPath.bytes,
    utf8 "--reason", utf8 request.reason.debug]

structure AuthRequest where
  target : Path
  args : List String
  env : Env
  password : String
  confirmOnly : Bool
  promptTitle : Option String
  promptMessage : Option String
  promptDetail : Option String

inductive DaemonRequest where
  | exec (request : AuthRequest)

/-- What the guard tells apart of the responses of authd. -/
inductive AuthResponse where
  | success
  | denied
  | authFailed
  | unknownTarget
  | error
  deriving DecidableEq, Repr

/-- What the calls of one exchange return: `payload` is the encoded request,
`response` what the bytes that were read decode to. -/
structure AuthdExchange where
  connected : Except String Unit
  readTimeoutSet : Except String Unit
  writeTimeoutSet : Except String Unit
  payload : Except String Bytes
  written : Except String Unit
  received : Except String Bytes
  response : Bytes → Except String AuthResponse

inductive AuthdError where
  | connecting (socketPath : Path)
  | settingReadTimeout
  | settingWriteTimeout
  | encoding
  | writing
  | reading
  | closed
  | decoding
  deriving DecidableEq, Repr

def AuthdError.message : AuthdError → String
  | connecting socketPath => s!"connecting to authd socket {socketPath.display}"
  | settingReadTimeout => "setting authd read timeout"
  | settingWriteTimeout => "setting authd write timeout"
  | encoding => "encoding authd request"
  | writing => "writing authd request"
  | reading => "reading authd response"
  | closed => "authd closed connection without response"
  | decoding => "decoding authd response"

def callAuthd (socketPath : Path) (exchange : AuthdExchange) : Except AuthdError AuthResponse := do
  exchange.connected.mapError fun _ => .connecting socketPath
  exchange.readTimeoutSet.mapError fun _ => .settingReadTimeout
  exchange.writeTimeoutSet.mapError fun _ => .settingWriteTimeout
  let _ ← exchange.payload.mapError fun _ => .encoding
  exchange.written.mapError fun _ => .writing
  let bytes ← exchange.received.mapError fun _ => .reading
  if bytes.isEmpty then .error .closed
  else (exchange.response bytes).mapError fun _ => .decoding

def authRequest (request : PromptRequest) : AuthRequest where
  target := request.subject.executable
  args :=
    [s!"requests config access ({request.reason.debug})", request.targetPath.display]
  env := request.env
  password := ""
  confirmOnly := true
  promptTitle := some "Config access request"
  promptMessage := some (promptMessage request)
  promptDetail := some (promptDetail request)

def authdAnswer (response : Except AuthdError AuthResponse) (defaultDecision : Decision) :
    PromptAnswer :=
  match response with
  | .ok .success => .explicit .allow
  | .ok .denied | .ok .authFailed => .explicit .deny
  | .ok .unknownTarget | .ok .error | .error _ => .default defaultDecision

/-- The timeouts are in milliseconds. -/
inductive PromptBackend where
  | nonInteractive (timeout : Nat)
  | authd (socketPath : Path) (timeout : Nat)
  | command (command : Path) (timeout : Nat)

/-- What the backends meet with: how a command that is started goes on, and how an
exchange with authd does. -/
structure Surroundings where
  spawn : Path → List Bytes → Except String ChildRun
  exchange : Path → DaemonRequest → AuthdExchange

namespace PromptBackend

/-- `build`; `authdSocket` is authd's `SOCKET_PATH`. -/
def build (authdSocket : Path) (promptCommand : Option Path) (timeout : Nat) : PromptBackend :=
  match promptCommand with
  | some path => command path timeout
  | none => authd authdSocket timeout

def requiresGraphicalSession : PromptBackend → Bool
  | nonInteractive _ | authd _ _ => true
  | command _ _ => false

def askAnswer (backend : PromptBackend) (around : Surroundings) (request : PromptRequest) :
    Except String PromptAnswer :=
  match backend with
  | nonInteractive _ => .ok (.default request.defaultDecision)
  | authd socketPath _ =>
    .ok (authdAnswer (callAuthd socketPath (around.exchange socketPath (.exec (authRequest request))))
      request.defaultDecision)
  | command path timeout =>
    match around.spawn path (commandArgs request) with
    | .error _ => .error s!"starting prompt command {path.display}"
    | .ok child => (waitForPromptAnswer child timeout request.defaultDecision).answer

def ask (backend : PromptBackend) (around : Surroundings) (request : PromptRequest) :
    Except String Decision :=
  (backend.askAnswer around request).map PromptAnswer.intoDecision

end PromptBackend

end ConfigGuard
