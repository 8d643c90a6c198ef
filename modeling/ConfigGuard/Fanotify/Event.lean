import ConfigGuard.Policy.Config

/-!
# Fanotify events

The parts of `fanotify.rs` that read an event's mask and descriptor.
-/

namespace ConfigGuard
open OsPath

def fanCloseWrite : UInt64 := 0x8

def fanQOverflow : UInt64 := 0x4000

def fanOpenPerm : UInt64 := 0x10000

def fanNoFd : Int := -1

def fanAllow : UInt32 := 1

def fanDeny : UInt32 := 2

/-- The errors the guard loop ends with. What the operating system reports is
carried as text. -/
inductive GuardError where
  | queueOverflow
  | invalidDescriptor (fd : Int)
  | resolvingDescriptor (fd : Int) (error : String)
  | policy (error : String)
  | writingResponse
  | closingDescriptor (fd : Int)
  | missingPending
  | idOverflow
  | sendingPrompt
  | unknownPrompt (id : Nat)
  | keyMismatch (expected : Nat) (found : Option Nat)
  | workerStoppedPending (error : GuardError)
  | workerStopped
  | workerPanicked
  | polling (error : String)
  | readingWake (error : String)
  | readingEvents (error : String)
  | malformedEvent (error : String)
  deriving DecidableEq, Repr

/-- How `Option<u64>` is printed with `{:?}`. -/
def debugOption : Option Nat → String
  | none => "None"
  | some n => s!"Some({n})"

namespace GuardError

/-- The outermost text of the error. -/
def message : GuardError → String
  | queueOverflow => "fanotify event queue overflow; audit coverage was lost"
  | invalidDescriptor fd => s!"invalid fanotify event descriptor {fd}"
  | resolvingDescriptor fd _ => s!"resolving fanotify event fd {fd}"
  | policy error => error
  | writingResponse => "writing fanotify response failed"
  | closingDescriptor fd => s!"closing fanotify event descriptor {fd}"
  | missingPending => "prompt key references a missing pending request"
  | idOverflow => "guard prompt request id overflow"
  | sendingPrompt => "sending prompt request to worker: sending on a closed channel"
  | unknownPrompt id => s!"completion for unknown prompt {id}"
  | keyMismatch expected found =>
    s!"prompt key mapping mismatch: expected {expected}, found {debugOption found}"
  | workerStoppedPending _ => "guard prompt worker stopped while requests were pending"
  | workerStopped => "guard prompt worker stopped unexpectedly"
  | workerPanicked => "guard prompt worker panicked"
  | polling error => error
  | readingWake _ => "reading guard prompt wake socket"
  | readingEvents _ => "reading fanotify events failed"
  | malformedEvent error => error

/-- The errors that report an inconsistency of the guard's own maps. -/
def isBookkeeping : GuardError → Bool
  | missingPending | unknownPrompt _ | keyMismatch _ _ => true
  | workerStoppedPending error => error.isBookkeeping
  | _ => false

end GuardError

def ensureEventDescriptor (mask : UInt64) (fd : Int) : Except GuardError Unit :=
  if mask &&& fanQOverflow ≠ 0 then .error .queueOverflow
  else if fd = fanNoFd ∨ fd < 0 then .error (.invalidDescriptor fd)
  else .ok ()

def isExcluded (path : Path) (excludedPaths : List Path) : Bool :=
  excludedPaths.any fun excluded => path.startsWith excluded

def isWatchedPath (path : Path) (paths excludedPaths : List Path) : Bool :=
  paths.any (fun root => path.startsWith root) && !isExcluded path excludedPaths

def accessKind (mask : UInt64) : AccessKind := if mask &&& fanCloseWrite ≠ 0 then .write else .read

def isPermissionEvent (mask : UInt64) : Bool := mask &&& fanOpenPerm != 0

def responseCode : Decision → UInt32
  | .allow => fanAllow
  | .deny => fanDeny
  | .prompt _ _ _ => fanAllow

end ConfigGuard
