import ConfigGuard.Library.OsPath

/-!
# Policy configuration, subjects and decisions

The data types of `policy.rs`.
-/

namespace ConfigGuard
open OsPath

structure ProcessSubject where
  executable : Path
  command : List String
  ancestors : List Path
  deriving DecidableEq, Repr

inductive AccessKind where
  | read
  | write
  | destructiveWrite
  deriving DecidableEq, Repr

inductive DecisionReason where
  | crossOwnerRead
  | crossOwnerWrite
  | sensitiveReadByDevTool
  | sensitiveWrite
  deriving DecidableEq, Repr

inductive Decision where
  | allow
  | deny
  | prompt (reason : DecisionReason) (default : Decision) (scope : Path)
  deriving DecidableEq, Repr

structure OwnedPath where
  path : Path
  owner : String
  allowedSubjects : List String := []
  denyNonOwner : Bool := false
  deriving DecidableEq, Repr

def allAccessKinds : List AccessKind := [.read, .write, .destructiveWrite]

structure SharedPath where
  path : Path
  pathPrefix : Bool := false
  allowedSubjects : List String := []
  access : List AccessKind := allAccessKinds
  deriving DecidableEq, Repr

structure PathRule where
  path : Path
  deriving DecidableEq, Repr

def defaultDevTools : List String := ["codex", "claude", "cursor", "node", "python", "python3"]

def defaultFailOpen : Bool := true

/-- The defaults are those of the deserialized file, where every key may be missing. -/
structure PolicyConfig where
  ownedPaths : List OwnedPath := []
  sharedPaths : List SharedPath := []
  sensitivePaths : List PathRule := []
  devTools : List String := defaultDevTools
  failOpen : Bool := defaultFailOpen
  deriving DecidableEq, Repr

namespace DecisionReason

/-- The two reasons an ancestry authorization can settle. -/
def isCrossOwner : DecisionReason → Bool
  | crossOwnerRead | crossOwnerWrite => true
  | sensitiveReadByDevTool | sensitiveWrite => false

end DecisionReason

end ConfigGuard
