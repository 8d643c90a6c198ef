import ConfigGuard.Policy.Config
import ConfigGuard.Library.PathJoin
import ConfigGuard.Library.PathOrder
import ConfigGuard.Library.FileTree

/-!
# Reconciling the configuration home with the policy

`reconcile.rs`. Every place of the file system is reached by its own path only:
symlinks from one place to another are not in the model, and `..` is not resolved. A
file that can be read can be written, and nothing is cut short half-way.
-/

namespace ConfigGuard
open OsPath

abbrev ConfigTree := FileTree Path.IsComponent Bytes

/-- The place a path leads to. -/
def placeOf (p : Path) : Place Path.IsComponent := ⟨p.components, fun _ => Path.isComponent_of_mem⟩

/-- The tree with these nodes put in, one after the other. -/
def treeOf (nodes : List (Path × Node Bytes)) : ConfigTree :=
  nodes.foldl (fun tree (path, n) =>
    if hne : (placeOf path).1 ≠ [] then tree.set (placeOf path) hne n else tree) .empty

inductive ActionKind where
  | keepConfigured
  | associateCandidate
  | associated
  | archiveCandidate
  | archived
  deriving DecidableEq, Repr

structure ReconcileAction where
  kind : ActionKind
  source : Path
  target : Option Path
  owner : Option String
  binary : Option Path
  reason : String
  deriving DecidableEq, Repr

structure ReconcilePlan where
  actions : List ReconcileAction
  deriving DecidableEq, Repr

structure ReconcileOptions where
  configHome : Path
  archiveDir : Path
  policyConfig : PolicyConfig
  binaryDirs : List Path
  configPath : Option Path
  apply : Bool
  archiveDir_eq : archiveDir = configHome.join (Path.ofString "archive")

namespace ReconcileOptions

/-- `pathBinaryDirs` are the directories of the `PATH` variable. -/
def new (configHome : Path) (policyConfig : PolicyConfig) (pathBinaryDirs : List Path) :
    ReconcileOptions where
  configHome := configHome
  archiveDir := configHome.join (Path.ofString "archive")
  policyConfig := policyConfig
  binaryDirs := pathBinaryDirs
  configPath := none
  apply := false
  archiveDir_eq := rfl

def withBinaryDirs (options : ReconcileOptions) (binaryDirs : List Path) : ReconcileOptions :=
  { options with binaryDirs := binaryDirs }

def withConfigPath (options : ReconcileOptions) (configPath : Path) : ReconcileOptions :=
  { options with configPath := some configPath }

def applying (options : ReconcileOptions) : ReconcileOptions := { options with apply := true }

end ReconcileOptions

/-- What failed, and on which path. -/
inductive ReconcileError where
  | readingConfigHome (configHome : Path)
  | missingConfigPath
  | reading (configPath : Path)
  | writing (configPath : Path)
  | targetWithoutParent
  | creating (parent : List Component)
  | moving (entry target : Path)
  deriving DecidableEq, Repr

/-- The outermost text of the error; `displayPlace` shows a directory. -/
def ReconcileError.message (displayPlace : List Component → String) : ReconcileError → String
  | readingConfigHome configHome => s!"reading config home {configHome.display}"
  | missingConfigPath => "apply association requires a config path"
  | reading configPath => s!"reading {configPath.display}"
  | writing configPath => s!"writing {configPath.display}"
  | targetWithoutParent => "archive target should have parent directory"
  | creating parent => s!"creating {displayPlace parent}"
  | moving entry target => s!"moving {entry.display} to {target.display}"

/-- What `read_dir` yields: the names in the directory. -/
def readDir (tree : ConfigTree) (dir : Path) : Option (List Bytes) :=
  if tree.isDir dir.components then
    some ((tree.children dir.components).filterMap fun
      | .normal name => some name
      | _ => none)
  else none

def configHomeEntries (configHome : Path) (tree : ConfigTree) :
    Except ReconcileError (List Path) :=
  match readDir tree configHome with
  | none => .error (.readingConfigHome configHome)
  | some names =>
    .ok ((names.map fun name => configHome.join ⟨name⟩).insertionSort Path.Le)

def isArchiveDir (entry archiveDir : Path) : Bool := entry.same archiveDir

def pathsOverlap (entry rule : Path) : Bool := entry.startsWith rule || rule.startsWith entry

def policyCoversPath (config : PolicyConfig) (path : Path) : Bool :=
  config.ownedPaths.any (fun rule => pathsOverlap path rule.path) ||
    config.sharedPaths.any (fun rule => pathsOverlap path rule.path) ||
    config.sensitivePaths.any fun rule => pathsOverlap path rule.path

def keepConfiguredAction (entry : Path) : ReconcileAction where
  kind := .keepConfigured
  source := entry
  target := none
  owner := none
  binary := none
  reason := "covered by policy config"

structure BinaryMatch where
  owner : String
  binary : Path
  deriving DecidableEq, Repr

/-- The name without the `.`s and `@`s it begins with. -/
def baseName (name : List Char) : List Char := name.dropWhile fun c => c == '.' || c == '@'

def cliSuffix : List Char := ['-', 'c', 'l', 'i']

def withoutCli (name : List Char) : List Char :=
  (cliSuffix.isSuffixOf? (baseName name)).getD (baseName name)

def toAsciiLowercase (text : List Char) : List Char := text.map Char.toLower

def replaceSpace (replacement text : List Char) : List Char :=
  text.flatMap fun c => if c = ' ' then replacement else [c]

def ownerCandidates (name : List Char) : List (List Char) :=
  [withoutCli name, toAsciiLowercase (withoutCli name),
    toAsciiLowercase (replaceSpace ['-'] (withoutCli name)),
    toAsciiLowercase (replaceSpace [] (withoutCli name))]

/-- The candidate is taken unless it is empty or there already. -/
def pushNew (owners : List (List Char)) (candidate : List Char) : List (List Char) :=
  if candidate ≠ [] ∧ candidate ∉ owners then owners ++ [candidate] else owners

def ownerNames (name : List Char) : List (List Char) := (ownerCandidates name).foldl pushNew []

def ownerNamesForEntry (entry : Path) : Option (List String) :=
  match entry.fileName.bind toStr with
  | none => none
  | some name =>
    let owners := ownerNames name.toList
    if owners = [] then none else some (owners.map String.ofList)

def pathExists (tree : ConfigTree) (path : Path) : Bool := (tree.node path.components).isSome

/-- The binary of this name in the first directory that has one. -/
def binaryFor (tree : ConfigTree) (binaryDirs : List Path) (owner : String) : Option BinaryMatch :=
  ((binaryDirs.map fun dir => dir.join (Path.ofString owner)).find? (pathExists tree)).map
    fun binary => { owner, binary }

def findAssociatedBinary (tree : ConfigTree) (entry : Path) (binaryDirs : List Path) :
    Option BinaryMatch :=
  match ownerNamesForEntry entry with
  | none => none
  | some owners => owners.findSome? (binaryFor tree binaryDirs)

def ruleText (path : Path) (owner : String) : String :=
  "\n[[owned_paths]]\npath = \"" ++ path.display ++ "\"\nowner = \"" ++ owner ++
    "\"\nallowed_subjects = []\n"

def readToString (tree : ConfigTree) (path : Path) : Option String :=
  match tree.node path.components with
  | some (.file content) => toStr content
  | _ => none

def appendOwnedPath (configPath : Option Path) (path : Path) (owner : String) (tree : ConfigTree) :
    Except ReconcileError ConfigTree :=
  match configPath with
  | none => .error .missingConfigPath
  | some configPath =>
    match readToString tree configPath with
    | none => .error (.reading configPath)
    | some content =>
      match tree.write (placeOf configPath) (utf8 (content ++ ruleText path owner)) with
      | none => .error (.writing configPath)
      | some tree => .ok tree

def appliedKind (apply : Bool) (applied dryRun : ActionKind) : ActionKind :=
  if apply then applied else dryRun

def associationAction (entry : Path) (options : ReconcileOptions) (found : BinaryMatch)
    (tree : ConfigTree) : ConfigTree × Except ReconcileError ReconcileAction :=
  let action : ReconcileAction :=
    { kind := appliedKind options.apply .associated .associateCandidate
      source := entry
      target := none
      owner := some found.owner
      binary := some found.binary
      reason := "associated binary found" }
  if options.apply then
    match appendOwnedPath options.configPath entry found.owner tree with
    | .error error => (tree, .error error)
    | .ok tree => (tree, .ok action)
  else (tree, .ok action)

/-- `timestampSuffix` is the time in seconds. -/
def archiveTarget (tree : ConfigTree) (entry archiveDir : Path) (timestampSuffix : Nat) : Path :=
  let target := archiveDir.join ⟨entry.fileName.getD (utf8 "unknown")⟩
  if !pathExists tree target then target
  else
    archiveDir.join (Path.ofString
      ((target.fileName.bind toStr).getD "unknown" ++ "-" ++ toString timestampSuffix))

/-- The directory a path is in. -/
def parent (p : Path) : Option (Place Path.IsComponent) :=
  match p.components.getLast? with
  | none | some .rootDir => none
  | some _ => some ⟨p.components.dropLast, fun _ hc => (placeOf p).2 _ (List.dropLast_subset _ hc)⟩

/-- The directory that was made for the target stays when the move fails. -/
def moveToArchive (entry target : Path) (tree : ConfigTree) :
    ConfigTree × Except ReconcileError Unit :=
  match parent target with
  | none => (tree, .error .targetWithoutParent)
  | some parent =>
    match tree.createDirAll parent with
    | none => (tree, .error (.creating parent.1))
    | some tree =>
      match tree.rename (placeOf entry) (placeOf target) with
      | none => (tree, .error (.moving entry target))
      | some tree => (tree, .ok ())

def archiveAction (entry : Path) (options : ReconcileOptions) (timestampSuffix : Nat)
    (tree : ConfigTree) : ConfigTree × Except ReconcileError ReconcileAction :=
  let target := archiveTarget tree entry options.archiveDir timestampSuffix
  let action : ReconcileAction :=
    { kind := appliedKind options.apply .archived .archiveCandidate
      source := entry
      target := some target
      owner := none
      binary := none
      reason := "associated binary not found" }
  if options.apply then
    match moveToArchive entry target tree with
    | (tree, .error error) => (tree, .error error)
    | (tree, .ok ()) => (tree, .ok action)
  else (tree, .ok action)

def planEntry (entry : Path) (options : ReconcileOptions) (timestampSuffix : Nat)
    (tree : ConfigTree) : ConfigTree × Except ReconcileError ReconcileAction :=
  if policyCoversPath options.policyConfig entry then (tree, .ok (keepConfiguredAction entry))
  else
    match findAssociatedBinary tree entry options.binaryDirs with
    | some found => associationAction entry options found tree
    | none => archiveAction entry options timestampSuffix tree

/-- The loop over the entries; `clock` is the time an entry is come to. -/
def planEntries (options : ReconcileOptions) (clock : Path → Nat) :
    List Path → ConfigTree → ConfigTree × Except ReconcileError (List ReconcileAction)
  | [], tree => (tree, .ok [])
  | entry :: entries, tree =>
    if isArchiveDir entry options.archiveDir then planEntries options clock entries tree
    else if !tree.isDir entry.components then planEntries options clock entries tree
    else
      match planEntry entry options (clock entry) tree with
      | (tree, .error error) => (tree, .error error)
      | (tree, .ok action) =>
        let (tree, actions) := planEntries options clock entries tree
        (tree, actions.map (action :: ·))

def planReconcile (options : ReconcileOptions) (clock : Path → Nat) (tree : ConfigTree) :
    ConfigTree × Except ReconcileError ReconcilePlan :=
  match configHomeEntries options.configHome tree with
  | .error error => (tree, .error error)
  | .ok entries =>
    let (tree, actions) := planEntries options clock entries tree
    (tree, actions.map fun actions => { actions })

end ConfigGuard
