import ConfigGuard.Library.Climb
import ConfigGuard.Process.Stat
import ConfigGuard.Prompt.Resolution

/-!
# Inspecting a process

`process.rs`: the files of a process under `/proc` and what is made of them. The
files are read one after the other; a process can change, end or be followed by
another one of its id between two reads.
-/

namespace ConfigGuard
open OsPath Text Climb

/-- What reading the files of a process yields at one moment, `none` where it fails. -/
structure ProcFiles where
  exe : Option Path
  cwd : Option Path
  cmdline : Option Bytes
  comm : Option Bytes
  stat : Option Bytes
  environ : Option Bytes

/-- The files at each moment, by process id. -/
abbrev Procfs := Nat → Int → ProcFiles

inductive InspectError where
  | reading (pid : Int) (file : String)
  | stat (error : StatError)
  deriving DecidableEq, Repr

/-- `read_to_string` of the stat file. -/
def ProcFiles.statText (files : ProcFiles) : Option String := files.stat.bind toStr

def deletedSuffix : Bytes := utf8 " (deleted)"

def stripDeletedSuffix (path : Path) : Path :=
  if deletedSuffix.isSuffixOf path.bytes then
    ⟨path.bytes.take (path.bytes.length - deletedSuffix.length)⟩
  else path

def readExeLink (files : ProcFiles) : Option Path := files.exe.map stripDeletedSuffix

def parseCmdline (bytes : Bytes) : List String :=
  ((bytes.splitOn 0).filter (· ≠ [])).filterMap toStr

def trim (text : List Char) : List Char := (text.dropWhile isWhiteSpace).rdropWhile isWhiteSpace

def parseComm (comm : String) : Option String :=
  let name := trim comm.toList
  if name = [] then none else some (String.ofList name)

def readCmdline (pid : Int) (files : ProcFiles) : Except InspectError (List String) :=
  match files.cmdline with
  | none => .error (.reading pid "cmdline")
  | some bytes => .ok (parseCmdline bytes)

/-- The command name is read after the command line, where that is empty. -/
def readCommand (fs : Procfs) (now : Nat) (pid : Int) : Except InspectError (List String) :=
  match readCmdline pid (fs now pid) with
  | .error error => .error error
  | .ok command =>
    if command ≠ [] then .ok command
    else .ok (parseComm (((fs (now + 1) pid).comm.bind toStr).getD "")).toList

def readStartTimeTicks (pid : Int) (files : ProcFiles) : Except InspectError (Option Nat) :=
  match files.statText with
  | none => .error (.reading pid "stat")
  | some stat =>
    match parseStartTimeTicks stat with
    | .error error => .error (.stat error)
    | .ok ticks => .ok (some ticks.toNat)

def isProcessGenerationCurrent (files : ProcFiles) (pid : Int) (expected : Nat) : Bool :=
  match readStartTimeTicks pid files with
  | .ok (some ticks) => ticks == expected
  | .ok none | .error _ => false

def maxAncestors : Nat := 32

/-- The loop of `read_ancestor_processes`; `currentStat` is the stat of the
process it has come to. -/
def ancestorProcessesFrom (fs : Procfs) : Nat → Nat → Int → String → List ProcessAncestor
  | 0, _, _, _ => []
  | hops + 1, now, currentPid, currentStat =>
    match parseParentPid currentStat with
    | .error _ => []
    | .ok parentPid =>
      if parentPid ≤ 1 ∨ parentPid = currentPid then []
      else
        let parentStat := (fs now parentPid).statText
        let ancestor := (readExeLink (fs (now + 1) parentPid)).map fun executable =>
          { pid := parentPid
            executable := executable
            startTimeTicks := parentStat.bind fun stat =>
              (parseStartTimeTicks stat).toOption.map Int.toNat : ProcessAncestor }
        ancestor.toList ++
          match parentStat with
          | none => []
          | some stat => ancestorProcessesFrom fs hops (now + 2) parentPid stat

/-- The stat of the process is read a while before the loop starts. -/
def readAncestorProcesses (fs : Procfs) (now : Nat) (pid : Int) : List ProcessAncestor :=
  match (fs now pid).statText with
  | none => []
  | some stat => ancestorProcessesFrom fs maxAncestors (now + 2) pid stat

/-- Each read happens at a moment of its own. -/
def inspectProcess (fs : Procfs) (now : Nat) (pid : Int) :
    Except InspectError ProcessIdentity :=
  let executable := readExeLink (fs now pid)
  let cwd := (fs (now + 1) pid).cwd
  match readCommand fs (now + 2) pid with
  | .error error => .error error
  | .ok command =>
    match readStartTimeTicks pid (fs (now + 4) pid) with
    | .error error => .error error
    | .ok startTimeTicks =>
      let ancestorProcesses := readAncestorProcesses fs (now + 5) pid
      .ok
        { pid := pid
          executable := executable
          command := command
          cwd := cwd
          startTimeTicks := startTimeTicks
          ancestors := ancestorProcesses.map (·.executable)
          ancestorProcesses := ancestorProcesses }

def waylandEnvKeys : List String :=
  ["WAYLAND_DISPLAY", "XDG_RUNTIME_DIR", "XDG_SESSION_TYPE", "XDG_SESSION_ID",
    "DBUS_SESSION_BUS_ADDRESS"]

def equalsSign : UInt8 := 61

def parseEnvEntry (entry : Bytes) : Option (String × String) :=
  (splitOnce equalsSign entry).bind fun (key, value) =>
    (toStr key).bind fun key => (toStr value).map fun value => (key, value)

/-- Of two entries of one key the later one stays. -/
def collectEnv (entries : List (String × String)) : Env :=
  entries.foldl (fun env entry => env.insert entry.1 entry.2) ∅

def parseEnviron (bytes : Bytes) : Env := collectEnv ((bytes.splitOn 0).filterMap parseEnvEntry)

def selectWaylandEnv (bytes : Bytes) : Env :=
  collectEnv (((parseEnviron bytes).entries.map fun entry => (entry.1, entry.2)).filter
    fun entry => waylandEnvKeys.contains entry.1)

def readWaylandEnv (files : ProcFiles) : Env :=
  match files.environ with
  | none => ∅
  | some bytes => selectWaylandEnv bytes

end ConfigGuard
