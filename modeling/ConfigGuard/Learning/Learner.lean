import ConfigGuard.Learning.Roots
import ConfigGuard.Library.SortedMap
import ConfigGuard.Library.PathOrder

/-!
# The audit learner

`AuditLearner` of `learning.rs`: accesses counted by subject, configuration
root and kind, and the rules proposed for the roots only one subject used. A
count is a natural number; the `u64` of the source ends at `2 ^ 64` accesses of
one kind.
-/

namespace ConfigGuard
open OsPath Std

inductive AccessLabel where
  | read
  | write
  | destructiveWrite
  deriving DecidableEq, Repr

namespace AccessLabel

def ofKind : AccessKind → AccessLabel
  | .read => read
  | .write => write
  | .destructiveWrite => destructiveWrite

/-- The order of declaration. -/
def rank : AccessLabel → Nat
  | read => 0
  | write => 1
  | destructiveWrite => 2

theorem rank_injective : Function.Injective rank := by
  intro a b h
  cases a <;> cases b <;> first | rfl | cases h

end AccessLabel

structure ObservationKey where
  subject : String
  configRoot : Path
  access : AccessLabel
  deriving DecidableEq, Repr

namespace ObservationKey

def cmpRoot (a b : ObservationKey) : Ordering := a.configRoot.cmp b.configRoot

/-- The fields are compared in the order of declaration. -/
def cmp : ObservationKey → ObservationKey → Ordering :=
  compareLex (compareOn subject) (compareLex cmpRoot (compareOn fun key => key.access.rank))

instance : TransCmp cmpRoot :=
  inferInstanceAs (TransCmp (compareOn fun key : ObservationKey =>
    key.configRoot.components.map Component.rank))

instance : TransCmp cmp := inferInstanceAs (TransCmp (compareLex _ _))

theorem cmp_eq_iff {a b : ObservationKey} :
    cmp a b = .eq ↔ a.subject = b.subject ∧ a.configRoot.components = b.configRoot.components ∧
      a.access = b.access := by
  rw [cmp, compareLex_eq_eq, compareLex_eq_eq, compareOn, LawfulEqCmp.compare_eq_iff_eq, cmpRoot,
    Path.cmp_eq_iff, compareOn, LawfulEqCmp.compare_eq_iff_eq,
    AccessLabel.rank_injective.eq_iff]

end ObservationKey

structure LearnedOwnedPath where
  path : Path
  owner : String
  allowedSubjects : List String
  deriving DecidableEq, Repr

structure LearnedObservation where
  subject : String
  configRoot : Path
  access : AccessLabel
  count : Nat
  deriving DecidableEq, Repr

structure LearnedConfig where
  ownedPaths : List LearnedOwnedPath
  observations : List LearnedObservation
  deriving DecidableEq, Repr

/-- Only a path that is text can be written to TOML. -/
def LearnedConfig.isSerializable (learned : LearnedConfig) : Bool :=
  (learned.ownedPaths.map (·.path) ++ learned.observations.map (·.configRoot)).all fun path =>
    (toStr path.bytes).isSome

abbrev Observations := SortedMap ObservationKey Nat ObservationKey.cmp

abbrev Subjects := SortedMap String Unit compare

abbrev SubjectsByRoot := SortedMap Path Subjects Path.cmp

/-- The set with the element put in. -/
def Subjects.insert (subjects : Subjects) (subject : String) : Subjects :=
  subjects.upsert subject fun _ => ()

def subjectsByRoot (observations : Observations) : SubjectsByRoot :=
  .gather (fun entry : ObservationKey × Nat => entry.1.configRoot)
    (fun entry old => Subjects.insert (old.getD .empty) entry.1.subject)
    .empty observations.entries

def candidateOwnerForRoot : Path × Subjects → Option LearnedOwnedPath
  | (path, subjects) =>
    if subjects.entries.length ≠ 1 then none
    else subjects.entries.head?.map fun entry =>
      { path := path, owner := entry.1, allowedSubjects := [] }

structure AuditLearner where
  outputPath : Path
  homeDir : Path
  pathAliases : List PathAlias
  observations : Observations

namespace AuditLearner

def new (outputPath homeDir : Path) (listing : Option (List (Option ConfigDirEntry))) :
    AuditLearner where
  outputPath := outputPath
  homeDir := homeDir
  pathAliases := configSymlinkAliases homeDir listing
  observations := .empty

def candidateOwnedPaths (learner : AuditLearner) : List LearnedOwnedPath :=
  (subjectsByRoot learner.observations).entries.filterMap candidateOwnerForRoot

def learnedObservations (learner : AuditLearner) : List LearnedObservation :=
  learner.observations.entries.map fun (key, count) =>
    { subject := key.subject, configRoot := key.configRoot, access := key.access, count := count }

/-- The file that is written, and what is written to it. -/
def writeOutput (learner : AuditLearner) : Path × LearnedConfig :=
  (learner.outputPath,
    { ownedPaths := learner.candidateOwnedPaths, observations := learner.learnedObservations })

/-- The root an access to the target is counted for. -/
def rootOf (learner : AuditLearner) (target : Path) : Option Path :=
  configRootForHomeOrAlias target learner.homeDir learner.pathAliases

/-- Nothing is written for an access outside of every configuration root. -/
def observe (learner : AuditLearner) (subject : ProcessSubject) (target : Path)
    (access : AccessKind) : AuditLearner × Option (Path × LearnedConfig) :=
  match learner.rootOf target with
  | none => (learner, none)
  | some configRoot =>
    let key := { subject := subjectName subject, configRoot, access := .ofKind access }
    let counted := { learner with
      observations := learner.observations.upsert key fun count => count.getD 0 + 1 }
    (counted, some counted.writeOutput)

end AuditLearner

end ConfigGuard
