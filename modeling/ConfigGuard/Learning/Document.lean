import ConfigGuard.Learning.Replay
import ConfigGuard.Policy.File

/-!
# What was learned, read as a policy

The document that the learner writes, which the derived `Serialize` instances of
`learning.rs` make, and the configuration that is read from it. Keys that a policy
does not have are passed over, and keys that are missing have their defaults.
-/

namespace ConfigGuard
open OsPath Toml

/-- A path is written as text, if it is text. -/
def pathText (path : Path) : Option String := toStr path.bytes

def LearnedOwnedPath.table (learned : LearnedOwnedPath) : Option Table :=
  (pathText learned.path).map fun path =>
    [("path", .string path), ("owner", .string learned.owner),
      ("allowed_subjects", .array (learned.allowedSubjects.map .string))]

def AccessLabel.text : AccessLabel → String
  | read => "read"
  | write => "write"
  | destructiveWrite => "destructive-write"

/-- The count is a number. -/
def LearnedObservation.table (o : LearnedObservation) : Option Table :=
  (pathText o.configRoot).map fun configRoot =>
    [("subject", .string o.subject), ("config_root", .string configRoot),
      ("access", .string o.access.text), ("count", .other)]

def LearnedConfig.document (learned : LearnedConfig) : Option Table :=
  (learned.ownedPaths.mapM LearnedOwnedPath.table).bind fun ownedPaths =>
    (learned.observations.mapM LearnedObservation.table).map fun observations =>
      [("owned_paths", .tables ownedPaths), ("observations", .tables observations)]

theorem ofString_pathText {path : Path} {text : String} (h : pathText path = some text) :
    Path.ofString text = path := by
  rw [Path.ofString, utf8_of_toStr h]

theorem mapM_string (texts : List String) :
    (texts.map Value.string).mapM Value.asString = some texts := by
  induction texts with
  | nil => rfl
  | cons text texts ih => simp [Value.asString, ih]

/-- The rule of a table with these fields. -/
theorem readOwnedPath_fields {table : Table} {path owner : String} {allowedSubjects : List String}
    (hpath : table.get "path" = some (.string path))
    (howner : table.get "owner" = some (.string owner))
    (hallowed : table.get "allowed_subjects" = some (.array (allowedSubjects.map .string)))
    (hdeny : table.get "deny_non_owner" = none) :
    readOwnedPath (.table table) = some { path := Path.ofString path, owner, allowedSubjects } := by
  have hlist : Value.asList Value.asString (.array (allowedSubjects.map .string)) =
      some allowedSubjects := mapM_string _
  simp only [readOwnedPath, Option.bind_eq_bind, Option.bind_eq_some_iff, Option.pure_def]
  refine ⟨table, rfl, Path.ofString path, ?_, owner, ?_, allowedSubjects, ?_, false, ?_, rfl⟩
  · rw [Table.required, hpath]
    rfl
  · rw [Table.required, howner]
    rfl
  · rw [Table.optional, hallowed]
    exact hlist
  · rw [Table.optional, hdeny]

theorem readOwnedPath_table {learned : LearnedOwnedPath} {table : Table}
    (h : learned.table = some table) : readOwnedPath (.table table) = some learned.rule := by
  obtain ⟨text, htext, rfl⟩ := Option.map_eq_some_iff.mp h
  rw [readOwnedPath_fields rfl rfl rfl rfl,
    ofString_pathText htext]
  rfl

theorem readOwnedPaths_tables {ownedPaths : List LearnedOwnedPath} {tables : List Table}
    (h : ownedPaths.mapM LearnedOwnedPath.table = some tables) :
    (tables.map Value.table).mapM readOwnedPath = some (ownedPaths.map (·.rule)) := by
  induction ownedPaths generalizing tables with
  | nil =>
    obtain rfl := Option.some.inj h
    rfl
  | cons learned ownedPaths ih =>
    simp only [List.mapM_cons, Option.bind_eq_bind, Option.bind_eq_some_iff, Option.pure_def] at h
    obtain ⟨table, htable, tables, htables, heq⟩ := h
    obtain rfl := Option.some.inj heq
    simp [readOwnedPath_table htable, ih htables]

/-- What the learner writes is read as the policy with the learned rules and no others. -/
theorem readPolicyConfig_document {learned : LearnedConfig} {root : Table}
    (h : learned.document = some root) :
    readPolicyConfig root = some (learned.policy defaultDevTools defaultFailOpen) := by
  obtain ⟨tables, htables, h⟩ := Option.bind_eq_some_iff.mp h
  obtain ⟨observations, -, rfl⟩ := Option.map_eq_some_iff.mp h
  rw [readPolicyConfig_eq_some]
  exact ⟨readOwnedPaths_tables htables, rfl, rfl, rfl, rfl⟩

end ConfigGuard
