import ConfigGuard.Library.Toml
import ConfigGuard.Policy.Config

/-!
# The text of a policy

How the values of a document become a configuration, which the derived
`Deserialize` instances of `policy.rs` do.
-/

namespace ConfigGuard
open OsPath Toml

def readPath (value : Value) : Option Path := value.asString.map Path.ofString

def readAccessKind (value : Value) : Option AccessKind :=
  match value.asVariant with
  | some "read" => some .read
  | some "write" => some .write
  | some "destructive-write" => some .destructiveWrite
  | _ => none

example : readAccessKind (.table [("read", .table [])]) = some .read := rfl

def readOwnedPath (value : Value) : Option OwnedPath := do
  let fields ← value.asRecord ["path", "owner", "allowed_subjects", "deny_non_owner"]
  let path ← fields.required "path" readPath
  let owner ← fields.required "owner" Value.asString
  let allowedSubjects ← fields.optional "allowed_subjects" [] (Value.asList Value.asString)
  let denyNonOwner ← fields.optional "deny_non_owner" false Value.asBoolean
  return { path, owner, allowedSubjects, denyNonOwner }

def readSharedPath (value : Value) : Option SharedPath := do
  let fields ← value.asRecord ["path", "path_prefix", "allowed_subjects", "access"]
  let path ← fields.required "path" readPath
  let pathPrefix ← fields.optional "path_prefix" false Value.asBoolean
  let allowedSubjects ← fields.optional "allowed_subjects" [] (Value.asList Value.asString)
  let access ← fields.optional "access" allAccessKinds (Value.asList readAccessKind)
  return { path, pathPrefix, allowedSubjects, access }

def readPathRule (value : Value) : Option PathRule := do
  let fields ← value.asRecord ["path"]
  let path ← fields.required "path" readPath
  return { path }

/-- Keys that are not looked for are passed over. -/
def readPolicyConfig (root : Table) : Option PolicyConfig := do
  let ownedPaths ← root.optional "owned_paths" [] (Value.asList readOwnedPath)
  let sharedPaths ← root.optional "shared_paths" [] (Value.asList readSharedPath)
  let sensitivePaths ← root.optional "sensitive_paths" [] (Value.asList readPathRule)
  let devTools ← root.optional "dev_tools" defaultDevTools (Value.asList Value.asString)
  let failOpen ← root.optional "fail_open" defaultFailOpen Value.asBoolean
  return { ownedPaths, sharedPaths, sensitivePaths, devTools, failOpen }

/-- `toml::from_str`, with this reader of documents. -/
def parsePolicy (r : Reader) (text : String) : Option PolicyConfig :=
  (r.parse text.toList).bind readPolicyConfig

theorem readOwnedPath_path {table : Table} {text : String}
    (hpath : table.get "path" = some (.string text)) {rule : OwnedPath}
    (h : readOwnedPath (.table table) = some rule) : rule.path = Path.ofString text := by
  simp only [readOwnedPath, Option.bind_eq_bind, Option.bind_eq_some_iff, Option.pure_def] at h
  obtain ⟨fields, hfields, path, hread, owner, -, allowed, -, deny, -, hrule⟩ := h
  rw [← Option.some.inj hfields, Table.required, hpath] at hread
  rw [← Option.some.inj hrule, ← Option.some.inj hread]

theorem readPolicyConfig_eq_some {root : Table} {config : PolicyConfig} :
    readPolicyConfig root = some config ↔
      root.optional "owned_paths" [] (Value.asList readOwnedPath) = some config.ownedPaths ∧
      root.optional "shared_paths" [] (Value.asList readSharedPath) = some config.sharedPaths ∧
      root.optional "sensitive_paths" [] (Value.asList readPathRule) =
        some config.sensitivePaths ∧
      root.optional "dev_tools" defaultDevTools (Value.asList Value.asString) =
        some config.devTools ∧
      root.optional "fail_open" defaultFailOpen Value.asBoolean = some config.failOpen := by
  simp only [readPolicyConfig, Option.bind_eq_bind, Option.bind_eq_some_iff, Option.pure_def,
    Option.some.injEq]
  constructor
  · rintro ⟨owned, howned, shared, hshared, sensitive, hsensitive, dev, hdev, fail, hfail, rfl⟩
    exact ⟨howned, hshared, hsensitive, hdev, hfail⟩
  · rintro ⟨howned, hshared, hsensitive, hdev, hfail⟩
    exact ⟨_, howned, _, hshared, _, hsensitive, _, hdev, _, hfail, rfl⟩

/-- The rules are read from the tables under their headers. -/
theorem owned_of_extendable {root : Table} (h : Extendable root "owned_paths") :
    root.optional "owned_paths" [] (Value.asList readOwnedPath) =
      ((elements root "owned_paths").map .table).mapM readOwnedPath := by
  rw [Table.optional, elements]
  cases hvalue : root.get "owned_paths" with
  | none => rfl
  | some value =>
    obtain ⟨items, rfl⟩ := h value hvalue
    rfl

/-- Another table is another rule. -/
theorem readPolicyConfig_update {root table : Table} {config : PolicyConfig} {rule : OwnedPath}
    (hextendable : Extendable root "owned_paths") (hconfig : readPolicyConfig root = some config)
    (hrule : readOwnedPath (.table table) = some rule) :
    readPolicyConfig (root.set "owned_paths"
        (.tables (elements root "owned_paths" ++ [table]))) =
      some { config with ownedPaths := config.ownedPaths ++ [rule] } := by
  rw [readPolicyConfig_eq_some, owned_of_extendable hextendable] at hconfig
  obtain ⟨howned, hshared, hsensitive, hdev, hfail⟩ := hconfig
  rw [readPolicyConfig_eq_some]
  refine ⟨?_, ?_, ?_, ?_, ?_⟩
  · have hitems : ((elements root "owned_paths" ++ [table]).map Value.table).mapM readOwnedPath =
        some (config.ownedPaths ++ [rule]) := by
      rw [List.map_append, List.mapM_append, howned]
      simp [hrule]
    rw [Table.optional, Table.get_set_self]
    exact hitems
  · rwa [Table.optional_set_ne _ (by decide)]
  · rwa [Table.optional_set_ne _ (by decide)]
  · rwa [Table.optional_set_ne _ (by decide)]
  · rwa [Table.optional_set_ne _ (by decide)]

theorem length_ownedPaths {root : Table} {config : PolicyConfig}
    (hextendable : Extendable root "owned_paths") (hconfig : readPolicyConfig root = some config) :
    config.ownedPaths.length = (elements root "owned_paths").length := by
  rw [readPolicyConfig_eq_some, owned_of_extendable hextendable] at hconfig
  rw [(Value.mapM_eq_some hconfig.1).1, List.length_map]

/-- The rule in some place is the one the table there spells. -/
theorem rule_of_table {root table : Table} {config : PolicyConfig} {i : Nat}
    (hconfig : readPolicyConfig root = some config)
    (htable : (elements root "owned_paths")[i]? = some table) :
    ∃ rule, config.ownedPaths[i]? = some rule ∧ readOwnedPath (.table table) = some rule := by
  have hextendable : Extendable root "owned_paths" := by
    intro value hvalue
    rw [elements, hvalue] at htable
    cases value with
    | tables items => exact ⟨items, rfl⟩
    | _ => cases htable
  rw [readPolicyConfig_eq_some, owned_of_extendable hextendable] at hconfig
  refine (Value.mapM_eq_some hconfig.1).2 ?_
  rw [List.getElem?_map, htable]
  rfl

end ConfigGuard
