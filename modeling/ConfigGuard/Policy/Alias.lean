import ConfigGuard.Policy.Process

/-!
# Symlink aliases and the policy the guard runs

`config_symlink_aliases` of `learning.rs` and `StaticPolicy` of `main.rs`: a
physical path below the target of a symlink in `~/.config` is judged at the
place the symlink has in `~/.config`.
-/

namespace ConfigGuard
open OsPath Selection

structure PathAlias where
  realRoot : Path
  logicalRoot : Path
  deriving DecidableEq, Repr

/-- What the file system says of one entry of `~/.config`: its name, and where
it resolves to if it is a symlink that resolves. -/
structure ConfigDirEntry where
  name : Bytes
  isSymlink : Bool
  canonical : Option Path
  resolvesToDir : Bool

def configSymlinkAlias (configDir : Path) (entry : ConfigDirEntry) : Option PathAlias :=
  if entry.isSymlink then
    match entry.canonical with
    | some realRoot =>
      if entry.resolvesToDir then
        some { realRoot := realRoot, logicalRoot := configDir.join ⟨entry.name⟩ }
      else none
    | none => none
  else none

/-- `listing` is what `read_dir` of `~/.config` yields; entries that fail to
read are passed over. -/
def configSymlinkAliases (home : Path) (listing : Option (List (Option ConfigDirEntry))) :
    List PathAlias :=
  match listing with
  | none => []
  | some entries =>
    (entries.filterMap id).filterMap (configSymlinkAlias (home.join (Path.ofString ".config")))

def logicalPolicyPath (target : Path) : List PathAlias → Path
  | [] => target
  | link :: aliases =>
    match target.stripPrefix link.realRoot with
    | some relative => link.logicalRoot.join relative
    | none => logicalPolicyPath target aliases

/-- The policy interface the fanotify modes work with. -/
structure AccessPolicy where
  decide : ProcessSubject → Path → AccessKind → Except String Decision
  authorizationOwnerSubject : ProcessSubject → Option String

structure StaticPolicy where
  config : PolicyConfig
  pathAliases : List PathAlias

namespace StaticPolicy

def decisionPath (policy : StaticPolicy) (target : Path) : Path :=
  logicalPolicyPath target policy.pathAliases

def decide (policy : StaticPolicy) (subject : ProcessSubject) (target : Path)
    (access : AccessKind) : Decision :=
  Policy.decide policy.config subject (policy.decisionPath target) access

def toAccessPolicy (policy : StaticPolicy) : AccessPolicy where
  decide subject target access := .ok (policy.decide subject target access)
  authorizationOwnerSubject := Policy.authorizationOwnerSubject policy.config

end StaticPolicy

/-- The target is governed by a rule that denies everyone it does not allow,
and it does not allow the subject. -/
structure StrictlyDenied (config : PolicyConfig) (subject : ProcessSubject) (target : Path) :
    Prop where
  notGitignore : target.fileName ≠ some (utf8 ".gitignore")
  governed : ∃ rule, Policy.ownerFor config target = some rule ∧ rule.denyNonOwner = true ∧
    rule.allows subject (subjectName subject) = false

theorem prompt_ne_deny (config : PolicyConfig) (access : AccessKind) (path : Path) :
    Policy.promptForSensitiveAccess config access path ≠ .deny ∧
      Policy.promptForCrossOwnerAccess config access path ≠ .deny := by
  cases access <;> exact ⟨(by intro h; cases h), (by intro h; cases h)⟩

/-- Past the strict rules no stage of the decision denies. -/
theorem decide_eq_deny_iff {config : PolicyConfig} {subject : ProcessSubject} {target : Path}
    {access : AccessKind} :
    Policy.decide config subject target access = .deny ↔ StrictlyDenied config subject target := by
  constructor
  · intro h
    rw [Policy.decide] at h
    split at h
    · cases h
    · rename_i hname
      refine ⟨hname, ?_⟩
      cases howner : Policy.ownerFor config target with
      | none =>
        simp only [howner, Option.any_none, Bool.false_eq_true, if_false] at h
        split at h
        · cases h
        · split at h
          · exact absurd h (prompt_ne_deny config access _).1
          · cases h
      | some rule =>
        simp only [howner, Option.any_some] at h
        split at h
        · cases h
        · rename_i hallows
          split at h
          · rename_i hdeny
            exact ⟨rule, rfl, hdeny, Bool.eq_false_iff.mpr hallows⟩
          · split at h
            · cases h
            · split at h
              · exact absurd h (prompt_ne_deny config access _).1
              · exact absurd h (prompt_ne_deny config access _).2
  · rintro ⟨hname, rule, howner, hdeny, hallows⟩
    rw [Policy.decide, if_neg hname]
    simp [howner, hallows, hdeny]

/-- A path outside every real root is judged where it is. -/
theorem logicalPolicyPath_outside {target : Path} {aliases : List PathAlias}
    (h : ∀ link ∈ aliases, target.startsWith link.realRoot = false) :
    logicalPolicyPath target aliases = target := by
  induction aliases with
  | nil => rfl
  | cons link aliases ih =>
    have hnone := Path.stripPrefix_eq_none.mpr (h link List.mem_cons_self)
    rw [logicalPolicyPath, hnone]
    exact ih fun other hother => h other (List.mem_cons_of_mem _ hother)

/-- A symlink to a directory the target is not in has no effect on the target. -/
theorem logicalPolicyPath_middle {target : Path} {link : PathAlias}
    (h : target.startsWith link.realRoot = false) (before after : List PathAlias) :
    logicalPolicyPath target (before ++ link :: after) =
      logicalPolicyPath target (before ++ after) := by
  induction before with
  | nil =>
    rw [List.nil_append, logicalPolicyPath, Path.stripPrefix_eq_none.mpr h]
    rfl
  | cons first before ih =>
    rw [List.cons_append, List.cons_append, logicalPolicyPath, logicalPolicyPath, ih]

/-- A strict denial of the physical path survives the aliases exactly where
the logical path is strictly denied too. It survives in particular when the
target lies under no real root, and only a symlink whose directory contains
the target bears on it. -/
theorem strictDenial_under_aliases (config : PolicyConfig) (aliases : List PathAlias)
    (subject : ProcessSubject) (target : Path) (access : AccessKind)
    (h : Policy.decide config subject target access = .deny) :
    (StaticPolicy.decide ⟨config, aliases⟩ subject target access = .deny ↔
      StrictlyDenied config subject (logicalPolicyPath target aliases)) ∧
    ((∀ link ∈ aliases, target.startsWith link.realRoot = false) →
      StaticPolicy.decide ⟨config, aliases⟩ subject target access = .deny) ∧
    (∀ before link after, aliases = before ++ link :: after →
      target.startsWith link.realRoot = false →
      StaticPolicy.decide ⟨config, aliases⟩ subject target access =
        StaticPolicy.decide ⟨config, before ++ after⟩ subject target access) := by
  refine ⟨decide_eq_deny_iff, ?_, ?_⟩
  · intro houtside
    rw [StaticPolicy.decide, StaticPolicy.decisionPath, logicalPolicyPath_outside houtside]
    exact h
  · rintro before link after rfl houtside
    simp only [StaticPolicy.decide, StaticPolicy.decisionPath,
      logicalPolicyPath_middle houtside before after]

def brokerRule : OwnedPath where
  path := Path.ofString "/var/lib/secrets-broker"
  owner := "secrets-broker"
  denyNonOwner := true

def brokerConfig : PolicyConfig where
  ownedPaths := [brokerRule]

def brokerKey : Path := Path.ofString "/var/lib/secrets-broker/key"

/-- A symlink to the strictly owned directory. -/
def brokerSymlink : ConfigDirEntry where
  name := utf8 "x"
  isSymlink := true
  canonical := some brokerRule.path
  resolvesToDir := true

def catSubject : ProcessSubject where
  executable := Path.ofString "/usr/bin/cat"
  command := ["cat"]
  ancestors := []

theorem strictDenial_survives_app_symlink :
    StaticPolicy.decide ⟨brokerConfig, [⟨Path.ofString "/srv/app", Path.ofString "/etc/app"⟩]⟩
      catSubject brokerKey .read = .deny :=
  (strictDenial_under_aliases brokerConfig [⟨Path.ofString "/srv/app", Path.ofString "/etc/app"⟩]
    catSubject brokerKey .read (by decide)).2.1 (by decide)

/-- The symlink `~/.config/x` turns the strict denial off. -/
theorem symlink_lifts_strictDenial :
    ¬ ∀ (config : PolicyConfig) (home : Path) (listing : Option (List (Option ConfigDirEntry)))
      (subject : ProcessSubject) (access : AccessKind) (target : Path),
      Policy.decide config subject target access = .deny →
      StaticPolicy.decide ⟨config, configSymlinkAliases home listing⟩ subject target access =
        .deny := by
  intro h
  have hdeny := h brokerConfig (Path.ofString "/home/u") (some [some brokerSymlink]) catSubject
    .read brokerKey (by decide)
  exact absurd hdeny (by decide)

end ConfigGuard
