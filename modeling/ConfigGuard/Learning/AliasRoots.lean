import ConfigGuard.Learning.Roots

/-!
# The root that is learned and the path that is judged

The learner looks under the home directory first and behind the symlinks of
`~/.config` after that; the policy looks behind the symlinks first.
-/

namespace ConfigGuard
open OsPath

/-- What the symlinks of `~/.config` make: distinct entries of it, and the
absolute paths they resolve to. -/
structure ConfigAliases (home : Path) (aliases : List PathAlias) : Prop where
  logical : ∀ link ∈ aliases, ∃ name, Path.IsName name ∧
    link.logicalRoot = (home.join dotConfigDir).join ⟨name⟩
  distinct : (aliases.map (·.logicalRoot)).Nodup
  absolute : ∀ link ∈ aliases, link.realRoot.isAbsolute = true

/-- The first symlink that leads to a directory the path is in. -/
def firstOver (path : Path) (aliases : List PathAlias) : Option PathAlias :=
  aliases.find? fun link => path.startsWith link.realRoot

/-- The path that is judged is under every root that is learned for it. -/
def LearnedGoverns (target home : Path) (aliases : List PathAlias) : Prop :=
  ∀ root, configRootForHomeOrAlias target home aliases = some root →
    (logicalPolicyPath target aliases).startsWith root = true

theorem configRootForAlias_eq (path : Path) (aliases : List PathAlias) :
    configRootForAlias path aliases = (firstOver path aliases).map (·.logicalRoot) := by
  unfold configRootForAlias firstOver
  induction aliases with
  | nil => rfl
  | cons link aliases ih =>
    rw [List.findSome?_cons, List.find?_cons]
    cases hstrip : path.stripPrefix link.realRoot with
    | none =>
      rw [Path.stripPrefix_eq_none.mp hstrip]
      exact ih
    | some relative =>
      have hover : path.startsWith link.realRoot = true := by
        rw [← Path.stripPrefix_isSome, hstrip]
        rfl
      rw [hover]
      rfl

theorem logicalPolicyPath_of_firstOver {path : Path} {aliases : List PathAlias} {link : PathAlias}
    (h : firstOver path aliases = some link) :
    ∃ relative, path.stripPrefix link.realRoot = some relative ∧
      logicalPolicyPath path aliases = link.logicalRoot.join relative := by
  unfold firstOver at h
  induction aliases with
  | nil => cases h
  | cons first aliases ih =>
    rw [List.find?_cons] at h
    rw [logicalPolicyPath]
    cases hstrip : path.stripPrefix first.realRoot with
    | none =>
      rw [Path.stripPrefix_eq_none.mp hstrip] at h
      exact ih h
    | some relative =>
      have hover : path.startsWith first.realRoot = true := by
        rw [← Path.stripPrefix_isSome, hstrip]
        rfl
      rw [hover, Option.some.injEq] at h
      subst h
      exact ⟨relative, hstrip, rfl⟩

theorem components_ne_nil_of_isAbsolute {p : Path} (h : p.isAbsolute = true) :
    p.components ≠ [] := by
  rw [Path.components, Path.start, if_pos h]
  exact List.cons_ne_nil _ _

theorem logicalPolicyPath_of_none {target : Path} {aliases : List PathAlias}
    (h : firstOver target aliases = none) :
    logicalPolicyPath target aliases = target := by
  apply logicalPolicyPath_outside
  intro link hlink
  exact Bool.eq_false_iff.mpr (List.find?_eq_none.mp h link hlink)

section

variable {home target : Path} {aliases : List PathAlias} (haliases : ConfigAliases home aliases)

include haliases

theorem logicalRoot_configRoot {link : PathAlias} (h : link ∈ aliases) :
    ConfigRoot home link.logicalRoot := by
  obtain ⟨name, hname, hlogical⟩ := haliases.logical link h
  rw [hlogical]
  exact .subdir hname.noSlash (Path.parseSegment_name hname)

/-- Behind a symlink the path that is judged is under the symlink. -/
theorem logicalPolicyPath_under {link : PathAlias} (h : firstOver target aliases = some link) :
    (logicalPolicyPath target aliases).startsWith link.logicalRoot = true := by
  obtain ⟨relative, hstrip, hlogical⟩ := logicalPolicyPath_of_firstOver h
  have habsolute := haliases.absolute link (List.mem_of_find?_eq_some h)
  have hrelative := Path.stripPrefix_relative (components_ne_nil_of_isAbsolute habsolute) hstrip
  rw [hlogical, Path.startsWith_iff, Path.components_join_relative hrelative.1]
  exact List.prefix_append _ _

end

/-- The learned root governs the judged path exactly when the root found under
the home directory, if there is one, is the place of the first symlink that
leads to the target, if there is one. -/
theorem learnedGoverns_iff (home target : Path) (aliases : List PathAlias)
    (haliases : ConfigAliases home aliases) :
    LearnedGoverns target home aliases ↔
      ∀ root, configRootForHome target home = some root →
        ∀ link, firstOver target aliases = some link → link.logicalRoot = root := by
  constructor
  · intro h root hroot link hlink
    have hlearned : configRootForHomeOrAlias target home aliases = some root := by
      rw [configRootForHomeOrAlias, hroot]
      rfl
    have hlogical := logicalRoot_configRoot haliases (List.mem_of_find?_eq_some hlink)
    -- the judged path is under both roots, and so they are one
    exact hlogical.unique (configRootForHome_spec hroot).1 (logicalPolicyPath_under haliases hlink)
      (h root hlearned)
  · intro h root hlearned
    rw [configRootForHomeOrAlias] at hlearned
    cases hroot : configRootForHome target home with
    | some found =>
      rw [hroot] at hlearned
      obtain rfl : found = root := Option.some.inj hlearned
      cases hover : firstOver target aliases with
      | some link =>
        rw [← h found hroot link hover]
        exact logicalPolicyPath_under haliases hover
      | none =>
        rw [logicalPolicyPath_of_none hover]
        exact (configRootForHome_spec hroot).2.1
    | none =>
      -- without a root under the home directory both go by the first symlink
      rw [hroot, Option.none_or, configRootForAlias_eq] at hlearned
      obtain ⟨link, hover, rfl⟩ := Option.map_eq_some_iff.mp hlearned
      exact logicalPolicyPath_under haliases hover

def homeDir : Path := Path.ofString "/home/u"

/-- A symlink to a directory elsewhere. -/
def gmailLink : PathAlias := ⟨Path.ofString "/sync/config/gmail-cli", dotConfig "gmail-cli"⟩

theorem learnedGoverns_gmailLink :
    LearnedGoverns (Path.ofString "/sync/config/gmail-cli/tokens.json") homeDir [gmailLink] := by
  refine (learnedGoverns_iff homeDir _ [gmailLink] ⟨?_, by decide, by decide⟩).mpr ?_
  · intro link hlink
    rw [List.mem_singleton.mp hlink]
    exact ⟨utf8 "gmail-cli", by constructor <;> decide, by decide⟩
  · intro root hroot
    exact absurd (hroot.symm.trans (by decide : _ = none)) nofun

/-- A symlink in `~/.config` to a directory inside another one of `~/.config`. -/
def nestedLink : PathAlias := ⟨dotConfig "app/profile", dotConfig "profile"⟩

theorem nested_alias_not_governed :
    ¬ ∀ (home target : Path) (aliases : List PathAlias), ConfigAliases home aliases →
      LearnedGoverns target home aliases := by
  intro h
  have hgoverns := h homeDir (dotConfig "app/profile/settings") [nestedLink]
    ⟨?_, by decide, by decide⟩ (dotConfig "app") (by decide)
  · exact absurd hgoverns (by decide)
  · intro link hlink
    rw [List.mem_singleton.mp hlink]
    exact ⟨utf8 "profile", by constructor <;> decide, by decide⟩

end ConfigGuard
