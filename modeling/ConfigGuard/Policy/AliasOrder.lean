import Mathlib.Data.List.Nodup
import ConfigGuard.Policy.Alias

/-!
# The order of the symlink aliases

`logical_policy_path` takes the first alias that fits, and the aliases stand
in the order in which `read_dir` listed `~/.config`.
-/

namespace ConfigGuard
open OsPath Selection

/-- Where one alias sends a path below its real root. -/
def PathAlias.rewrite (target : Path) (link : PathAlias) : Option Path :=
  (target.stripPrefix link.realRoot).map link.logicalRoot.join

theorem logicalPolicyPath_eq_findSome? (target : Path) (aliases : List PathAlias) :
    logicalPolicyPath target aliases =
      (aliases.findSome? (PathAlias.rewrite target)).getD target := by
  induction aliases with
  | nil => rfl
  | cons link aliases ih =>
    rw [logicalPolicyPath, List.findSome?_cons, PathAlias.rewrite]
    cases target.stripPrefix link.realRoot with
    | none => exact ih
    | some relative => rfl

/-- Every order of the aliases sends the target to one place and judges it alike. -/
def OrderFree (aliases : List PathAlias) (target : Path) : Prop :=
  ∀ permuted : List PathAlias, permuted.Perm aliases →
    logicalPolicyPath target permuted = logicalPolicyPath target aliases ∧
    ∀ config subject access,
      StaticPolicy.decide ⟨config, permuted⟩ subject target access =
        StaticPolicy.decide ⟨config, aliases⟩ subject target access

theorem orderFree_iff_agree {aliases : List PathAlias} {target : Path} :
    OrderFree aliases target ↔ Agree (PathAlias.rewrite target) aliases := by
  rw [← findSome?_getD_perm_iff target]
  simp only [← logicalPolicyPath_eq_findSome?]
  constructor
  · intro h permuted hperm
    exact (h permuted hperm).1
  · intro h permuted hperm
    refine ⟨h permuted hperm, ?_⟩
    intro config subject access
    simp only [StaticPolicy.decide, StaticPolicy.decisionPath, h permuted hperm]

/-- What any listing of a directory satisfies: names of entries, no name twice,
absolute canonical paths. -/
structure Listed (listing : List (Option ConfigDirEntry)) : Prop where
  isName : ∀ entry ∈ listing.filterMap id, Path.IsName entry.name
  distinct : ((listing.filterMap id).map (·.name)).Nodup
  absolute : ∀ entry ∈ listing.filterMap id, ∀ real, entry.canonical = some real →
    real.isAbsolute = true

theorem configSymlinkAlias_eq_some {dir : Path} {entry : ConfigDirEntry} {link : PathAlias}
    (h : configSymlinkAlias dir entry = some link) :
    entry.canonical = some link.realRoot ∧ link.logicalRoot = dir.join ⟨entry.name⟩ := by
  rw [configSymlinkAlias] at h
  split at h
  · split at h
    · rename_i real hreal
      split at h
      · rw [← Option.some.inj h]
        exact ⟨hreal, rfl⟩
      · cases h
    · cases h
  · cases h

theorem rewrite_eq_some {target result : Path} {link : PathAlias}
    (h : link.rewrite target = some result) :
    ∃ relative, target.stripPrefix link.realRoot = some relative ∧
      result = link.logicalRoot.join relative := by
  obtain ⟨relative, hrelative, heq⟩ := Option.map_eq_some_iff.mp h
  exact ⟨relative, hrelative, heq.symm⟩

theorem rewrite_isSome {target : Path} {link : PathAlias} :
    (link.rewrite target).isSome = target.startsWith link.realRoot := by
  rw [PathAlias.rewrite, Option.isSome_map, Path.stripPrefix_isSome]

section Listed

variable {home : Path} {listing : List (Option ConfigDirEntry)}

theorem mem_configSymlinkAliases {link : PathAlias}
    (h : link ∈ configSymlinkAliases home (some listing)) :
    ∃ entry ∈ listing.filterMap id,
      configSymlinkAlias (home.join (Path.ofString ".config")) entry = some link :=
  List.mem_filterMap.mp h

/-- Two symlinks of one directory never send a path to one place. -/
theorem agree_iff_of_listed (hlisted : Listed listing) {target : Path} :
    Agree (PathAlias.rewrite target) (configSymlinkAliases home (some listing)) ↔
      ∀ a ∈ configSymlinkAliases home (some listing),
        ∀ b ∈ configSymlinkAliases home (some listing),
        target.startsWith a.realRoot = true → target.startsWith b.realRoot = true → a = b := by
  constructor
  · intro h a ha b hb hover hover'
    rw [← rewrite_isSome, Option.isSome_iff_exists] at hover hover'
    obtain ⟨x, hx⟩ := hover
    obtain ⟨y, hy⟩ := hover'
    have hxy := h a ha b hb x y hx hy
    obtain ⟨r, hr, rfl⟩ := rewrite_eq_some hx
    obtain ⟨r', hr', rfl⟩ := rewrite_eq_some hy
    obtain ⟨e, he, hea⟩ := mem_configSymlinkAliases ha
    obtain ⟨f, hf, hfb⟩ := mem_configSymlinkAliases hb
    obtain ⟨hreal, hlogical⟩ := configSymlinkAlias_eq_some hea
    obtain ⟨hreal', hlogical'⟩ := configSymlinkAlias_eq_some hfb
    rw [hlogical, hlogical'] at hxy
    have hname : e.name = f.name :=
      Path.name_eq_of_join_eq (hlisted.isName e he) (hlisted.isName f hf)
        (Path.not_isAbsolute_stripPrefix (hlisted.absolute e he _ hreal) hr)
        (Path.not_isAbsolute_stripPrefix (hlisted.absolute f hf _ hreal') hr') hxy
    have hef : e = f := List.inj_on_of_nodup_map hlisted.distinct he hf hname
    rw [hef, hfb] at hea
    exact (Option.some.inj hea).symm
  · intro h a ha b hb x y hx hy
    have hover : target.startsWith a.realRoot = true := by rw [← rewrite_isSome, hx]; rfl
    have hover' : target.startsWith b.realRoot = true := by rw [← rewrite_isSome, hy]; rfl
    obtain rfl := h a ha b hb hover hover'
    exact Option.some.inj (hx.symm.trans hy)

end Listed

/-- The order of the aliases is irrelevant to a target exactly when all aliases
over the target send it to one place; for the symlinks of `~/.config`, when at
most one of them leads to a directory the target is in. -/
theorem orderFree_iff (aliases : List PathAlias) (target : Path) :
    (OrderFree aliases target ↔
      ∀ a ∈ aliases, ∀ b ∈ aliases, ∀ x y, a.rewrite target = some x →
        b.rewrite target = some y → x = y) ∧
    ∀ home listing, Listed listing → aliases = configSymlinkAliases home (some listing) →
      (OrderFree aliases target ↔
        ∀ a ∈ aliases, ∀ b ∈ aliases, target.startsWith a.realRoot = true →
          target.startsWith b.realRoot = true → a = b) := by
  refine ⟨orderFree_iff_agree, ?_⟩
  rintro home listing hlisted rfl
  exact orderFree_iff_agree.trans (agree_iff_of_listed hlisted)

def userHome : Path := Path.ofString "/home/u"

def dotConfig (name : String) : Path := Path.ofString ("/home/u/.config/" ++ name)

def fishLink : PathAlias := ⟨Path.ofString "/sync/config", dotConfig "fish"⟩

/-- A symlink into the directory of the other one. -/
def ghLink : PathAlias := ⟨Path.ofString "/sync/config/gh", dotConfig "gh"⟩

def ghToken : Path := Path.ofString "/sync/config/gh/hosts.yml"

def linkTo (name real : String) : ConfigDirEntry where
  name := utf8 name
  isSymlink := true
  canonical := some (Path.ofString real)
  resolvesToDir := true

/-- Symlinks `fish` and `nvim` to directories beside each other. -/
def syncListing : List (Option ConfigDirEntry) :=
  [some (linkTo "fish" "/sync/config"), none, some (linkTo "nvim" "/sync/nvim")]

theorem syncListing_listed : Listed syncListing where
  isName entry hentry := by
    rcases List.mem_cons.mp hentry with rfl | hentry
    · constructor <;> decide
    · obtain rfl := List.mem_singleton.mp hentry
      constructor <;> decide
  distinct := by decide
  absolute entry hentry real hreal := by
    rcases List.mem_cons.mp hentry with rfl | hentry
    · obtain rfl := Option.some.inj hreal
      decide
    · obtain rfl := Option.some.inj (List.mem_singleton.mp hentry ▸ hreal)
      decide

/-- The token lies behind the first symlink alone. -/
theorem orderFree_fishLink : OrderFree (configSymlinkAliases userHome (some syncListing)) ghToken :=
  ((orderFree_iff _ ghToken).2 userHome syncListing syncListing_listed rfl).mpr (by decide)

def ghConfig : PolicyConfig where
  ownedPaths := [{ path := dotConfig "gh", owner := "gh", denyNonOwner := true }]

/-- Listed one way the symlinks deny `cat` the token, listed the other way they allow it. -/
theorem listing_order_decides_ghToken :
    ¬ ∀ (aliases permuted : List PathAlias), (aliases.map (·.logicalRoot)).Nodup →
      permuted.Perm aliases →
      ∀ (config : PolicyConfig) (subject : ProcessSubject) (access : AccessKind) (target : Path),
        logicalPolicyPath target permuted = logicalPolicyPath target aliases ∧
        StaticPolicy.decide ⟨config, permuted⟩ subject target access =
          StaticPolicy.decide ⟨config, aliases⟩ subject target access := by
  intro h
  have hdecide := (h [ghLink, fishLink] [fishLink, ghLink] (by decide) (List.Perm.swap _ _ _)
    ghConfig catSubject .read ghToken).2
  exact absurd hdecide (by decide)

end ConfigGuard
