import ConfigGuard.Fanotify.Event
import ConfigGuard.Learning.AliasRoots

/-!
# The scope of a run

`main.rs`: the paths of the command line are canonicalized, and the targets of
the symlinks of `~/.config` are put to them.
-/

namespace ConfigGuard
open OsPath

inductive ScopeError where
  | readingCurrentDirectory
  | canonicalizing (kind : String) (path : Path)
  deriving DecidableEq, Repr

def ScopeError.message : ScopeError → String
  | readingCurrentDirectory => "reading current directory"
  | canonicalizing kind path => s!"canonicalizing {kind} path {path.display}"

/-- `canonicalize` is what the file system resolves an absolute path to. -/
def canonicalizeScopePathsIn (canonicalize : Path → Except String Path) (currentDir : Path)
    (kind : String) : List Path → Except ScopeError (List Path)
  | [] => .ok []
  | path :: paths =>
    let absolutePath := if path.isAbsolute then path else currentDir.join path
    match canonicalize absolutePath with
    | .error _ => .error (.canonicalizing kind absolutePath)
    | .ok canonical =>
      (canonicalizeScopePathsIn canonicalize currentDir kind paths).map (canonical :: ·)

def canonicalizeScopePaths (canonicalize : Path → Except String Path) (currentDir : Option Path)
    (kind : String) (paths : List Path) : Except ScopeError (List Path) :=
  match currentDir with
  | none => .error .readingCurrentDirectory
  | some currentDir => canonicalizeScopePathsIn canonicalize currentDir kind paths

/-- The home directory: that of a watched `.config`, or that of the variable `HOME`. -/
def auditHome (paths : List Path) (home : Option Path) : Path :=
  match paths.findSome? fun path =>
    path.parent.filter fun _ => path.fileName = some (utf8 ".config") with
  | some home => home
  | none => home.getD (Path.ofString "/home/osso")

/-- The loop over the aliases; `seen_paths` has the elements of `paths`. -/
def expandWith (logicalRoots : List Path) : List PathAlias → List Path → List Path
  | [], paths => paths
  | link :: aliases, paths =>
    let aliasIsWatched := logicalRoots.any fun root => link.logicalRoot.startsWith root
    if aliasIsWatched && !paths.any (fun path => path.same link.realRoot) then
      expandWith logicalRoots aliases (paths ++ [link.realRoot])
    else expandWith logicalRoots aliases paths

def expandScopeWithAliases (paths : List Path) (aliases : List PathAlias) : List Path :=
  expandWith paths aliases paths

theorem canonicalizeScopePathsIn_ok {canonicalize : Path → Except String Path} {currentDir : Path}
    {kind : String} {paths canonical : List Path}
    (h : canonicalizeScopePathsIn canonicalize currentDir kind paths = .ok canonical) :
    ∀ path ∈ canonical, ∃ absolute, canonicalize absolute = .ok path := by
  induction paths generalizing canonical with
  | nil =>
    obtain rfl := Except.ok.inj h
    exact fun _ hpath => absurd hpath List.not_mem_nil
  | cons first paths ih =>
    rw [canonicalizeScopePathsIn] at h
    split at h
    · cases h
    · rename_i resolved hresolved
      cases hrest : canonicalizeScopePathsIn canonicalize currentDir kind paths with
      | error error =>
        rw [hrest] at h
        cases h
      | ok rest =>
        rw [hrest] at h
        obtain rfl := Except.ok.inj h
        intro path hpath
        rcases List.mem_cons.mp hpath with rfl | hpath
        · exact ⟨_, hresolved⟩
        · exact ih hrest path hpath

section

variable {logicalRoots paths excludedPaths : List Path} {aliases : List PathAlias}
  {target : Path}

/-- A symlink that is at or below a root. -/
def Covered (logicalRoots : List Path) (link : PathAlias) : Prop :=
  ∃ root ∈ logicalRoots, link.logicalRoot.startsWith root = true

theorem startsWith_congr {a b : Path} (h : a.same b = true) :
    target.startsWith a = target.startsWith b := by
  rw [Path.startsWith, Path.startsWith, beq_iff_eq.mp h]

/-- A path is below the expanded scope if it was below the paths, or is behind a
symlink that is at or below one of them. -/
theorem startsWith_expandWith :
    (∃ root ∈ expandWith logicalRoots aliases paths, target.startsWith root = true) ↔
      (∃ root ∈ paths, target.startsWith root = true) ∨
        ∃ link ∈ aliases, Covered logicalRoots link ∧ target.startsWith link.realRoot = true := by
  induction aliases generalizing paths with
  | nil => simp [expandWith]
  | cons link aliases ih =>
    rw [expandWith]
    have hcovered : (logicalRoots.any fun root => link.logicalRoot.startsWith root) = true ↔
        Covered logicalRoots link := by
      rw [List.any_eq_true]
      rfl
    simp only [List.mem_cons, or_and_right, exists_or, exists_eq_left]
    by_cases hwatched : Covered logicalRoots link
    · cases hseen : paths.any (fun path => path.same link.realRoot) with
      | true =>
        rw [Bool.not_true, Bool.and_false, if_neg Bool.false_ne_true, ih]
        obtain ⟨path, hpath, hsame⟩ := List.any_eq_true.mp hseen
        -- the real root is among the paths already
        have hthere : Covered logicalRoots link ∧ target.startsWith link.realRoot = true →
            ∃ root ∈ paths, target.startsWith root = true := fun hbelow =>
          ⟨path, hpath, (startsWith_congr hsame).trans hbelow.2⟩
        rw [← or_assoc, or_iff_left_of_imp hthere]
      | false =>
        rw [hcovered.mpr hwatched, Bool.not_false, Bool.and_true, if_pos rfl, ih]
        simp only [List.mem_append, List.mem_singleton, or_and_right, exists_or, exists_eq_left,
          hwatched, true_and, or_assoc]
    · rw [Bool.eq_false_iff.mpr (mt hcovered.mp hwatched), Bool.false_and,
        if_neg Bool.false_ne_true, ih]
      simp only [hwatched, false_and, false_or]

theorem isWatchedPath_expand :
    isWatchedPath target (expandScopeWithAliases paths aliases) excludedPaths = true ↔
      ((∃ root ∈ paths, target.startsWith root = true) ∨
        ∃ link ∈ aliases, Covered paths link ∧ target.startsWith link.realRoot = true) ∧
        isExcluded target excludedPaths = false := by
  rw [isWatchedPath, Bool.and_eq_true, Bool.not_eq_true', List.any_eq_true,
    expandScopeWithAliases, startsWith_expandWith]

/-- Whatever the policy judges at or below a root passes the filter: the root is above
the symlink the path is behind, as it is not behind that symlink itself. -/
theorem isWatchedPath_of_logical {root : Path} (hroot : root ∈ paths)
    (habsolute : ∀ link ∈ aliases, link.realRoot.isAbsolute = true)
    (hbehind : ∀ link ∈ aliases, root.startsWith link.logicalRoot = false)
    (hlogical : (logicalPolicyPath target aliases).startsWith root = true)
    (hexcluded : isExcluded target excludedPaths = false) :
    isWatchedPath target (expandScopeWithAliases paths aliases) excludedPaths = true := by
  refine isWatchedPath_expand.mpr ⟨?_, hexcluded⟩
  cases hfirst : firstOver target aliases with
  | none =>
    rw [logicalPolicyPath_of_none hfirst] at hlogical
    exact .inl ⟨root, hroot, hlogical⟩
  | some link =>
    right
    have hlink := List.mem_of_find?_eq_some hfirst
    obtain ⟨relative, hstrip, hpath⟩ := logicalPolicyPath_of_firstOver hfirst
    have hrelative := Path.stripPrefix_relative
      (components_ne_nil_of_isAbsolute (habsolute link hlink)) hstrip
    rw [hpath, Path.startsWith_iff, Path.components_join_relative hrelative.1] at hlogical
    have hover : root.components <+: link.logicalRoot.components := by
      rcases List.prefix_or_prefix_of_prefix hlogical (List.prefix_append _ _) with h | h
      · exact h
      · have hbelow := Path.startsWith_iff.mpr h
        rw [hbehind link hlink] at hbelow
        cases hbelow
    have hbelow : target.startsWith link.realRoot = true := by
      rw [← Path.stripPrefix_isSome, hstrip]
      rfl
    exact ⟨link, hlink, ⟨root, hroot, Path.startsWith_iff.mpr hover⟩, hbelow⟩

end

end ConfigGuard
