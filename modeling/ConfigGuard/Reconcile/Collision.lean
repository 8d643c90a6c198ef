import ConfigGuard.Library.Text
import ConfigGuard.Reconcile.Convergence

/-!
# Where archived directories go

The name in the archive is that of the directory, or its text with the time
behind it. The second name is taken as it comes.
-/

namespace ConfigGuard
open OsPath

/-- The name of a directory, as it is kept in the archive. -/
def archivedName (entry : Path) : Bytes := entry.fileName.getD (utf8 "unknown")

def plainTarget (entry archiveDir : Path) : Path := archiveDir.join ⟨archivedName entry⟩

/-- The text that is put in front of the time; a name that is not UTF-8 has none of its own. -/
def archivedText (entry : Path) : String := (toStr (archivedName entry)).getD "unknown"

def suffixedName (entry : Path) (timestampSuffix : Nat) : String :=
  archivedText entry ++ "-" ++ toString timestampSuffix

def suffixedTarget (entry archiveDir : Path) (timestampSuffix : Nat) : Path :=
  archiveDir.join (Path.ofString (suffixedName entry timestampSuffix))

theorem isName_archivedName (entry : Path) : Path.IsName (archivedName entry) := by
  rw [archivedName]
  cases hname : entry.fileName with
  | none => constructor <;> decide
  | some name =>
    rw [Path.fileName] at hname
    split at hname
    · rename_i last hlast
      rw [← Option.some.inj hname]
      exact Path.isComponent_of_mem (List.mem_of_getLast? hlast) _ rfl
    · cases hname

theorem archiveTarget_cases (tree : ConfigTree) (entry archiveDir : Path) (timestampSuffix : Nat) :
    archiveTarget tree entry archiveDir timestampSuffix =
      if pathExists tree (plainTarget entry archiveDir) = true then
        suffixedTarget entry archiveDir timestampSuffix
      else plainTarget entry archiveDir := by
  have hfile : (archiveDir.join ⟨archivedName entry⟩).fileName = some (archivedName entry) :=
    Path.fileName_join (isName_archivedName entry)
  rw [archivedName] at hfile
  rw [archiveTarget, suffixedTarget, suffixedName, archivedText, plainTarget, archivedName, hfile]
  cases pathExists tree (archiveDir.join ⟨entry.fileName.getD (utf8 "unknown")⟩) <;> rfl

/-- A target is free if one of the two names is. -/
theorem archiveTarget_free_iff (tree : ConfigTree) (entry archiveDir : Path)
    (timestampSuffix : Nat) :
    pathExists tree (archiveTarget tree entry archiveDir timestampSuffix) = false ↔
      pathExists tree (plainTarget entry archiveDir) = false ∨
        pathExists tree (suffixedTarget entry archiveDir timestampSuffix) = false := by
  rw [archiveTarget_cases]
  cases hplain : pathExists tree (plainTarget entry archiveDir) with
  | false =>
    rw [if_neg (by decide), hplain]
    exact iff_of_true rfl (.inl rfl)
  | true =>
    rw [if_pos rfl]
    constructor
    · exact .inr
    · rintro (h | h)
      · cases h
      · exact h

theorem suffixedName_inj {entry other : Path} {m n : Nat}
    (h : suffixedName entry m = suffixedName other n) :
    archivedText entry = archivedText other ∧ m = n := by
  have hdash : ∀ n, '-' ∉ Nat.toDigits 10 n := by
    intro n hmem
    exact absurd (Text.isDigit_toDigits hmem) (by decide)
  have hlist : ∀ (path : Path) (n : Nat), (suffixedName path n).toList =
      (archivedText path).toList ++ '-' :: Nat.toDigits 10 n := by
    intro path n
    have hdigits : (toString n).toList = Nat.toDigits 10 n := String.toList_ofList
    rw [suffixedName, String.toList_append, String.toList_append, List.append_assoc, hdigits]
    rfl
  have htext := congrArg String.toList h
  rw [hlist, hlist] at htext
  obtain ⟨hsame, hdigits⟩ := Text.append_cons_inj (hdash m) (hdash n) htext
  exact ⟨String.toList_inj.mp hsame, Text.toDigits_injective hdigits⟩

/-- A directory of the configuration home that would be archived. -/
structure ArchiveCandidate (options : ReconcileOptions) (tree : ConfigTree) (entry : Path) :
    Prop where
  listed : ∃ name, Path.IsName name ∧ entry = options.configHome.join ⟨name⟩
  notArchive : isArchiveDir entry options.archiveDir = false
  isDir : tree.isDir entry.components = true
  uncovered : policyCoversPath options.policyConfig entry = false
  noBinary : findAssociatedBinary tree entry options.binaryDirs = none

/-- Two directories that get one target: one is called what the other one gets
with its suffix, or both get the same suffix on the same text. -/
inductive Collide (options : ReconcileOptions) (clock : Path → Nat) (tree : ConfigTree)
    (entry other : Path) : Prop
  | suffixLike (hfree : pathExists tree (plainTarget entry options.archiveDir) = false)
    (htaken : pathExists tree (plainTarget other options.archiveDir) = true)
    (hname : archivedName entry = utf8 (suffixedName other (clock other)))
  | sameText (htaken : pathExists tree (plainTarget entry options.archiveDir) = true)
    (htaken' : pathExists tree (plainTarget other options.archiveDir) = true)
    (htext : archivedText entry = archivedText other) (hclock : clock entry = clock other)

/-- In a dry run an entry leaves the tree as it is. -/
theorem planEntry_dry {options : ReconcileOptions} (hdry : options.apply = false) (entry : Path)
    (timestampSuffix : Nat) (tree : ConfigTree) :
    ∃ action, planEntry entry options timestampSuffix tree = (tree, .ok action) ∧
      action.target = if policyCoversPath options.policyConfig entry = false ∧
          findAssociatedBinary tree entry options.binaryDirs = none then
        some (archiveTarget tree entry options.archiveDir timestampSuffix) else none := by
  rw [planEntry]
  cases hcovers : policyCoversPath options.policyConfig entry with
  | true => exact ⟨keepConfiguredAction entry, rfl, rfl⟩
  | false =>
    rw [if_neg (by decide)]
    cases hbinary : findAssociatedBinary tree entry options.binaryDirs with
    | some found =>
      dsimp only
      rw [associationAction, hdry, if_neg (by decide)]
      exact ⟨_, rfl, rfl⟩
    | none =>
      dsimp only
      rw [archiveAction, hdry, if_neg (by decide)]
      exact ⟨_, rfl, rfl⟩

/-- The entries that would be archived. -/
def archiveCandidates (options : ReconcileOptions) (tree : ConfigTree) (entries : List Path) :
    List Path :=
  entries.filter fun entry =>
    !isArchiveDir entry options.archiveDir && tree.isDir entry.components &&
      !policyCoversPath options.policyConfig entry &&
        (findAssociatedBinary tree entry options.binaryDirs).isNone

/-- The targets of a dry run are those of its candidates, in the tree as it is. -/
theorem planEntries_dry {options : ReconcileOptions} (hdry : options.apply = false)
    {clock : Path → Nat} {entries : List Path} {tree tree' : ConfigTree}
    {actions : List ReconcileAction}
    (h : planEntries options clock entries tree = (tree', .ok actions)) :
    actions.filterMap (·.target) =
      (archiveCandidates options tree entries).map fun entry =>
        archiveTarget tree entry options.archiveDir (clock entry) := by
  induction entries generalizing actions with
  | nil =>
    rw [← Except.ok.inj (Prod.mk.inj h).2]
    rfl
  | cons entry entries ih =>
    obtain ⟨hskip, hrest⟩ | ⟨harchive, hdir, tree₁, action, rest, hplan, hrest, rfl⟩ :=
      planEntries_cons_ok h
    · have hfilter : archiveCandidates options tree (entry :: entries) =
          archiveCandidates options tree entries :=
        List.filter_cons_of_neg (by rcases hskip with hskip | hskip <;> simp [hskip])
      rw [hfilter, ih hrest]
    · obtain ⟨planned, hplanned, htarget⟩ := planEntry_dry hdry entry (clock entry) tree
      rw [hplan] at hplanned
      obtain ⟨rfl, haction⟩ := Prod.mk.inj hplanned
      rw [← Except.ok.inj haction] at htarget
      split at htarget
      · rename_i hcandidate
        have hfilter : archiveCandidates options tree₁ (entry :: entries) =
            entry :: archiveCandidates options tree₁ entries :=
          List.filter_cons_of_pos (by simp [harchive, hdir, hcandidate.1, hcandidate.2])
        rw [List.filterMap_cons_some htarget, ih hrest, hfilter, List.map_cons]
      · rename_i hcandidate
        have hfilter : archiveCandidates options tree₁ (entry :: entries) =
            archiveCandidates options tree₁ entries := by
          refine List.filter_cons_of_neg ?_
          simp only [Bool.and_eq_true, Bool.not_eq_true', Option.isNone_iff_eq_none]
          exact fun h => hcandidate ⟨h.1.2, h.2⟩
        rw [List.filterMap_cons_none htarget, ih hrest, hfilter]

/-- The name that an entry gets in the archive. -/
def targetName (tree : ConfigTree) (entry archiveDir : Path) (timestampSuffix : Nat) : Bytes :=
  if pathExists tree (plainTarget entry archiveDir) = true then
    utf8 (suffixedName entry timestampSuffix)
  else archivedName entry

theorem noSlash_archivedText (entry : Path) : Path.slash ∉ utf8 (archivedText entry) := by
  rw [archivedText]
  cases htext : toStr (archivedName entry) with
  | none => decide
  | some text =>
    rw [Option.getD_some, utf8_of_toStr htext]
    exact (isName_archivedName entry).noSlash

theorem components_archiveTarget (tree : ConfigTree) (entry archiveDir : Path)
    (timestampSuffix : Nat) :
    (archiveTarget tree entry archiveDir timestampSuffix).components =
      archiveDir.components ++ [.normal (targetName tree entry archiveDir timestampSuffix)] := by
  rw [archiveTarget_cases, targetName]
  split
  · exact Path.components_join (isName_with_suffix (noSlash_archivedText entry) timestampSuffix)
  · exact Path.components_join (isName_archivedName entry)

theorem archivedName_inj {home : Path} {a b : Path}
    (ha : ∃ name, Path.IsName name ∧ a = home.join ⟨name⟩)
    (hb : ∃ name, Path.IsName name ∧ b = home.join ⟨name⟩)
    (h : archivedName a = archivedName b) : a = b := by
  obtain ⟨name, hname, rfl⟩ := ha
  obtain ⟨name', hname', rfl⟩ := hb
  rw [archivedName, archivedName, Path.fileName_join hname, Path.fileName_join hname'] at h
  rw [show name = name' from h]

section
variable {options : ReconcileOptions} {clock : Path → Nat} {tree : ConfigTree} {a b : Path}

/-- The second of two that collide is in the archive already. -/
theorem Collide.taken (h : Collide options clock tree a b) :
    pathExists tree (plainTarget b options.archiveDir) = true := by
  cases h with
  | suffixLike _ htaken _ => exact htaken
  | sameText _ htaken _ _ => exact htaken

theorem Collide.name_of_free (h : Collide options clock tree a b)
    (hfree : pathExists tree (plainTarget a options.archiveDir) = false) :
    archivedName a = utf8 (suffixedName b (clock b)) := by
  cases h with
  | suffixLike _ _ hname => exact hname
  | sameText htaken _ _ _ => exact absurd (hfree.symm.trans htaken) (by decide)

theorem Collide.suffixed_of_taken (h : Collide options clock tree a b)
    (htaken : pathExists tree (plainTarget a options.archiveDir) = true) :
    suffixedName a (clock a) = suffixedName b (clock b) := by
  cases h with
  | suffixLike hfree _ _ => exact absurd (hfree.symm.trans htaken) (by decide)
  | sameText _ _ htext hclock => rw [suffixedName, suffixedName, htext, hclock]

theorem not_collide_of_free (hfree : pathExists tree (plainTarget b options.archiveDir) = false) :
    ¬ Collide options clock tree a b :=
  fun h => absurd (hfree.symm.trans h.taken) (by decide)

/-- Two candidates have one target exactly if they collide. -/
theorem targetName_eq_iff (ha : ArchiveCandidate options tree a)
    (hb : ArchiveCandidate options tree b) (hne : a ≠ b) :
    targetName tree a options.archiveDir (clock a) =
        targetName tree b options.archiveDir (clock b) ↔
      Collide options clock tree a b ∨ Collide options clock tree b a := by
  rw [targetName, targetName]
  cases hA : pathExists tree (plainTarget a options.archiveDir) with
  | false =>
    rw [if_neg (by decide), or_iff_left (not_collide_of_free hA)]
    cases hB : pathExists tree (plainTarget b options.archiveDir) with
    | false =>
      rw [if_neg (by decide)]
      exact iff_of_false (fun h => hne (archivedName_inj ha.listed hb.listed h))
        (not_collide_of_free hB)
    | true =>
      rw [if_pos rfl]
      exact ⟨.suffixLike hA hB, fun h => h.name_of_free hA⟩
  | true =>
    rw [if_pos rfl]
    cases hB : pathExists tree (plainTarget b options.archiveDir) with
    | false =>
      rw [if_neg (by decide), or_iff_right (not_collide_of_free hB)]
      exact ⟨fun h => .suffixLike hB hA h.symm, fun h => (h.name_of_free hB).symm⟩
    | true =>
      rw [if_pos rfl]
      constructor
      · intro h
        obtain ⟨htext, hclock⟩ := suffixedName_inj (utf8_inj h)
        exact .inl (.sameText hA hB htext hclock)
      · rintro (h | h)
        · rw [h.suffixed_of_taken hA]
        · rw [h.suffixed_of_taken hB]

end

theorem mem_archiveCandidates {options : ReconcileOptions} {tree : ConfigTree}
    {entries : List Path} (h : configHomeEntries options.configHome tree = .ok entries)
    {entry : Path} :
    entry ∈ archiveCandidates options tree entries ↔ ArchiveCandidate options tree entry := by
  rw [archiveCandidates, List.mem_filter, mem_configHomeEntries h]
  simp only [Bool.and_eq_true, Bool.not_eq_true', Option.isNone_iff_eq_none]
  constructor
  · rintro ⟨⟨name, hname, hentry, -⟩, ⟨⟨harchive, hdir⟩, hcovers⟩, hbinary⟩
    exact ⟨⟨name, hname, hentry⟩, harchive, hdir, hcovers, hbinary⟩
  · rintro ⟨⟨name, hname, hentry⟩, harchive, hdir, hcovers, hbinary⟩
    refine ⟨⟨name, hname, hentry, ?_⟩, ⟨⟨harchive, hdir⟩, hcovers⟩, hbinary⟩
    rw [FileTree.isDir_iff.mp hdir, Option.isSome_some]

/-- Archiving overwrites nothing exactly if one of the two names is free, and a
dry run gives two entries one target exactly if two of its candidates collide. -/
theorem archive_collision_iff (tree : ConfigTree) :
    (∀ (entry archiveDir : Path) (timestampSuffix : Nat),
      pathExists tree (archiveTarget tree entry archiveDir timestampSuffix) = false ↔
        pathExists tree (plainTarget entry archiveDir) = false ∨
          pathExists tree (suffixedTarget entry archiveDir timestampSuffix) = false) ∧
    ∀ (options : ReconcileOptions) (clock : Path → Nat) (tree' : ConfigTree)
      (plan : ReconcilePlan), options.apply = false →
      planReconcile options clock tree = (tree', .ok plan) →
      (TargetsDiffer plan ↔ ∀ a b, ArchiveCandidate options tree a →
        ArchiveCandidate options tree b → a ≠ b → ¬ Collide options clock tree a b) := by
  refine ⟨archiveTarget_free_iff tree, ?_⟩
  intro options clock tree' plan hdry hplan
  obtain ⟨entries, hentries, hactions⟩ := planReconcile_ok hplan
  have hnodup : (archiveCandidates options tree entries).Nodup :=
    (configHomeEntries_nodup hentries).filter _
  have htargets : (plan.actions.filterMap fun action => action.target.map (·.components)) =
      (archiveCandidates options tree entries).map fun entry =>
        (archiveTarget tree entry options.archiveDir (clock entry)).components := by
    rw [← List.map_filterMap, planEntries_dry hdry hactions, List.map_map]
    rfl
  rw [TargetsDiffer, htargets, List.nodup_map_iff_inj_on hnodup]
  have hsame : ∀ a b, (archiveTarget tree a options.archiveDir (clock a)).components =
        (archiveTarget tree b options.archiveDir (clock b)).components ↔
      targetName tree a options.archiveDir (clock a) =
        targetName tree b options.archiveDir (clock b) := by
    intro a b
    rw [components_archiveTarget, components_archiveTarget, List.append_cancel_left_eq,
      List.singleton_inj, Component.normal.injEq]
  constructor
  · intro hinj a b ha hb hne hcollide
    refine hne (hinj a ((mem_archiveCandidates hentries).mpr ha) b
      ((mem_archiveCandidates hentries).mpr hb) ?_)
    exact (hsame a b).mpr ((targetName_eq_iff ha hb hne).mpr (.inl hcollide))
  · intro hfree a ha b hb htarget
    by_contra hne
    rw [mem_archiveCandidates hentries] at ha hb
    rcases (targetName_eq_iff ha hb hne).mp ((hsame a b).mp htarget) with hcollide | hcollide
    · exact hfree a b ha hb hne hcollide
    · exact hfree b a hb ha (Ne.symm hne) hcollide

def noBinaries : ReconcileOptions := .new (Path.ofString "/c") {} []

/-- Two directories, and what the archive holds of them already. -/
def twoOld (first second : String) (archived : List String) : ConfigTree :=
  treeOf ([(Path.ofString "/c", .dir), (Path.ofString "/c/archive", .dir),
    ((Path.ofString "/c").join (Path.ofString first), .dir),
    ((Path.ofString "/c").join (Path.ofString second), .dir)] ++
    archived.map fun name => ((Path.ofString "/c/archive").join (Path.ofString name), .dir))

def archivePlan (named : List (String × String)) : ReconcilePlan where
  actions := named.map fun (name, target) =>
    { kind := .archiveCandidate, source := (Path.ofString "/c").join (Path.ofString name)
      target := some ((Path.ofString "/c/archive").join (Path.ofString target))
      owner := none, binary := none, reason := "associated binary not found" }

/-- One of two is in the archive already, and the other one is called differently. -/
theorem archive_apart :
    pathExists (twoOld "app" "old" ["old"])
        (archiveTarget (twoOld "app" "old" ["old"]) (Path.ofString "/c/old")
          (Path.ofString "/c/archive") 7) = false ∧
      TargetsDiffer (archivePlan [("app", "app"), ("old", "old-0")]) ∧
      ∀ a b, ArchiveCandidate noBinaries (twoOld "app" "old" ["old"]) a →
        ArchiveCandidate noBinaries (twoOld "app" "old" ["old"]) b → a ≠ b →
          ¬ Collide noBinaries (fun _ => 0) (twoOld "app" "old" ["old"]) a b := by
  have hdiffer : TargetsDiffer (archivePlan [("app", "app"), ("old", "old-0")]) := by
    rw [TargetsDiffer]
    decide +kernel
  obtain ⟨hfree, hdry⟩ := archive_collision_iff (twoOld "app" "old" ["old"])
  refine ⟨(hfree _ _ _).mpr (.inr (by decide +kernel)), hdiffer, ?_⟩
  exact (hdry noBinaries (fun _ => 0) _ _ rfl (planReconcile_eq (by decide +kernel))).mp hdiffer

/-- Both names can be in the archive, and one directory can be called what
another one gets. -/
theorem not_archive_apart :
    (¬ ∀ (tree : ConfigTree) (entry archiveDir : Path) (timestampSuffix : Nat),
      pathExists tree (archiveTarget tree entry archiveDir timestampSuffix) = false) ∧
    ¬ ∀ (options : ReconcileOptions) (clock : Path → Nat) (tree tree' : ConfigTree)
      (plan : ReconcilePlan), options.apply = false →
      planReconcile options clock tree = (tree', .ok plan) → TargetsDiffer plan := by
  constructor
  · intro h
    have hfree := h (twoOld "app" "old" ["old", "old-0"]) (Path.ofString "/c/old")
      (Path.ofString "/c/archive") 0
    revert hfree
    decide +kernel
  · intro h
    have hdiffer := h noBinaries (fun _ => 0) (twoOld "old" "old-0" ["old"]) _
      (archivePlan [("old", "old-0"), ("old-0", "old-0")]) rfl (planReconcile_eq (by decide +kernel))
    rw [TargetsDiffer] at hdiffer
    revert hdiffer
    decide +kernel

end ConfigGuard
