import ConfigGuard.Reconcile.Association
import ConfigGuard.Reconcile.Convergence

/-!
# A run that may not write the policy

Without a configuration path the first directory that is to be associated ends
the run. What was archived before it stays archived.
-/

namespace ConfigGuard
open OsPath

/-- What the turn of an entry leaves if no rule can be written, with an error or without. -/
inductive TurnLeft (options : ReconcileOptions) (entry : Path) (tree : ConfigTree) :
    ConfigTree → Prop
  | same : TurnLeft options entry tree tree
  | made {timestampSuffix : Nat} {dir : Place Path.IsComponent} {made : ConfigTree}
    (huncovered : policyCoversPath options.policyConfig entry = false)
    (hdir : parent (archiveTarget tree entry options.archiveDir timestampSuffix) = some dir)
    (hmade : tree.createDirAll dir = some made) : TurnLeft options entry tree made
  | moved {timestampSuffix : Nat} {dir : Place Path.IsComponent} {made tree' : ConfigTree}
    (huncovered : policyCoversPath options.policyConfig entry = false)
    (hdir : parent (archiveTarget tree entry options.archiveDir timestampSuffix) = some dir)
    (hmade : tree.createDirAll dir = some made)
    (hmoved : made.rename (placeOf entry)
      (placeOf (archiveTarget tree entry options.archiveDir timestampSuffix)) = some tree') :
    TurnLeft options entry tree tree'

/-- The association is refused, and nothing is done. -/
theorem associationAction_refused {entry : Path} {options : ReconcileOptions}
    (happly : options.apply = true) (hnone : options.configPath = none) (found : BinaryMatch)
    (tree : ConfigTree) :
    associationAction entry options found tree = (tree, .error .missingConfigPath) := by
  rw [associationAction, if_pos happly, hnone]
  rfl

theorem planEntry_left {options : ReconcileOptions} (happly : options.apply = true)
    (hnone : options.configPath = none) (entry : Path) (timestampSuffix : Nat)
    (tree : ConfigTree) :
    TurnLeft options entry tree (planEntry entry options timestampSuffix tree).1 := by
  rw [planEntry]
  cases huncovered : policyCoversPath options.policyConfig entry with
  | true => exact .same
  | false =>
    rw [if_neg (by decide)]
    cases hbinary : findAssociatedBinary tree entry options.binaryDirs with
    | some found =>
      dsimp only
      rw [associationAction_refused happly hnone]
      exact .same
    | none =>
      dsimp only
      rw [archiveAction, if_pos happly, moveToArchive]
      cases hdir : parent (archiveTarget tree entry options.archiveDir timestampSuffix) with
      | none => exact .same
      | some dir =>
        dsimp only
        cases hmade : tree.createDirAll dir with
        | none => exact .same
        | some made =>
          dsimp only
          cases hmoved : made.rename (placeOf entry)
              (placeOf (archiveTarget tree entry options.archiveDir timestampSuffix)) with
          | none => exact .made huncovered hdir hmade
          | some moved => exact .moved huncovered hdir hmade hmoved

section

variable {options : ReconcileOptions} {entry : Path} {tree tree' : ConfigTree}
  (hleft : TurnLeft options entry tree tree') (hentry : IsEntry options entry)

include hleft hentry

/-- A turn archives the entry, or makes nothing but the archive. -/
theorem TurnLeft.cases :
    ∃ made : ConfigTree, (∀ place, made.node place = tree.node place ∨
        tree.node place = none ∧ made.node place = some .dir ∧
          place <+: options.archiveDir.components) ∧
      (tree' = made ∨ policyCoversPath options.policyConfig entry = false ∧
        ∃ name, Path.IsName name ∧ FileTree.Renamed made tree' entry.components
          (options.archiveDir.join ⟨name⟩).components) := by
  obtain ⟨name, hname, harchive, rfl⟩ := hentry
  cases hleft with
  | same => exact ⟨tree, fun place => .inl rfl, .inl rfl⟩
  | made huncovered hdir hmade =>
    refine ⟨tree', ?_, .inl rfl⟩
    intro place
    obtain ⟨name', hname', htarget⟩ := archiveTarget_eq hname tree options.archiveDir _
    rw [htarget] at hdir
    rw [← parent_join hname' hdir]
    exact FileTree.createDirs_node hmade place
  | @moved _ dir made _ huncovered hdir hmade hmoved =>
    obtain ⟨name', hname', htarget⟩ := archiveTarget_eq hname tree options.archiveDir _
    rw [htarget] at hdir hmoved
    refine ⟨made, ?_, .inr ⟨huncovered, name', hname', ?_⟩⟩
    · intro place
      rw [← parent_join hname' hdir]
      exact FileTree.createDirs_node hmade place
    · apply FileTree.rename_eq_some ?_ hmoved
      intro heq
      have hlength := congrArg List.length heq
      simp only [placeOf, Path.components_join hname, Path.components_join hname',
        components_archiveDir, List.length_append, List.length_singleton] at hlength
      omega

/-- What is apart from the archive and not in the entry stays as it is. -/
theorem TurnLeft.node {place : List Component}
    (hspared : policyCoversPath options.policyConfig entry = false → ¬ entry.components <+: place)
    (habove : ¬ place <+: options.archiveDir.components)
    (hbelow : ¬ options.archiveDir.components <+: place) : tree'.node place = tree.node place := by
  obtain ⟨made, hmade, hmoved⟩ := hleft.cases hentry
  have hsame : made.node place = tree.node place :=
    (hmade place).resolve_right fun h => habove h.2.2
  rcases hmoved with rfl | ⟨huncovered, name, hname, hrenamed⟩
  · exact hsame
  · rw [hrenamed.node_elsewhere (hspared huncovered) ?_, hsame]
    intro hpre
    rw [Path.components_join hname] at hpre
    exact hbelow ((List.prefix_append _ _).trans hpre)

/-- What is there and not in the entry is there afterwards. -/
theorem TurnLeft.isSome (hdir : tree.isDir entry.components = true) {place : List Component}
    (hspared : policyCoversPath options.policyConfig entry = false → ¬ entry.components <+: place)
    (hthere : (tree.node place).isSome = true) : (tree'.node place).isSome = true := by
  obtain ⟨made, hmade, hmoved⟩ := hleft.cases hentry
  have hkept : ∀ place, (tree.node place).isSome = true → made.node place = tree.node place := by
    intro place hthere
    refine (hmade place).resolve_right fun h => ?_
    rw [h.1] at hthere
    cases hthere
  have hsame := hkept place hthere
  rcases hmoved with rfl | ⟨huncovered, name, hname, hrenamed⟩
  · rwa [hsame]
  · by_cases htarget : (options.archiveDir.join ⟨name⟩).components <+: place
    · -- nothing was below the target, so the place is the target
      have hkey : place ∈ made.nodes.keys := by
        rw [← hsame] at hthere
        exact AList.mem_keys.mp (AList.lookup_isSome.mp hthere)
      by_cases heq : place = (options.archiveDir.join ⟨name⟩).components
      · have hsource : made.node entry.components = some .dir := by
          rw [FileTree.isDir_iff] at hdir
          rw [hkept _ (by rw [hdir, Option.isSome_some]), hdir]
        have hnode := hrenamed.node_target []
        rw [List.append_nil, List.append_nil, hsource, ← heq] at hnode
        rw [hnode, Option.isSome_some]
      · exact absurd htarget (FileTree.not_prefix_of_hasBelow hrenamed.empty hkey heq)
    · rw [hrenamed.node_elsewhere (hspared huncovered) htarget]
      rwa [hsame]

end

/-- What holds between the trees of every turn, and can be put together, holds
between the first tree and the last. -/
theorem planEntries_left {options : ReconcileOptions} (happly : options.apply = true)
    (hnone : options.configPath = none) (clock : Path → Nat)
    {R : ConfigTree → ConfigTree → Prop} (hrefl : ∀ tree, R tree tree)
    (htrans : ∀ {a b c}, R a b → R b c → R a c) {entries : List Path}
    (hturn : ∀ entry ∈ entries, isArchiveDir entry options.archiveDir = false →
      ∀ tree tree', tree.isDir entry.components = true → TurnLeft options entry tree tree' →
        R tree tree') (tree : ConfigTree) :
    R tree (planEntries options clock entries tree).1 := by
  induction entries generalizing tree with
  | nil => exact hrefl tree
  | cons entry entries ih =>
    have ih := ih fun e he => hturn e (List.mem_cons_of_mem _ he)
    rw [planEntries]
    split
    · exact ih tree
    · rename_i harchive
      split
      · exact ih tree
      · rename_i hdir
        rw [Bool.not_eq_true] at harchive
        rw [Bool.not_eq_true', Bool.not_eq_false] at hdir
        have hfirst := hturn entry List.mem_cons_self harchive tree _ hdir
          (planEntry_left happly hnone entry (clock entry) tree)
        split
        · rename_i tree₁ error hplan
          rwa [hplan] at hfirst
        · rename_i tree₁ action hplan
          rw [hplan] at hfirst
          exact htrans hfirst (ih tree₁)

section

variable {options : ReconcileOptions} (happly : options.apply = true)
  (hnone : options.configPath = none) (clock : Path → Nat) {entries : List Path}
  (hnames : ∀ entry ∈ entries,
    ∃ name, Path.IsName name ∧ entry = options.configHome.join ⟨name⟩)

include happly hnone hnames

/-- An entry that has no turn, or is covered, stays as it is. -/
theorem planEntries_spares {other : Path} (hother : IsEntry options other)
    (hspared : other ∉ entries ∨ policyCoversPath options.policyConfig other = true)
    (below : List Component) (tree : ConfigTree) :
    (planEntries options clock entries tree).1.node (other.components ++ below) =
      tree.node (other.components ++ below) := by
  refine planEntries_left happly hnone clock
    (R := fun tree tree' => tree'.node (other.components ++ below) =
      tree.node (other.components ++ below))
    (fun _ => rfl) (fun h h' => h'.trans h) ?_ tree
  intro entry hmem harchive tree tree' hdir hleft
  have hentry := isEntry_of_not_archive (hnames entry hmem) harchive
  refine hleft.node hentry ?_ ?_ ?_
  · obtain ⟨name, hname, -, hentryEq⟩ := hentry
    obtain ⟨name', hname', -, hotherEq⟩ := hother
    intro huncovered hpre
    have hsame : entry = other := by
      rw [hentryEq, hotherEq, Path.components_join hname, Path.components_join hname',
        List.append_assoc] at hpre
      rw [hentryEq, hotherEq, sibling_eq_of_below hpre]
    rw [hsame] at hmem huncovered
    rcases hspared with hnew | hcovers
    · exact hnew hmem
    · rw [hcovers] at huncovered
      cases huncovered
  · exact fun hpre => hother.not_prefix hpre (List.prefix_append _ _)
  · obtain ⟨name', hname', hne, rfl⟩ := hother
    intro hpre
    rw [components_archiveDir, Path.components_join hname', List.append_assoc] at hpre
    exact hne (sibling_eq_of_below hpre).symm

/-- What is in no uncovered entry is there at the end. -/
theorem planEntries_isSome {place : List Component}
    (hspared : ∀ entry ∈ entries, isArchiveDir entry options.archiveDir = false →
      policyCoversPath options.policyConfig entry = false → ¬ entry.components <+: place)
    {tree : ConfigTree} (hthere : (tree.node place).isSome = true) :
    ((planEntries options clock entries tree).1.node place).isSome = true := by
  refine planEntries_left happly hnone clock
    (R := fun tree tree' => (tree.node place).isSome = true → (tree'.node place).isSome = true)
    (fun _ h => h) (fun h h' hthere => h' (h hthere)) ?_ tree hthere
  intro entry hmem harchive tree tree' hdir hleft
  exact hleft.isSome (isEntry_of_not_archive (hnames entry hmem) harchive) hdir
    (hspared entry hmem harchive)

end

/-- A binary with one of the names that are looked for. -/
def IsBinaryOf (tree : ConfigTree) (binaryDirs : List Path) (entry binary : Path) : Prop :=
  ∃ owners, ownerNamesForEntry entry = some owners ∧ ∃ owner ∈ owners, ∃ dir ∈ binaryDirs,
    binary = dir.join (Path.ofString owner) ∧ pathExists tree binary = true

theorem findAssociatedBinary_isSome_iff {tree : ConfigTree} {entry : Path}
    {binaryDirs : List Path} :
    (findAssociatedBinary tree entry binaryDirs).isSome = true ↔
      ∃ binary, IsBinaryOf tree binaryDirs entry binary := by
  rw [findAssociatedBinary]
  cases howners : ownerNamesForEntry entry with
  | none =>
    refine iff_of_false Bool.false_ne_true ?_
    rintro ⟨binary, owners, hsome, -⟩
    rw [howners] at hsome
    cases hsome
  | some owners =>
    dsimp only
    rw [List.findSome?_isSome_iff]
    constructor
    · rintro ⟨owner, howner, hbinary⟩
      obtain ⟨dir, hdir, hexists⟩ := binaryFor_isSome.mp hbinary
      exact ⟨_, owners, howners, owner, howner, dir, hdir, rfl, hexists⟩
    · rintro ⟨binary, owners', hsome, owner, howner, dir, hdir, rfl, hexists⟩
      obtain rfl := Option.some.inj (howners.symm.trans hsome)
      exact ⟨owner, howner, binaryFor_isSome.mpr ⟨dir, hdir, hexists⟩⟩

/-- A directory of the configuration home that has a binary and no rule. -/
structure NeedsAssociation (options : ReconcileOptions) (tree : ConfigTree)
    (entry binary : Path) : Prop where
  listed : ∃ entries, configHomeEntries options.configHome tree = .ok entries ∧ entry ∈ entries
  notArchive : isArchiveDir entry options.archiveDir = false
  isDir : tree.isDir entry.components = true
  uncovered : policyCoversPath options.policyConfig entry = false
  binary : IsBinaryOf tree options.binaryDirs entry binary

/-- A binary is in no directory that is archived before the entry has its turn. -/
def BinaryStays (options : ReconcileOptions) (entry binary : Path) : Prop :=
  ∀ other, IsEntry options other → other.cmp entry = .lt →
    policyCoversPath options.policyConfig other = false →
      ¬ other.components <+: binary.components

/-- The entries before one that is refused are gone through without an error
and without a change, or end with the refusal themselves. -/
theorem planEntries_unarchived {options : ReconcileOptions} (happly : options.apply = true)
    (hnone : options.configPath = none) (clock : Path → Nat) {tree : ConfigTree}
    {entries : List Path}
    (h : ∀ entry ∈ entries, isArchiveDir entry options.archiveDir = false →
      tree.isDir entry.components = true → policyCoversPath options.policyConfig entry = true ∨
        (findAssociatedBinary tree entry options.binaryDirs).isSome = true) :
    planEntries options clock entries tree = (tree, .error .missingConfigPath) ∨
      ∃ actions, planEntries options clock entries tree = (tree, .ok actions) := by
  induction entries with
  | nil => exact .inr ⟨[], rfl⟩
  | cons entry entries ih =>
    have ih := ih fun e he => h e (List.mem_cons_of_mem _ he)
    cases harchive : isArchiveDir entry options.archiveDir with
    | true => rwa [planEntries, if_pos harchive]
    | false =>
      cases hdir : tree.isDir entry.components with
      | false => rwa [planEntries, harchive, hdir, if_neg (by decide), if_pos (by decide)]
      | true =>
        rw [planEntries, harchive, hdir, if_neg (by decide), if_neg (by decide), planEntry]
        cases hcovers : policyCoversPath options.policyConfig entry with
        | true =>
          rw [if_pos rfl]
          dsimp only
          rcases ih with hrefused | ⟨actions, hactions⟩
          · rw [hrefused]
            exact .inl rfl
          · rw [hactions]
            exact .inr ⟨_, rfl⟩
        | false =>
          rw [if_neg (by decide)]
          have hbinary := (h entry List.mem_cons_self harchive hdir).resolve_left (by simp [hcovers])
          obtain ⟨found, hfound⟩ := Option.isSome_iff_exists.mp hbinary
          rw [hfound]
          dsimp only
          rw [associationAction_refused happly hnone]
          exact .inl rfl

/-- The turn of a directory with a binary ends the run. -/
theorem planEntries_refused {options : ReconcileOptions} (happly : options.apply = true)
    (hnone : options.configPath = none) (clock : Path → Nat) {tree : ConfigTree} {entry : Path}
    (harchive : isArchiveDir entry options.archiveDir = false)
    (hdir : tree.isDir entry.components = true)
    (huncovered : policyCoversPath options.policyConfig entry = false)
    (hbinary : (findAssociatedBinary tree entry options.binaryDirs).isSome = true)
    (later : List Path) :
    planEntries options clock (entry :: later) tree = (tree, .error .missingConfigPath) := by
  obtain ⟨found, hfound⟩ := Option.isSome_iff_exists.mp hbinary
  rw [planEntries, harchive, hdir, if_neg (by decide), if_neg (by decide), planEntry, huncovered,
    if_neg (by decide), hfound]
  dsimp only
  rw [associationAction_refused happly hnone]

/-- The error of a run: that of an entry before, or that of the refusal. -/
def refusalError {α : Type} : Except ReconcileError α → ReconcileError
  | .error failed => failed
  | .ok _ => .missingConfigPath

section

variable {options : ReconcileOptions} (happly : options.apply = true)
  (hnone : options.configPath = none) (clock : Path → Nat) {tree : ConfigTree}
  {entry binary : Path} (hneeds : NeedsAssociation options tree entry binary)
  (hstays : BinaryStays options entry binary) {earlier later : List Path}
  (hentries : configHomeEntries options.configHome tree = .ok (earlier ++ entry :: later))

include hentries in
theorem earlier_listed : ∀ e ∈ earlier,
    (∃ name, Path.IsName name ∧ e = options.configHome.join ⟨name⟩) ∧ e.cmp entry = .lt := by
  intro e he
  obtain ⟨name, hname, heq, -⟩ := (mem_configHomeEntries hentries).mp (List.mem_append_left _ he)
  have hsorted := List.pairwise_append.mp (configHomeEntries_sorted hentries)
  exact ⟨⟨name, hname, heq⟩, hsorted.2.2 e he entry List.mem_cons_self⟩

include hentries in
theorem notMem_earlier : entry ∉ earlier := by
  intro he
  have hlt := (earlier_listed hentries entry he).2
  rw [Path.cmp_eq_iff.mpr rfl] at hlt
  cases hlt

include happly hnone hneeds hstays hentries

/-- The run is at its end when the entry has had its turn. -/
theorem planReconcile_refused :
    planReconcile options clock tree = ((planEntries options clock earlier tree).1,
      .error (refusalError (planEntries options clock earlier tree).2)) := by
  have hnames := fun e he => (earlier_listed hentries e he).1
  have hentry : IsEntry options entry := by
    obtain ⟨name, hname, heq, -⟩ := (mem_configHomeEntries hentries).mp
      (List.mem_append_right _ List.mem_cons_self)
    exact isEntry_of_not_archive ⟨name, hname, heq⟩ hneeds.notArchive
  have hdir : (planEntries options clock earlier tree).1.isDir entry.components = true := by
    have hsame := planEntries_spares happly hnone clock hnames hentry
      (.inl (notMem_earlier hentries)) [] tree
    rw [List.append_nil] at hsame
    rw [FileTree.isDir_iff, hsame, ← FileTree.isDir_iff]
    exact hneeds.isDir
  have hbinary : ∃ binary, IsBinaryOf (planEntries options clock earlier tree).1
      options.binaryDirs entry binary := by
    obtain ⟨owners, howners, owner, howner, dir, hdir, heq, hexists⟩ := hneeds.binary
    refine ⟨binary, owners, howners, owner, howner, dir, hdir, heq, ?_⟩
    refine planEntries_isSome happly hnone clock hnames ?_ hexists
    intro e he harchive huncovered
    exact hstays e (isEntry_of_not_archive (hnames e he) harchive)
      (earlier_listed hentries e he).2 huncovered
  rw [planReconcile, hentries]
  dsimp only
  rw [planEntries_append]
  cases hearlier : planEntries options clock earlier tree with
  | mk before result =>
    rw [hearlier] at hdir hbinary
    cases result with
    | error failed => rfl
    | ok actions =>
      dsimp only at hdir hbinary ⊢
      rw [planEntries_refused happly hnone clock hneeds.notArchive hdir hneeds.uncovered
        (findAssociatedBinary_isSome_iff.mpr hbinary)]
      rfl

end

/-- A run without a configuration path fails if there is a directory to
associate. Of the other directories only uncovered ones before it can have
been archived, and nothing has changed if none of those is without a binary. -/
theorem refused_apply {options : ReconcileOptions} (happly : options.apply = true)
    (hnone : options.configPath = none) (clock : Path → Nat) {tree : ConfigTree}
    {entry binary : Path} (hneeds : NeedsAssociation options tree entry binary)
    (hstays : BinaryStays options entry binary) :
    ∃ tree' error, planReconcile options clock tree = (tree', .error error) ∧
      (∀ other, IsEntry options other →
        policyCoversPath options.policyConfig other = true ∨ other.cmp entry ≠ .lt →
          ∀ below, tree'.node (other.components ++ below) =
            tree.node (other.components ++ below)) ∧
      ((∀ other, IsEntry options other → other.cmp entry = .lt →
          tree.isDir other.components = true →
            policyCoversPath options.policyConfig other = true ∨
              (findAssociatedBinary tree other options.binaryDirs).isSome = true) →
        tree' = tree ∧ error = .missingConfigPath) := by
  obtain ⟨entries, hentries, hmem⟩ := hneeds.listed
  obtain ⟨earlier, later, rfl⟩ := List.append_of_mem hmem
  have hnames := fun e he => (earlier_listed hentries e he).1
  have hbefore := fun e he => (earlier_listed hentries e he).2
  refine ⟨_, _, planReconcile_refused happly hnone clock hneeds hstays hentries, ?_, ?_⟩
  · intro other hother hspared below
    refine planEntries_spares happly hnone clock hnames hother ?_ below tree
    rcases hspared with hcovers | hlater
    · exact .inr hcovers
    · exact .inl fun he => hlater (hbefore other he)
  · intro hunarchived
    have hearlier := planEntries_unarchived happly hnone clock fun e he harchive =>
      hunarchived e (isEntry_of_not_archive (hnames e he) harchive) (hbefore e he)
    rcases hearlier with hrefused | ⟨actions, hactions⟩
    · rw [hrefused]
      exact ⟨rfl, rfl⟩
    · rw [hactions]
      exact ⟨rfl, rfl⟩

/-- Two directories of the configuration home and the binary `gh`. -/
def appAndGh (binaryDir : String) : ConfigTree :=
  treeOf [(Path.ofString "/c", .dir), (Path.ofString "/c/app", .dir), (Path.ofString "/c/gh", .dir),
    (Path.ofString binaryDir, .dir), ((Path.ofString binaryDir).join (Path.ofString "gh"), .file [])]

def appAndGhOptions (binaryDir : String) : ReconcileOptions :=
  (ReconcileOptions.new (Path.ofString "/c") {} [Path.ofString binaryDir]).applying

theorem appAndGh_needs {binaryDir : String} (h : binaryDir = "/bin" ∨ binaryDir = "/c/app/bin") :
    NeedsAssociation (appAndGhOptions binaryDir) (appAndGh binaryDir) (Path.ofString "/c/gh")
      ((Path.ofString binaryDir).join (Path.ofString "gh")) := by
  rcases h with rfl | rfl
  · refine ⟨⟨[Path.ofString "/c/app", Path.ofString "/c/gh"], by decide +kernel, by decide⟩,
      by decide +kernel, by decide +kernel, by decide +kernel, ?_⟩
    exact ⟨["gh"], by decide +kernel, "gh", by decide, Path.ofString "/bin", by decide +kernel, rfl,
      by decide +kernel⟩
  · refine ⟨⟨[Path.ofString "/c/app", Path.ofString "/c/gh"], by decide +kernel, by decide⟩,
      by decide +kernel, by decide +kernel, by decide +kernel, ?_⟩
    exact ⟨["gh"], by decide +kernel, "gh", by decide, Path.ofString "/c/app/bin",
      by decide +kernel, rfl, by decide +kernel⟩

/-- The directory `app` goes to the archive before `gh` is refused. -/
theorem refused_gh :
    ∃ tree' error, planReconcile (appAndGhOptions "/bin") (fun _ => 0) (appAndGh "/bin") =
        (tree', .error error) ∧
      tree'.node (Path.ofString "/c/gh").components = some .dir := by
  have hstays : BinaryStays (appAndGhOptions "/bin") (Path.ofString "/c/gh")
      ((Path.ofString "/bin").join (Path.ofString "gh")) := by
    rintro other ⟨name, hname, -, rfl⟩ - - hpre
    have hhome : (appAndGhOptions "/bin").configHome.components =
        [.rootDir, .normal (utf8 "c")] := by decide +kernel
    have hbinary : ((Path.ofString "/bin").join (Path.ofString "gh")).components =
        [.rootDir, .normal (utf8 "bin"), .normal (utf8 "gh")] := by decide +kernel
    have hdir := (List.prefix_append _ _).trans (Path.components_join hname ▸ hpre)
    rw [hhome, hbinary] at hdir
    revert hdir
    decide +kernel
  obtain ⟨tree', error, hplan, hspared, -⟩ :=
    refused_apply rfl rfl (fun _ => 0) (appAndGh_needs (.inl rfl)) hstays
  have hentry : IsEntry (appAndGhOptions "/bin") (Path.ofString "/c/gh") :=
    ⟨utf8 "gh", ⟨by decide, by decide, by decide, by decide⟩, by decide +kernel, by decide +kernel⟩
  have hsame := hspared _ hentry (.inr (by decide +kernel)) []
  rw [List.append_nil] at hsame
  refine ⟨tree', error, hplan, ?_⟩
  rw [hsame]
  decide +kernel

/-- What comes before is archived, and the binary can be in it. -/
theorem not_refused :
    (¬ ∀ (options : ReconcileOptions) (clock : Path → Nat) (tree : ConfigTree)
        (entry binary : Path), options.apply = true → options.configPath = none →
      NeedsAssociation options tree entry binary →
        ∃ tree' error, planReconcile options clock tree = (tree', .error error)) ∧
    ¬ ∀ (options : ReconcileOptions) (clock : Path → Nat) (tree tree' : ConfigTree)
        (entry binary other : Path) (error : ReconcileError), options.apply = true →
      options.configPath = none → NeedsAssociation options tree entry binary →
        planReconcile options clock tree = (tree', .error error) → IsEntry options other →
          tree'.node other.components = tree.node other.components := by
  constructor
  · intro h
    obtain ⟨tree', error, hplan⟩ := h (appAndGhOptions "/c/app/bin") (fun _ => 0)
      (appAndGh "/c/app/bin") _ _ rfl rfl (appAndGh_needs (.inr rfl))
    have hok : (planReconcile (appAndGhOptions "/c/app/bin") (fun _ => 0)
        (appAndGh "/c/app/bin")).2.isOk = true := by decide +kernel
    rw [hplan] at hok
    cases hok
  · intro h
    have hentry : IsEntry (appAndGhOptions "/bin") (Path.ofString "/c/app") :=
      ⟨utf8 "app", ⟨by decide, by decide, by decide, by decide⟩, by decide +kernel,
        by decide +kernel⟩
    have hplan : planReconcile (appAndGhOptions "/bin") (fun _ => 0) (appAndGh "/bin") =
        (treeAfter (appAndGhOptions "/bin") (appAndGh "/bin"), .error .missingConfigPath) :=
      Prod.ext rfl (by decide +kernel)
    have hsame := h _ _ _ _ _ _ _ _ rfl rfl (appAndGh_needs (.inl rfl)) hplan hentry
    revert hsame
    decide +kernel

end ConfigGuard
