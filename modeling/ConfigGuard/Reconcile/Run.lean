import ConfigGuard.Reconcile.Plan

/-!
# What `--apply` does to the file system

An entry that is handled changes its own place, a place in the archive and the
policy file, and leaves everything else as it is.
-/

namespace ConfigGuard
open OsPath

theorem isName_with_suffix {base : String} (hbase : Path.slash ∉ utf8 base) (n : Nat) :
    Path.IsName (utf8 (base ++ "-" ++ toString n)) := by
  have hdash : (45 : UInt8) ∈ utf8 (base ++ "-" ++ toString n) := by
    rw [utf8_append, utf8_append]
    exact List.mem_append_left _ (List.mem_append_right _ (by decide))
  refine ⟨List.ne_nil_of_mem hdash, ?_, ?_, ?_⟩
  · rw [utf8_append, utf8_append, List.mem_append, List.mem_append, not_or, not_or]
    refine ⟨⟨hbase, by decide⟩, ?_⟩
    intro hslash
    have hall : ∀ c ∈ Nat.toDigits 10 n, c.isDigit = true := fun c hc =>
      Nat.isDigit_of_mem_toDigits (by omega) (by omega) hc
    have hdigits := mem_utf8_digits hall hslash
    exact absurd hdigits.1 (by decide)
  · intro heq
    rw [heq] at hdash
    exact absurd hdash (by decide)
  · intro heq
    rw [heq] at hdash
    exact absurd hdash (by decide)

/-- The target is a name in the archive. -/
theorem archiveTarget_eq {home : Path} {name : Bytes} (hname : Path.IsName name) (tree : ConfigTree)
    (archiveDir : Path) (timestampSuffix : Nat) :
    ∃ name', Path.IsName name' ∧
      archiveTarget tree (home.join ⟨name⟩) archiveDir timestampSuffix = archiveDir.join ⟨name'⟩ := by
  have hfile : ((home.join ⟨name⟩).fileName.getD (utf8 "unknown")) = name := by
    rw [Path.fileName_join hname]
    rfl
  rw [archiveTarget, hfile]
  split
  · exact ⟨name, hname, rfl⟩
  · refine ⟨_, isName_with_suffix ?_ timestampSuffix, rfl⟩
    rw [Path.fileName_join hname, Option.bind_some]
    cases htext : toStr name with
    | none => decide
    | some text =>
      rw [Option.getD_some, utf8_of_toStr htext]
      exact hname.noSlash

/-- What is done for an entry, by the kind of action that is reported. -/
inductive Applied (options : ReconcileOptions) (configPath entry : Path) (tree tree' : ConfigTree) :
    ReconcileAction → Prop
  | keep (hcovers : policyCoversPath options.policyConfig entry = true) (htree : tree' = tree) :
    Applied options configPath entry tree tree' (keepConfiguredAction entry)
  | associate {found : BinaryMatch} {content : String}
    (hread : readToString tree configPath = some content)
    (hwrite : tree.write (placeOf configPath) (utf8 (content ++ ruleText entry found.owner)) =
      some tree') :
    Applied options configPath entry tree tree'
      { kind := .associated, source := entry, target := none, owner := some found.owner
        binary := some found.binary, reason := "associated binary found" }
  | archive {timestampSuffix : Nat} {target : Path} {dir : Place Path.IsComponent}
    {made : ConfigTree}
    (htarget : target = archiveTarget tree entry options.archiveDir timestampSuffix)
    (hdir : parent target = some dir) (hmade : tree.createDirAll dir = some made)
    (hmoved : made.rename (placeOf entry) (placeOf target) = some tree') :
    Applied options configPath entry tree tree'
      { kind := .archived, source := entry, target := some target, owner := none, binary := none
        reason := "associated binary not found" }

theorem Applied.source_eq {options : ReconcileOptions} {configPath entry : Path}
    {tree tree' : ConfigTree} {action : ReconcileAction}
    (h : Applied options configPath entry tree tree' action) : action.source = entry := by
  cases h <;> rfl

theorem appendOwnedPath_ok {configPath path : Path} {owner : String} {tree tree' : ConfigTree}
    (h : appendOwnedPath (some configPath) path owner tree = .ok tree') :
    ∃ content, readToString tree configPath = some content ∧
      tree.write (placeOf configPath) (utf8 (content ++ ruleText path owner)) = some tree' := by
  unfold appendOwnedPath at h
  dsimp only at h
  split at h
  · cases h
  · rename_i content hread
    split at h
    · cases h
    · rename_i written hwrite
      rw [Except.ok.inj h] at hwrite
      exact ⟨content, hread, hwrite⟩

theorem moveToArchive_ok {entry target : Path} {tree tree' : ConfigTree}
    (h : moveToArchive entry target tree = (tree', .ok ())) :
    ∃ dir made, parent target = some dir ∧ tree.createDirAll dir = some made ∧
      made.rename (placeOf entry) (placeOf target) = some tree' := by
  unfold moveToArchive at h
  split at h
  · cases (Prod.mk.inj h).2
  · rename_i dir hdir
    split at h
    · cases (Prod.mk.inj h).2
    · rename_i made hmade
      split at h
      · cases (Prod.mk.inj h).2
      · rename_i moved hmoved
        rw [(Prod.mk.inj h).1] at hmoved
        exact ⟨dir, made, hdir, hmade, hmoved⟩

theorem planEntry_applied {options : ReconcileOptions} {configPath entry : Path}
    (happly : options.apply = true) (hpath : options.configPath = some configPath)
    {timestampSuffix : Nat} {tree tree' : ConfigTree} {action : ReconcileAction}
    (h : planEntry entry options timestampSuffix tree = (tree', .ok action)) :
    Applied options configPath entry tree tree' action := by
  rw [planEntry] at h
  split at h
  · rename_i hcovers
    obtain ⟨rfl, haction⟩ := Prod.mk.inj h
    rw [← Except.ok.inj haction]
    exact .keep hcovers rfl
  · split at h
    · rw [associationAction, if_pos happly, hpath] at h
      split at h
      · cases (Prod.mk.inj h).2
      · rename_i written happend
        obtain ⟨rfl, haction⟩ := Prod.mk.inj h
        obtain ⟨content, hread, hwrite⟩ := appendOwnedPath_ok happend
        rw [← Except.ok.inj haction, happly]
        exact .associate hread hwrite
    · rw [archiveAction, if_pos happly] at h
      split at h
      · cases (Prod.mk.inj h).2
      · rename_i moved hmove
        obtain ⟨rfl, haction⟩ := Prod.mk.inj h
        obtain ⟨dir, made, hdir, hmade, hmoved⟩ := moveToArchive_ok hmove
        rw [← Except.ok.inj haction, happly]
        exact .archive rfl hdir hmade hmoved

def archiveName : Bytes := utf8 "archive"

theorem isName_archive : Path.IsName archiveName := by
  constructor <;> decide

theorem components_archiveDir (options : ReconcileOptions) :
    options.archiveDir.components = options.configHome.components ++ [.normal archiveName] := by
  rw [options.archiveDir_eq]
  exact Path.components_join isName_archive

/-- Of two names in one directory, neither is below the other. -/
theorem sibling_eq_of_below {dir rest : List Component} {name other : Bytes}
    (h : dir ++ [.normal name] <+: dir ++ .normal other :: rest) : name = other := by
  rw [List.prefix_append_right_inj] at h
  have heq := (List.cons_prefix_cons.mp h).1
  rwa [Component.normal.injEq] at heq

/-- An entry of the configuration home other than the archive. -/
def IsEntry (options : ReconcileOptions) (entry : Path) : Prop :=
  ∃ name, Path.IsName name ∧ name ≠ archiveName ∧ entry = options.configHome.join ⟨name⟩

/-- What leads to the archive is not below another entry. -/
theorem IsEntry.not_prefix {options : ReconcileOptions} {entry : Path}
    (h : IsEntry options entry) {place : List Component}
    (hplace : place <+: options.archiveDir.components) : ¬ entry.components <+: place := by
  obtain ⟨name, hname, harchive, rfl⟩ := h
  intro hpre
  have htrans := hpre.trans hplace
  rw [Path.components_join hname, components_archiveDir] at htrans
  exact harchive (sibling_eq_of_below htrans)

/-- The places an action is about: an entry and, if it is archived, a name in
the archive. -/
structure Placed (options : ReconcileOptions) (action : ReconcileAction) : Prop where
  source : IsEntry options action.source
  target : ∀ target, action.target = some target →
    ∃ name, Path.IsName name ∧ target = options.archiveDir.join ⟨name⟩
  stays : action.kind ≠ .archived → action.target = none

/-- The place is not below one the action moves something from or to. -/
def Clear (place : List Component) (action : ReconcileAction) : Prop :=
  (action.kind = .archived → ¬ action.source.components <+: place) ∧
    ∀ target, action.target = some target → ¬ target.components <+: place

section

variable {options : ReconcileOptions} {action : ReconcileAction} (hplaced : Placed options action)

include hplaced

/-- Nothing is moved from or to another entry. -/
theorem Placed.clear_entry {entry : Path} (hentry : IsEntry options entry)
    (hne : action.source ≠ entry) (rest : List Component) :
    Clear (entry.components ++ rest) action := by
  obtain ⟨name, hname, harchive, rfl⟩ := hentry
  obtain ⟨source, hsource, -, hsourceEq⟩ := hplaced.source
  rw [Path.components_join hname, List.append_assoc]
  constructor
  · intro _ hpre
    rw [hsourceEq, Path.components_join hsource] at hpre
    exact hne (by rw [hsourceEq, sibling_eq_of_below hpre])
  · intro target htarget hpre
    obtain ⟨name', hname', rfl⟩ := hplaced.target target htarget
    rw [Path.components_join hname'] at hpre
    have hdir := (List.prefix_append _ _).trans hpre
    rw [components_archiveDir] at hdir
    exact harchive (sibling_eq_of_below hdir).symm

/-- Nothing is moved from the archive, or to another place in it. -/
theorem Placed.clear_target {name : Bytes} (hname : Path.IsName name)
    (hne : ∀ target, action.target = some target →
      target.components ≠ (options.archiveDir.join ⟨name⟩).components)
    (rest : List Component) :
    Clear ((options.archiveDir.join ⟨name⟩).components ++ rest) action := by
  obtain ⟨source, hsource, harchive, hsourceEq⟩ := hplaced.source
  constructor
  · intro _ hpre
    rw [hsourceEq, Path.components_join hsource, Path.components_join hname,
      components_archiveDir, List.append_assoc, List.append_assoc] at hpre
    exact harchive (sibling_eq_of_below hpre)
  · intro target htarget hpre
    obtain ⟨name', hname', rfl⟩ := hplaced.target target htarget
    apply hne _ htarget
    rw [Path.components_join hname'] at hpre ⊢
    rw [Path.components_join hname] at hpre ⊢
    rw [List.append_assoc] at hpre
    rw [sibling_eq_of_below hpre]

/-- What leads to the archive is not below what is moved. -/
theorem Placed.clear_archive {place : List Component}
    (hplace : place <+: options.archiveDir.components) : Clear place action := by
  constructor
  · exact fun _ => hplaced.source.not_prefix hplace
  · intro target htarget hpre
    obtain ⟨name', hname', rfl⟩ := hplaced.target target htarget
    have hlength := (hpre.trans hplace).length_le
    rw [Path.components_join hname', List.length_append, List.length_singleton] at hlength
    omega

end

theorem parent_join {dir : Path} {name : Bytes} (hname : Path.IsName name)
    {place : Place Path.IsComponent} (h : parent (dir.join ⟨name⟩) = some place) :
    place.1 = dir.components := by
  have hlast : (dir.join ⟨name⟩).components.getLast? = some (.normal name) := by
    rw [Path.components_join hname, List.getLast?_concat]
  rw [parent, hlast] at h
  rw [← Option.some.inj h]
  dsimp only
  rw [Path.components_join hname, List.dropLast_concat]

section

variable {options : ReconcileOptions} {configPath entry : Path} {tree tree' : ConfigTree}
  {action : ReconcileAction} (happlied : Applied options configPath entry tree tree' action)
  (hentry : IsEntry options entry)

include happlied hentry

theorem Applied.placed : Placed options action := by
  obtain ⟨name, hname, harchive, rfl⟩ := hentry
  cases happlied with
  | keep => exact ⟨⟨name, hname, harchive, rfl⟩, fun _ h => (nomatch h), fun _ => rfl⟩
  | associate => exact ⟨⟨name, hname, harchive, rfl⟩, fun _ h => (nomatch h), fun _ => rfl⟩
  | archive htarget =>
    refine ⟨⟨name, hname, harchive, rfl⟩, ?_, fun h => absurd rfl h⟩
    intro target heq
    rw [← Option.some.inj heq, htarget]
    exact archiveTarget_eq hname tree options.archiveDir _

/-- An archived entry is renamed in a tree in which the archive was made. -/
theorem Applied.renamed (hkind : action.kind = .archived) :
    ∃ target made, action.target = some target ∧
      FileTree.Renamed made tree' action.source.components target.components ∧
      ∀ place, made.node place = tree.node place ∨
        tree.node place = none ∧ made.node place = some .dir ∧
          place <+: options.archiveDir.components := by
  have hplaced := happlied.placed hentry
  cases happlied with
  | keep => cases hkind
  | associate => cases hkind
  | @archive _ target dir made htarget hdir hmade hmoved =>
    obtain ⟨name', hname', rfl⟩ := hplaced.target target rfl
    refine ⟨_, made, rfl, ?_, ?_⟩
    · apply FileTree.rename_eq_some ?_ hmoved
      intro heq
      obtain ⟨name, hname, -, rfl⟩ := hentry
      have hlength := congrArg List.length heq
      simp only [placeOf, Path.components_join hname, Path.components_join hname',
        components_archiveDir, List.length_append, List.length_singleton] at hlength
      omega
    · intro place
      rw [← parent_join hname' hdir]
      exact FileTree.createDirs_node hmade place

/-- Everything stays that is not the policy file, not below what is moved and
not on the way to the archive. -/
theorem Applied.frame {place : List Component} (hne : place ≠ configPath.components)
    (hclear : Clear place action) :
    tree'.node place = tree.node place ∨
      tree.node place = none ∧ tree'.node place = some .dir ∧
        place <+: options.archiveDir.components := by
  by_cases hkind : action.kind = .archived
  · obtain ⟨target, made, htarget, hrenamed, hmade⟩ := happlied.renamed hentry hkind
    rw [hrenamed.node_elsewhere (hclear.1 hkind) (hclear.2 target htarget)]
    exact hmade place
  · cases happlied with
    | keep hcovers htree =>
      rw [htree]
      exact .inl rfl
    | associate hread hwrite =>
      rw [FileTree.write_node hwrite, placeOf, if_neg hne]
      exact .inl rfl
    | archive => exact absurd rfl hkind

/-- So does what is at and below another entry. -/
theorem Applied.frame_entry {other : Path} (hother : IsEntry options other)
    (hdiffers : action.source ≠ other) {below : List Component}
    (hne : other.components ++ below ≠ configPath.components) :
    tree'.node (other.components ++ below) = tree.node (other.components ++ below) := by
  have hclear := (happlied.placed hentry).clear_entry hother hdiffers below
  rcases happlied.frame hentry hne hclear with hsame | ⟨-, -, hpre⟩
  · exact hsame
  · exact absurd (List.prefix_append _ _) (hother.not_prefix hpre)

/-- What was at an archived entry is at its target and nowhere else. -/
theorem Applied.moved (hkind : action.kind = .archived) {target : Path}
    (htarget : action.target = some target) (rest : List Component) :
    tree'.node (action.source.components ++ rest) = none ∧
      tree'.node (target.components ++ rest) = tree.node (action.source.components ++ rest) := by
  obtain ⟨target', made, htarget', hrenamed, hmade⟩ := happlied.renamed hentry hkind
  obtain rfl : target = target' := Option.some.inj (htarget.symm.trans htarget')
  refine ⟨hrenamed.node_source rest, ?_⟩
  rw [hrenamed.node_target]
  rcases hmade (action.source.components ++ rest) with hsame | ⟨-, -, hpre⟩
  · exact hsame
  · have hsource := (happlied.placed hentry).source
    exact absurd (List.prefix_append _ _) (hsource.not_prefix hpre)

/-- The text an action adds to the policy file. -/
def appended (action : ReconcileAction) : String :=
  if action.kind = .associated then ruleText action.source (action.owner.getD "") else ""

/-- The file of the policy is not at or below a target. -/
theorem Applied.target_clear (hdir : tree.isDir entry.components = true) {content : Bytes}
    (hpolicy : tree.node configPath.components = some (.file content)) {target : Path}
    (htarget : action.target = some target) : ¬ target.components <+: configPath.components := by
  intro hpre
  have hkind : action.kind = .archived := by
    cases happlied with
    | keep => cases htarget
    | associate => cases htarget
    | archive => rfl
  have hsource := happlied.source_eq
  obtain ⟨target', made, htarget', hrenamed, hmade⟩ := happlied.renamed hentry hkind
  obtain rfl : target = target' := Option.some.inj (htarget.symm.trans htarget')
  have hpolicy' : made.node configPath.components = some (.file content) := by
    rcases hmade configPath.components with hsame | ⟨hnone, -, -⟩
    · rw [hsame, hpolicy]
    · rw [hpolicy] at hnone
      cases hnone
  by_cases heq : configPath.components = target.components
  · -- a directory is not moved over a file
    rw [heq] at hpolicy'
    have hsourceDir : made.isDir action.source.components = true := by
      rw [hsource, FileTree.isDir_iff]
      rw [FileTree.isDir_iff] at hdir
      rcases hmade entry.components with hsame | ⟨hnone, -, -⟩
      · rw [hsame, hdir]
      · rw [hdir] at hnone
        cases hnone
    rcases hrenamed.target with hnone | hsame
    · rw [hpolicy'] at hnone
      cases hnone
    · rw [hsourceDir, FileTree.isDir_iff, hpolicy'] at hsame
      cases hsame
  · have hkey : configPath.components ∈ made.nodes.keys :=
      AList.mem_keys.mp (AList.lookup_isSome.mp (Option.isSome_of_mem hpolicy'))
    exact FileTree.not_prefix_of_hasBelow hrenamed.empty hkey heq hpre

/-- The policy file goes on with the text of the action, unless it is moved. -/
theorem Applied.policy (hdir : tree.isDir entry.components = true) {content : String}
    (hpolicy : tree.node configPath.components = some (.file (utf8 content)))
    (hstays : action.kind = .archived → ¬ action.source.components <+: configPath.components) :
    tree'.node configPath.components = some (.file (utf8 (content ++ appended action))) := by
  have hclear : Clear configPath.components action :=
    ⟨hstays, fun _ => happlied.target_clear hentry hdir hpolicy⟩
  by_cases hkind : action.kind = .archived
  · obtain ⟨target, made, htarget, hrenamed, hmade⟩ := happlied.renamed hentry hkind
    rw [hrenamed.node_elsewhere (hclear.1 hkind) (hclear.2 target htarget)]
    have hnothing : appended action = "" := by
      rw [appended, hkind, if_neg (by decide)]
    rw [hnothing, String.append_empty]
    rcases hmade configPath.components with hsame | ⟨hnone, -, -⟩
    · rw [hsame, hpolicy]
    · rw [hpolicy] at hnone
      cases hnone
  · cases happlied with
    | keep hcovers htree =>
      rw [htree, hpolicy]
      have hnothing : appended (keepConfiguredAction entry) = "" := rfl
      rw [hnothing, String.append_empty]
    | @associate found content' hread hwrite =>
      have hcontent : content' = content := by
        rw [readToString, hpolicy] at hread
        exact Option.some.inj (hread.symm.trans (toStr_utf8 content))
      rw [FileTree.write_node hwrite, hcontent, placeOf, if_pos rfl]
      rfl
    | archive => exact absurd rfl hkind

end

end ConfigGuard
