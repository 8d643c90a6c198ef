import ConfigGuard.Reconcile.Appending
import ConfigGuard.Reconcile.Collision
import ConfigGuard.Reconcile.Command
import Mathlib.Data.List.Infix

/-!
# What a dry run announces

The plan of a dry run says what `--apply` does from the same tree, up to the
action it fails at, if one fails.
-/

namespace ConfigGuard
open OsPath

/-- What a dry run says about an entry. -/
def announce (options : ReconcileOptions) (timestampSuffix : Nat) (tree : ConfigTree)
    (entry : Path) : ReconcileAction :=
  if policyCoversPath options.policyConfig entry then keepConfiguredAction entry
  else
    match findAssociatedBinary tree entry options.binaryDirs with
    | some found =>
      { kind := .associateCandidate, source := entry, target := none, owner := some found.owner
        binary := some found.binary, reason := "associated binary found" }
    | none =>
      { kind := .archiveCandidate, source := entry
        target := some (archiveTarget tree entry options.archiveDir timestampSuffix), owner := none
        binary := none, reason := "associated binary not found" }

/-- The entries that an action is planned for. -/
def turns (options : ReconcileOptions) (tree : ConfigTree) (entries : List Path) : List Path :=
  entries.filter fun entry =>
    !isArchiveDir entry options.archiveDir && tree.isDir entry.components

theorem planEntry_announce {options : ReconcileOptions} (hdry : options.apply = false)
    (entry : Path) (timestampSuffix : Nat) (tree : ConfigTree) :
    planEntry entry options timestampSuffix tree =
      (tree, .ok (announce options timestampSuffix tree entry)) := by
  rw [planEntry, announce]
  cases policyCoversPath options.policyConfig entry with
  | true => rfl
  | false =>
    rw [if_neg (by decide), if_neg (by decide)]
    cases findAssociatedBinary tree entry options.binaryDirs with
    | some found => simp only [associationAction, hdry, appliedKind, Bool.false_eq_true, if_false]
    | none => simp only [archiveAction, hdry, appliedKind, Bool.false_eq_true, if_false]

/-- A dry run does not fail and leaves the tree as it is. -/
theorem planEntries_announce {options : ReconcileOptions} (hdry : options.apply = false)
    (clock : Path → Nat) (entries : List Path) (tree : ConfigTree) :
    planEntries options clock entries tree =
      (tree, .ok ((turns options tree entries).map fun entry =>
        announce options (clock entry) tree entry)) := by
  induction entries with
  | nil => rfl
  | cons entry entries ih =>
    rw [planEntries, turns, List.filter_cons]
    cases isArchiveDir entry options.archiveDir with
    | true => exact ih
    | false =>
      cases tree.isDir entry.components with
      | false => exact ih
      | true =>
        simp only [Bool.not_false, Bool.not_true, Bool.true_and, Bool.false_eq_true, if_false,
          if_true, planEntry_announce hdry, ih]
        rfl

def ActionKind.carriedOut : ActionKind → ActionKind
  | associateCandidate => associated
  | archiveCandidate => archived
  | kind => kind

/-- What is done where something was announced; `taken` are the places that were moved to. -/
def carriedOut (options : ReconcileOptions) (clock : Path → Nat) (tree : ConfigTree)
    (taken : List (List Component)) (announced : ReconcileAction) : ReconcileAction :=
  { announced with
    kind := announced.kind.carriedOut
    target := announced.target.map fun _ =>
      let plain := plainTarget announced.source options.archiveDir
      if pathExists tree plain = true ∨ plain.components ∈ taken then
        suffixedTarget announced.source options.archiveDir (clock announced.source)
      else plain }

def carryOut (options : ReconcileOptions) (clock : Path → Nat) (tree : ConfigTree) :
    List (List Component) → List ReconcileAction → List ReconcileAction
  | _, [] => []
  | taken, announced :: rest =>
    let done := carriedOut options clock tree taken announced
    done :: carryOut options clock tree (done.target.toList.map (·.components) ++ taken) rest

/-- Whether a directory is at the place, or a file, or nothing. -/
def placeKind (tree : ConfigTree) (place : List Component) : Option Bool :=
  (tree.node place).map fun
    | .dir => true
    | .file _ => false

theorem isDir_eq_of_kind {tree tree' : ConfigTree} {place : List Component}
    (h : placeKind tree' place = placeKind tree place) : tree'.isDir place = tree.isDir place := by
  have hdir : ∀ tree : ConfigTree, tree.isDir place = true ↔ placeKind tree place = some true := by
    intro tree
    rw [FileTree.isDir_iff, placeKind]
    cases tree.node place with
    | none => simp
    | some node => cases node <;> simp
  rw [Bool.eq_iff_iff, hdir, hdir, h]

theorem isSome_eq_of_kind {tree tree' : ConfigTree} {place : List Component}
    (h : placeKind tree' place = placeKind tree place) :
    (tree'.node place).isSome = (tree.node place).isSome := by
  have hsome := congrArg Option.isSome h
  rwa [placeKind, placeKind, Option.isSome_map, Option.isSome_map] at hsome

/-- Nothing but a directory that leads to the archive, or the archive, has been made. -/
def OnlyArchiveMade (options : ReconcileOptions) (tree tree' : ConfigTree) : Prop :=
  ∀ place, tree'.node place = tree.node place ∨
    tree.node place = none ∧ tree'.node place = some .dir ∧
      place <+: options.archiveDir.components

/-- The configuration home and what leads to it are directories. -/
def Rooted (options : ReconcileOptions) (tree : ConfigTree) : Prop :=
  ∀ place, place ≠ [] → place <+: options.configHome.components → tree.isDir place = true

/-- The place is in no entry of the configuration home. -/
def Outside (options : ReconcileOptions) (place : List Component) : Prop :=
  ∀ name, ¬ options.configHome.components ++ [.normal name] <+: place

section

variable {options : ReconcileOptions} {configPath entry : Path} {tree tree' : ConfigTree}
  {action : ReconcileAction} (happlied : Applied options configPath entry tree tree' action)
  (hentry : IsEntry options entry)

include happlied hentry

/-- What is there is of the same kind afterwards, or the entry is moved. -/
theorem Applied.kinds :
    action.target = none ∧ (∀ place, placeKind tree' place = placeKind tree place) ∨
      ∃ target made, action.target = some target ∧ OnlyArchiveMade options tree made ∧
        FileTree.Renamed made tree' entry.components target.components := by
  cases hkind : action.kind with
  | archived =>
    obtain ⟨target, made, htarget, hrenamed, hmade⟩ := happlied.renamed hentry hkind
    rw [happlied.source_eq] at hrenamed
    exact .inr ⟨target, made, htarget, hmade, hrenamed⟩
  | keepConfigured | associateCandidate | associated | archiveCandidate =>
    have hne : action.kind ≠ .archived := by
      rw [hkind]
      decide
    refine .inl ⟨(happlied.placed hentry).stays hne, ?_⟩
    intro place
    cases happlied with
    | keep hcovers htree => rw [htree]
    | associate hread hwrite =>
      rw [placeKind, FileTree.write_node hwrite]
      by_cases hplace : place = (placeOf configPath).1
      · rw [if_pos hplace, placeKind, hplace, placeOf, readToString_eq_some.mp hread]
        rfl
      · rw [if_neg hplace, placeKind]
    | archive => exact absurd rfl hne

theorem Applied.kind_outside (hrooted : Rooted options tree) {place : List Component}
    (hout : Outside options place) : placeKind tree' place = placeKind tree place := by
  rcases happlied.kinds hentry with ⟨-, hsame⟩ | ⟨target, made, htarget, hmade, hrenamed⟩
  · exact hsame place
  · obtain ⟨name', hname', rfl⟩ := (happlied.placed hentry).target target htarget
    obtain ⟨name, hname, -, rfl⟩ := hentry
    rw [Path.components_join hname, Path.components_join hname', components_archiveDir] at hrenamed
    have hdst : ¬ options.configHome.components ++ [.normal archiveName] ++ [.normal name'] <+:
        place := fun hpre => hout archiveName ((List.prefix_append _ _).trans hpre)
    rw [placeKind, hrenamed.node_elsewhere (hout name) hdst, placeKind]
    rcases hmade place with hsame | ⟨hnone, hdir, hpre⟩
    · rw [hsame]
    · -- what leads to the configuration home was there
      exfalso
      rw [components_archiveDir, List.prefix_concat_iff] at hpre
      rcases hpre with rfl | hpre
      · exact hout archiveName List.prefix_rfl
      · by_cases hne : place = []
        · exact made.nonempty place (AList.mem_keys.mp (AList.lookup_isSome.mp
            (Option.isSome_of_mem hdir))) hne
        · have hthere := FileTree.isDir_iff.mp (hrooted place hne hpre)
          rw [hnone] at hthere
          cases hthere

theorem Applied.rooted (hrooted : Rooted options tree) : Rooted options tree' := by
  intro place hne hpre
  have hout : Outside options place := by
    intro name hbelow
    have hlength := (hbelow.trans hpre).length_le
    rw [List.length_append, List.length_singleton] at hlength
    omega
  rw [isDir_eq_of_kind (happlied.kind_outside hentry hrooted hout)]
  exact hrooted place hne hpre

theorem Applied.kind_entry {other : Path} (hother : IsEntry options other) (hne : entry ≠ other) :
    placeKind tree' other.components = placeKind tree other.components := by
  rcases happlied.kinds hentry with ⟨-, hsame⟩ | ⟨target, made, htarget, hmade, hrenamed⟩
  · exact hsame _
  · have hplaced := happlied.placed hentry
    have hsource : action.source ≠ other := by
      rw [happlied.source_eq]
      exact hne
    have hclear := hplaced.clear_entry hother hsource []
    have hsrc : ¬ entry.components <+: other.components := by
      intro hpre
      obtain ⟨name, hname, -, rfl⟩ := hentry
      obtain ⟨name', hname', -, rfl⟩ := hother
      rw [Path.components_join hname, Path.components_join hname'] at hpre
      exact hne (by rw [sibling_eq_of_below hpre])
    have hdst := hclear.2 target htarget
    rw [List.append_nil] at hdst
    rw [placeKind, hrenamed.node_elsewhere hsrc hdst, placeKind]
    rcases hmade other.components with hsame | ⟨-, -, hpre⟩
    · rw [hsame]
    · exact absurd List.prefix_rfl (hother.not_prefix hpre)

/-- A name is in the archive if it was, or has been moved there. -/
theorem Applied.exists_archived (hdir : tree.isDir entry.components = true) {name : Bytes}
    (hname : Path.IsName name) :
    pathExists tree' (options.archiveDir.join ⟨name⟩) = true ↔
      pathExists tree (options.archiveDir.join ⟨name⟩) = true ∨
        (options.archiveDir.join ⟨name⟩).components ∈
          action.target.toList.map (·.components) := by
  rw [pathExists, pathExists]
  rcases happlied.kinds hentry with ⟨hnone, hsame⟩ | ⟨target, made, htarget, hmade, hrenamed⟩
  · rw [isSome_eq_of_kind (hsame _), hnone]
    simp
  · obtain ⟨name', hname', rfl⟩ := (happlied.placed hentry).target target htarget
    rw [htarget, Option.toList_some, List.map_singleton, List.mem_singleton]
    have hmade' : made.node (options.archiveDir.join ⟨name⟩).components =
        tree.node (options.archiveDir.join ⟨name⟩).components := by
      refine (hmade _).resolve_right ?_
      rintro ⟨-, -, hpre⟩
      have hlength := hpre.length_le
      rw [Path.components_join hname, List.length_append, List.length_singleton] at hlength
      omega
    by_cases heq : (options.archiveDir.join ⟨name⟩).components =
        (options.archiveDir.join ⟨name'⟩).components
    · have hnode := hrenamed.node_target []
      rw [List.append_nil, List.append_nil] at hnode
      have hsource : made.node entry.components = some .dir := by
        have hthere := FileTree.isDir_iff.mp hdir
        rcases hmade entry.components with hsame | ⟨hmissing, -, -⟩
        · rw [hsame, hthere]
        · rw [hmissing] at hthere
          cases hthere
      rw [heq, hnode, hsource]
      simp
    · rw [hrenamed.node_elsewhere ?_ ?_, hmade']
      · simp [heq]
      · intro hpre
        obtain ⟨name'', hname'', harchive, rfl⟩ := hentry
        rw [Path.components_join hname, Path.components_join hname'', components_archiveDir,
          List.append_assoc] at hpre
        exact harchive (sibling_eq_of_below hpre)
      · intro hpre
        rw [Path.components_join hname, Path.components_join hname'] at hpre
        rw [Path.components_join hname, Path.components_join hname'] at heq
        exact heq (by rw [sibling_eq_of_below hpre])

end

/-- No binary is looked for in the configuration home. -/
def BinariesApart (options : ReconcileOptions) : Prop :=
  ∀ dir ∈ options.binaryDirs, ¬ options.configHome.components <+: dir.components

theorem toLower_ne_slash {c : Char} (h : c ≠ '/') : c.toLower ≠ '/' := by
  unfold Char.toLower
  split
  · rename_i hupper
    have hlow : 65 ≤ c.val.toNat := UInt32.le_iff_toNat_le.mp hupper.1
    have hhigh : c.val.toNat ≤ 90 := UInt32.le_iff_toNat_le.mp hupper.2
    have hoffset : ('a'.val - 'A'.val).toNat = 32 := by decide
    have hcode : (c.val + ('a'.val - 'A'.val)).toNat = c.val.toNat + 32 := by
      rw [UInt32.toNat_add, hoffset]
      exact Nat.mod_eq_of_lt (by omega)
    intro heq
    have hslash : (c.val + ('a'.val - 'A'.val)).toNat = 47 := congrArg Char.toNat heq
    omega
  · exact h

/-- An owner has no slash, as the name it comes from has none. -/
theorem noSlash_ownerNames {name owner : List Char} (hname : '/' ∉ name)
    (howner : owner ∈ ownerNames name) : '/' ∉ owner := by
  have hcli : '/' ∉ withoutCli name := fun h => hname (withoutCli_subset name h)
  have hlower : ∀ {text : List Char}, '/' ∉ text → '/' ∉ toAsciiLowercase text := by
    intro text htext hmem
    obtain ⟨c, hc, heq⟩ := List.mem_map.mp hmem
    exact toLower_ne_slash (fun hslash => htext (hslash ▸ hc)) heq
  have hreplace : ∀ {replacement : List Char}, '/' ∉ replacement →
      '/' ∉ replaceSpace replacement (withoutCli name) := by
    intro replacement hreplacement hmem
    obtain ⟨c, hc, hmem⟩ := List.mem_flatMap.mp hmem
    split at hmem
    · exact hreplacement hmem
    · exact hcli (List.mem_singleton.mp hmem ▸ hc)
  have hmem := (mem_ownerNames.mp howner).1
  simp only [ownerCandidates, List.mem_cons, List.not_mem_nil, or_false] at hmem
  rcases hmem with rfl | rfl | rfl | rfl
  · exact hcli
  · exact hlower hcli
  · exact hlower (hreplace (by decide))
  · exact hlower (hreplace (by decide))

theorem noSlash_owner {entry : Path} {owners : List String}
    (howners : ownerNamesForEntry entry = some owners) {owner : String} (howner : owner ∈ owners) :
    Path.slash ∉ utf8 owner := by
  have hslash : ∀ text : String, Path.slash ∈ utf8 text ↔ '/' ∈ text.toList := fun text =>
    mem_utf8_ascii (c := '/') (by decide)
  unfold ownerNamesForEntry at howners
  split at howners
  · cases howners
  · rename_i text htext
    obtain ⟨name, hname, hread⟩ := Option.bind_eq_some_iff.mp htext
    have hfile := isName_archivedName entry
    rw [archivedName, hname, Option.getD_some, ← utf8_of_toStr hread] at hfile
    dsimp only at howners
    split at howners
    · cases howners
    · rw [← Option.some.inj howners] at howner
      obtain ⟨chars, hchars, rfl⟩ := List.mem_map.mp howner
      rw [hslash, String.toList_ofList]
      exact noSlash_ownerNames (fun h => hfile.noSlash ((hslash text).mpr h)) hchars

theorem BinariesApart.outside {options : ReconcileOptions} (h : BinariesApart options) {dir : Path}
    (hdir : dir ∈ options.binaryDirs) {name : Bytes} (hname : Path.slash ∉ name) :
    Outside options (dir.join ⟨name⟩).components := by
  intro entry hbelow
  obtain ⟨rest, hjoin, hrest⟩ := Path.components_join_noSlash dir hname
  rw [hjoin] at hbelow
  apply h dir hdir
  refine List.prefix_of_prefix_length_le ((List.prefix_append _ _).trans hbelow)
    (List.prefix_append _ _) ?_
  have hlength := hbelow.length_le
  rw [List.length_append, List.length_append, List.length_singleton] at hlength
  omega

theorem BinariesApart.binary {options : ReconcileOptions} (h : BinariesApart options)
    {tree tree' : ConfigTree}
    (hkinds : ∀ place, Outside options place → placeKind tree' place = placeKind tree place)
    (entry : Path) : findAssociatedBinary tree' entry options.binaryDirs =
      findAssociatedBinary tree entry options.binaryDirs := by
  rw [findAssociatedBinary, findAssociatedBinary]
  cases howners : ownerNamesForEntry entry with
  | none => rfl
  | some owners =>
    dsimp only
    rw [← List.head?_filterMap, ← List.head?_filterMap]
    refine congrArg List.head? (List.filterMap_congr ?_)
    intro owner howner
    rw [binaryFor, binaryFor, ← List.head?_filter, ← List.head?_filter]
    refine congrArg (fun found => (List.head? found).map _) (List.filter_congr ?_)
    intro path hpath
    obtain ⟨dir, hdir, rfl⟩ := List.mem_map.mp hpath
    exact isSome_eq_of_kind (hkinds _ (h.outside hdir (noSlash_owner howners howner)))

/-- The entries to come stand as they did, and so do the binaries; the archive has what
was moved to it. -/
structure Standing (options : ReconcileOptions) (tree : ConfigTree) (taken : List (List Component))
    (entries : List Path) (now : ConfigTree) : Prop where
  rooted : Rooted options now
  isDir : ∀ entry ∈ entries, isArchiveDir entry options.archiveDir = false →
    now.isDir entry.components = tree.isDir entry.components
  binary : ∀ entry, findAssociatedBinary now entry options.binaryDirs =
    findAssociatedBinary tree entry options.binaryDirs
  archive : ∀ name, Path.IsName name → (pathExists now (options.archiveDir.join ⟨name⟩) = true ↔
    pathExists tree (options.archiveDir.join ⟨name⟩) = true ∨
      (options.archiveDir.join ⟨name⟩).components ∈ taken)

section

variable {options : ReconcileOptions} {tree now next : ConfigTree} {taken : List (List Component)}
  {entry : Path} {entries : List Path}

theorem Standing.start (hrooted : Rooted options tree) (entries : List Path) :
    Standing options tree [] entries tree where
  rooted := hrooted
  isDir := fun _ _ _ => rfl
  binary := fun _ => rfl
  archive := by simp

theorem Standing.skip (h : Standing options tree taken (entry :: entries) now) :
    Standing options tree taken entries now :=
  { h with isDir := fun e he => h.isDir e (List.mem_cons_of_mem _ he) }

/-- The turn of an entry is over. -/
theorem Standing.turn (h : Standing options tree taken (entry :: entries) now)
    (hbinaries : BinariesApart options) (hentry : IsEntry options entry)
    (hnames : ∀ e ∈ entries, ∃ name, Path.IsName name ∧ e = options.configHome.join ⟨name⟩)
    (hnew : entry ∉ entries) (hdir : now.isDir entry.components = true) {configPath : Path}
    {action : ReconcileAction} (happlied : Applied options configPath entry now next action) :
    Standing options tree (action.target.toList.map (·.components) ++ taken) entries next := by
  constructor
  · exact happlied.rooted hentry h.rooted
  · intro e he harchive
    rw [← h.isDir e (List.mem_cons_of_mem _ he) harchive]
    have hne : entry ≠ e := by
      rintro rfl
      exact hnew he
    have hother := isEntry_of_not_archive (hnames e he) harchive
    exact isDir_eq_of_kind (happlied.kind_entry hentry hother hne)
  · intro e
    rw [← h.binary e]
    exact hbinaries.binary (fun place hout => happlied.kind_outside hentry h.rooted hout) e
  · intro name hname
    rw [happlied.exists_archived hentry hdir hname, h.archive name hname, List.mem_append]
    tauto

/-- An action that is done is the one that was announced. -/
theorem Standing.carriedOut (h : Standing options tree taken (entry :: entries) now)
    (happly : options.apply = true) (clock : Path → Nat) (timestampSuffix : Nat)
    {action : ReconcileAction}
    (hplan : planEntry entry options (clock entry) now = (next, .ok action)) :
    action = ConfigGuard.carriedOut options clock tree taken
        (announce options timestampSuffix tree entry) ∧
      ∃ configPath, (action.kind = .associated → options.configPath = some configPath) ∧
        Applied options configPath entry now next action := by
  rw [planEntry] at hplan
  rw [announce]
  cases hcovers : policyCoversPath options.policyConfig entry with
  | true =>
    rw [hcovers, if_pos rfl] at hplan
    obtain ⟨rfl, haction⟩ := Prod.mk.inj hplan
    rw [if_pos rfl, ← Except.ok.inj haction]
    exact ⟨rfl, entry, fun heq => absurd heq (by simp [keepConfiguredAction]), .keep hcovers rfl⟩
  | false =>
    rw [hcovers, if_neg (by decide), h.binary entry] at hplan
    rw [if_neg (by decide)]
    cases hbinary : findAssociatedBinary tree entry options.binaryDirs with
    | some found =>
      rw [hbinary] at hplan
      dsimp only at hplan
      rw [associationAction, if_pos happly, happly] at hplan
      cases hpath : options.configPath with
      | none =>
        rw [hpath] at hplan
        cases (Prod.mk.inj hplan).2
      | some configPath =>
        rw [hpath] at hplan
        split at hplan
        · cases (Prod.mk.inj hplan).2
        · rename_i written happend
          obtain ⟨rfl, haction⟩ := Prod.mk.inj hplan
          obtain ⟨content, hread, hwrite⟩ := appendOwnedPath_ok happend
          rw [← Except.ok.inj haction]
          exact ⟨rfl, configPath, fun _ => rfl, .associate hread hwrite⟩
    | none =>
      rw [hbinary] at hplan
      dsimp only at hplan
      rw [archiveAction, if_pos happly, happly] at hplan
      split at hplan
      · cases (Prod.mk.inj hplan).2
      · rename_i moved hmove
        obtain ⟨rfl, haction⟩ := Prod.mk.inj hplan
        obtain ⟨dir, made, hdir, hmade, hmoved⟩ := moveToArchive_ok hmove
        rw [← Except.ok.inj haction]
        refine ⟨?_, entry, fun heq => absurd heq (by simp [appliedKind]),
          .archive rfl hdir hmade hmoved⟩
        -- the name is taken now if it was, or has been taken since
        have htaken := h.archive (archivedName entry) (isName_archivedName entry)
        have htarget := archiveTarget_cases now entry options.archiveDir (clock entry)
        rw [htarget.trans (if_congr htaken rfl rfl)]
        rfl

end

/-- The archive is all that a turn makes which fails. -/
theorem planEntry_failed {options : ReconcileOptions} (happly : options.apply = true)
    {entry : Path} (hentry : IsEntry options entry) {timestampSuffix : Nat}
    {now next : ConfigTree} {error : ReconcileError}
    (hplan : planEntry entry options timestampSuffix now = (next, .error error)) :
    OnlyArchiveMade options now next ∧ policyCoversPath options.policyConfig entry = false := by
  rw [planEntry] at hplan
  cases hcovers : policyCoversPath options.policyConfig entry with
  | true =>
    rw [hcovers, if_pos rfl] at hplan
    cases (Prod.mk.inj hplan).2
  | false =>
    refine ⟨?_, rfl⟩
    rw [hcovers, if_neg (by decide)] at hplan
    split at hplan
    · rw [associationAction, if_pos happly] at hplan
      split at hplan
      · rw [← (Prod.mk.inj hplan).1]
        exact fun place => .inl rfl
      · cases (Prod.mk.inj hplan).2
    · rw [archiveAction, if_pos happly, moveToArchive] at hplan
      split at hplan
      · rename_i tree failed hmove
        obtain ⟨rfl, -⟩ := Prod.mk.inj hplan
        obtain ⟨name, hname, -, rfl⟩ := hentry
        obtain ⟨name', hname', htarget⟩ :=
          archiveTarget_eq hname now options.archiveDir timestampSuffix
        rw [htarget] at hmove
        split at hmove
        · rw [← (Prod.mk.inj hmove).1]
          exact fun place => .inl rfl
        · rename_i dir hdir
          split at hmove
          · rw [← (Prod.mk.inj hmove).1]
            exact fun place => .inl rfl
          · rename_i made hmade
            split at hmove
            · rw [← (Prod.mk.inj hmove).1]
              intro place
              rw [← parent_join hname' hdir]
              exact FileTree.createDirs_node hmade place
            · cases (Prod.mk.inj hmove).2
      · cases (Prod.mk.inj hplan).2

/-- The actions are done one after the other; `configPath` is where associations are written. -/
inductive Performed (options : ReconcileOptions) :
    ConfigTree → List ReconcileAction → ConfigTree → Prop
  | nil (tree : ConfigTree) : Performed options tree [] tree
  | cons {tree tree₁ tree' : ConfigTree} {configPath : Path} {action : ReconcileAction}
    {actions : List ReconcileAction}
    (hpath : action.kind = .associated → options.configPath = some configPath)
    (happlied : Applied options configPath action.source tree tree₁ action)
    (rest : Performed options tree₁ actions tree') :
    Performed options tree (action :: actions) tree'

/-- What a run with `--apply` comes to, where these actions are to be done. -/
inductive Comes (options : ReconcileOptions) (tree : ConfigTree) (actions : List ReconcileAction) :
    ConfigTree × Except ReconcileError (List ReconcileAction) → Prop
  | done {tree' : ConfigTree} (h : Performed options tree actions tree') :
    Comes options tree actions (tree', .ok actions)
  /-- An action fails that does something, and those before it have been done. -/
  | failed {k : Nat} {failing : ReconcileAction} {left tree' : ConfigTree} {error : ReconcileError}
    (hfailing : actions[k]? = some failing) (hkind : failing.kind ≠ .keepConfigured)
    (h : Performed options tree (actions.take k) left)
    (hmade : OnlyArchiveMade options left tree') :
    Comes options tree actions (tree', .error error)

theorem announce_kind_ne {options : ReconcileOptions} {timestampSuffix : Nat} {tree : ConfigTree}
    {entry : Path} (h : policyCoversPath options.policyConfig entry = false) :
    (announce options timestampSuffix tree entry).kind.carriedOut ≠ .keepConfigured := by
  rw [announce, h, if_neg (by decide)]
  cases findAssociatedBinary tree entry options.binaryDirs <;>
    simp [ActionKind.carriedOut]

/-- What the entries to come lead to is what was announced for them. -/
theorem Standing.comes {options : ReconcileOptions} (happly : options.apply = true)
    (hbinaries : BinariesApart options) (clock clock' : Path → Nat) {tree now : ConfigTree}
    {taken : List (List Component)} {entries : List Path}
    (h : Standing options tree taken entries now)
    (hnames : ∀ e ∈ entries, ∃ name, Path.IsName name ∧ e = options.configHome.join ⟨name⟩)
    (hnodup : entries.Nodup) :
    Comes options now
      (carryOut options clock' tree taken ((turns options tree entries).map fun entry =>
        announce options (clock entry) tree entry))
      (planEntries options clock' entries now) := by
  induction entries generalizing taken now with
  | nil => exact .done (.nil now)
  | cons entry entries ih =>
    have hnames' := (List.forall_mem_cons.mp hnames).2
    rw [List.nodup_cons] at hnodup
    have hskip := ih h.skip hnames' hnodup.2
    cases harchive : isArchiveDir entry options.archiveDir with
    | true =>
      have hturns : turns options tree (entry :: entries) = turns options tree entries :=
        List.filter_cons_of_neg (by simp [harchive])
      rwa [hturns, planEntries, if_pos harchive]
    | false =>
      have hsame := h.isDir entry List.mem_cons_self harchive
      cases hdir : now.isDir entry.components with
      | false =>
        have hturns : turns options tree (entry :: entries) = turns options tree entries :=
          List.filter_cons_of_neg (by simp [← hsame, hdir])
        rwa [hturns, planEntries, harchive, hdir, if_neg (by decide), if_pos (by decide)]
      | true =>
        have hturns : turns options tree (entry :: entries) = entry :: turns options tree entries :=
          List.filter_cons_of_pos (by simp [harchive, ← hsame, hdir])
        have hentry := isEntry_of_not_archive (hnames _ List.mem_cons_self) harchive
        rw [hturns, List.map_cons, carryOut, planEntries, harchive, hdir, if_neg (by decide),
          if_neg (by decide)]
        generalize hannounced : announce options (clock entry) tree entry = announced
        cases hplan : planEntry entry options (clock' entry) now with
        | mk next result =>
          cases result with
          | error error =>
            obtain ⟨hmade, huncovered⟩ := planEntry_failed happly hentry hplan
            refine .failed (k := 0) rfl ?_ (.nil now) hmade
            rw [ConfigGuard.carriedOut, ← hannounced]
            exact announce_kind_ne huncovered
          | ok action =>
            obtain ⟨haction, configPath, hpath, happlied⟩ :=
              h.carriedOut happly clock' (clock entry) hplan
            rw [hannounced] at haction
            rw [← haction]
            have hrest := ih (h.turn hbinaries hentry hnames' hnodup.1 hdir happlied) hnames' hnodup.2
            rw [← happlied.source_eq] at happlied
            dsimp only
            generalize hactions : carryOut options clock' tree _ _ = actions at hrest ⊢
            cases hlater : planEntries options clock' entries next with
            | mk tree' result =>
              rw [hlater] at hrest
              cases hrest with
              | done hdone => exact .done (.cons hpath happlied hdone)
              | @failed k failing left tree' error hfailing hkind hdone hmade =>
                exact .failed (k := k + 1) hfailing hkind (.cons hpath happlied hdone) hmade

/-- The plan for the outcome of a run. -/
def planned :
    ConfigTree × Except ReconcileError (List ReconcileAction) →
      ConfigTree × Except ReconcileError ReconcilePlan
  | (tree, .error error) => (tree, .error error)
  | (tree, .ok actions) => (tree, .ok ⟨actions⟩)

theorem planReconcile_announces {options : ReconcileOptions} (happly : options.apply = true)
    (clock clock' : Path → Nat) (tree : ConfigTree) :
    (∃ error, ∀ apply clock,
      planReconcile { options with apply := apply } clock tree = (tree, .error error)) ∨
    ∃ announced, planReconcile { options with apply := false } clock tree =
        (tree, .ok ⟨announced⟩) ∧
      (Rooted options tree → BinariesApart options →
        ∃ outcome, Comes options tree (carryOut options clock' tree [] announced) outcome ∧
          planReconcile options clock' tree = planned outcome) := by
  cases hentries : configHomeEntries options.configHome tree with
  | error error =>
    refine .inl ⟨error, fun apply clock => ?_⟩
    rw [planReconcile, hentries]
  | ok entries =>
    refine .inr ⟨(turns options tree entries).map fun entry =>
      announce options (clock entry) tree entry, ?_, ?_⟩
    · rw [planReconcile, hentries]
      dsimp only
      rw [planEntries_announce (by rfl)]
      rfl
    · intro hrooted hbinaries
      have hnames : ∀ entry ∈ entries,
          ∃ name, Path.IsName name ∧ entry = options.configHome.join ⟨name⟩ := by
        intro entry hentry
        obtain ⟨name, hname, heq, -⟩ := (mem_configHomeEntries hentries).mp hentry
        exact ⟨name, hname, heq⟩
      have hstart : Standing options tree [] entries tree := .start hrooted entries
      refine ⟨planEntries options clock' entries tree, hstart.comes happly hbinaries clock clock'
        hnames (configHomeEntries_nodup hentries), ?_⟩
      rw [planReconcile, hentries]
      dsimp only
      cases planEntries options clock' entries tree with
      | mk left result => cases result <;> rfl

theorem commandOptions_with (env : Variables) (configHome : Path) (policyConfig : PolicyConfig)
    (configPath : Option Path) (apply : Bool) :
    commandOptions env configHome policyConfig configPath apply =
      { commandOptions env configHome policyConfig configPath true with apply := apply } := by
  rw [commandOptions_eq, commandOptions_eq]

/-- What the command prints for the outcome of a run. -/
def printed :
    ConfigTree × Except ReconcileError (List ReconcileAction) →
      ConfigTree × Except CommandError (List String)
  | (tree, .error error) => (tree, .error (.reconciling error))
  | (tree, .ok actions) => (tree, .ok (actions.map reconcileLine))

/-- Without `--apply` the command changes nothing, and announces what it does with
`--apply` from the same tree: the same directories, owners and binaries in the same order, and
the same targets, but where a name is in the archive by then. If an action fails, those
announced before it have been done, and nothing else but that the archive may have been made.
Where the policy or the configuration home is not found, neither does anything. -/
theorem dry_run_announces (parse : String → Option PolicyConfig) (env : Variables)
    (configHomeArg config : Option Path) (clock clock' : Path → Nat) (tree : ConfigTree) :
    (∃ error, ∀ apply clock,
      runReconcile parse env configHomeArg config apply clock tree = (tree, .error error)) ∨
    ∃ configHome policyConfig announced,
      let options :=
        commandOptions env configHome policyConfig (resolveConfigPath env tree config) true
      configHomeArg.or env.configHome = some configHome ∧
        loadResolvedConfig parse env tree (resolveConfigPath env tree config) = .ok policyConfig ∧
        runReconcile parse env configHomeArg config false clock tree =
          (tree, .ok (announced.map reconcileLine)) ∧
        (Rooted options tree → BinariesApart options →
          ∃ outcome, Comes options tree (carryOut options clock' tree [] announced) outcome ∧
            runReconcile parse env configHomeArg config true clock' tree = printed outcome) := by
  unfold runReconcile
  dsimp only
  cases hload : loadResolvedConfig parse env tree (resolveConfigPath env tree config) with
  | error error => exact .inl ⟨error, fun _ _ => rfl⟩
  | ok policyConfig =>
    cases hhome : configHomeArg.or env.configHome with
    | none => exact .inl ⟨.noConfigHome, fun _ _ => rfl⟩
    | some configHome =>
      have happly : (commandOptions env configHome policyConfig
          (resolveConfigPath env tree config) true).apply = true := by
        rw [commandOptions_eq]
      rcases planReconcile_announces happly clock clock' tree with
        ⟨error, herror⟩ | ⟨announced, hdry, hcomes⟩
      · refine .inl ⟨.reconciling error, fun apply clock => ?_⟩
        dsimp only
        rw [commandOptions_with, herror apply clock]
      · refine .inr ⟨configHome, policyConfig, announced, rfl, rfl, ?_, ?_⟩
        · dsimp only
          rw [commandOptions_with, hdry]
        · intro hrooted hbinaries
          obtain ⟨outcome, houtcome, hplan⟩ := hcomes hrooted hbinaries
          refine ⟨outcome, houtcome, ?_⟩
          dsimp only
          rw [hplan]
          obtain ⟨left, result⟩ := outcome
          cases result <;> rfl

/-- One directory is associated and one is archived, with the policy in a file apart. -/
def twoTools : ConfigTree :=
  treeOf [(Path.ofString "/", .dir), (Path.ofString "/c", .dir), (Path.ofString "/c/gh", .dir),
    (Path.ofString "/c/old", .dir), (Path.ofString "/bin", .dir),
    (Path.ofString "/bin/gh", .file []), (Path.ofString "/p", .file [])]

def toolsVariables : Variables where
  xdgConfigHome := some (Path.ofString "/c")
  home := none
  path := [Path.ofString "/bin"]

def runTools (apply : Bool) : ConfigTree × Except CommandError (List String) :=
  runReconcile emptyParse toolsVariables none (some (Path.ofString "/p")) apply (fun _ => 0) twoTools

def announcedLines : List String :=
  ["associate-candidate\t/c/gh\towner=gh\tbinary=/bin/gh\tassociated binary found",
    "archive-candidate\t/c/old\t/c/archive/old\tassociated binary not found"]

theorem dry_run_announces_twoTools :
    ∃ announced outcome, announced.map reconcileLine = announcedLines ∧
      runTools false = (twoTools, .ok (announced.map reconcileLine)) ∧
      Comes (commandOptions toolsVariables (Path.ofString "/c") {} (some (Path.ofString "/p")) true)
        twoTools
        (carryOut (commandOptions toolsVariables (Path.ofString "/c") {}
          (some (Path.ofString "/p")) true) (fun _ => 0) twoTools [] announced) outcome ∧
      runTools true = printed outcome := by
  have hlines : (runTools false).2 = .ok announcedLines := by decide +kernel
  rcases dry_run_announces emptyParse toolsVariables none (some (Path.ofString "/p")) (fun _ => 0)
    (fun _ => 0) twoTools with ⟨error, herror⟩ | ⟨_, _, announced, hhome, hload, hdry, hcomes⟩
  · rw [runTools, herror] at hlines
    cases hlines
  · obtain rfl := Option.some.inj hhome
    obtain rfl := Except.ok.inj hload
    have hrooted : ∀ place ∈ (Path.ofString "/c").components.inits, place ≠ [] →
        twoTools.isDir place = true := by decide +kernel
    obtain ⟨outcome, houtcome, hrun⟩ := hcomes
      (fun place hne hpre => hrooted place ((List.mem_inits _ _).mpr hpre) hne)
      (by rw [BinariesApart]; decide +kernel)
    rw [runTools, hdry] at hlines
    exact ⟨announced, outcome, Except.ok.inj hlines, hdry, houtcome, hrun⟩

end ConfigGuard
