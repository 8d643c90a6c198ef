import ConfigGuard.Reconcile.Entries

/-!
# Directories with a binary of the same name

The names a binary is looked for under are derived from the name of the
directory, and the name itself need not be among them.
-/

namespace ConfigGuard
open OsPath

theorem mem_foldl_pushNew {candidates owners : List (List Char)} {c : List Char} :
    c ∈ candidates.foldl pushNew owners ↔ c ∈ owners ∨ c ∈ candidates ∧ c ≠ [] := by
  induction candidates generalizing owners with
  | nil => simp
  | cons candidate candidates ih =>
    have hpush : c ∈ pushNew owners candidate ↔ c ∈ owners ∨ c = candidate ∧ c ≠ [] := by
      unfold pushNew
      split
      · rename_i hnew
        rw [List.mem_append, List.mem_singleton]
        constructor
        · rintro (h | rfl)
          · exact .inl h
          · exact .inr ⟨rfl, hnew.1⟩
        · rintro (h | ⟨rfl, -⟩)
          · exact .inl h
          · exact .inr rfl
      · rename_i hold
        constructor
        · exact .inl
        · rintro (h | ⟨rfl, hne⟩)
          · exact h
          · by_contra hnot
            exact hold ⟨hne, hnot⟩
    rw [List.foldl_cons, ih, hpush, List.mem_cons]
    tauto

theorem mem_ownerNames {name c : List Char} :
    c ∈ ownerNames name ↔ c ∈ ownerCandidates name ∧ c ≠ [] := by
  rw [ownerNames, mem_foldl_pushNew]
  simp

/-- Nothing is cut off the name. -/
def Untouched (name : List Char) : Prop :=
  name.head? ≠ some '.' ∧ name.head? ≠ some '@' ∧ ¬ cliSuffix <:+ name

theorem isSuffixOf?_eq_some {pre suffix text : List Char} :
    suffix.isSuffixOf? text = some pre ↔ pre ++ suffix = text := by
  rw [List.isSuffixOf?, Option.map_eq_some_iff]
  constructor
  · rintro ⟨rest, hrest, rfl⟩
    rw [List.isPrefixOf?_eq_some_iff_append_eq] at hrest
    rw [← List.reverse_reverse text, ← hrest, List.reverse_append, List.reverse_reverse]
  · rintro rfl
    refine ⟨pre.reverse, ?_, List.reverse_reverse _⟩
    rw [List.isPrefixOf?_eq_some_iff_append_eq, List.reverse_append]

theorem baseName_length_le (name : List Char) : (baseName name).length ≤ name.length :=
  (List.dropWhile_suffix _).length_le

theorem baseName_cons_ne {c : Char} (rest : List Char) (hc : (c == '.' || c == '@') = true) :
    baseName (c :: rest) ≠ c :: rest := by
  intro h
  have hdrop := congrArg List.length h
  rw [baseName, List.dropWhile_cons, hc, if_pos rfl, ← baseName, List.length_cons] at hdrop
  have hlength := baseName_length_le rest
  omega

theorem withoutCli_length_le (name : List Char) :
    (withoutCli name).length ≤ (baseName name).length := by
  rw [withoutCli]
  cases hsuffix : cliSuffix.isSuffixOf? (baseName name) with
  | none => exact Nat.le_refl _
  | some pre =>
    rw [← isSuffixOf?_eq_some.mp hsuffix, Option.getD_some, List.length_append]
    exact Nat.le_add_right _ _

theorem withoutCli_of_untouched {name : List Char} (h : Untouched name) : withoutCli name = name := by
  obtain ⟨hdot, hat, hcli⟩ := h
  have hbase : baseName name = name := by
    cases name with
    | nil => rfl
    | cons c cs =>
      rw [List.head?_cons, Ne, Option.some.injEq] at hdot hat
      rw [baseName, List.dropWhile_cons_of_neg (by simp [hdot, hat])]
  rw [withoutCli, hbase]
  cases hsuffix : cliSuffix.isSuffixOf? name with
  | none => rfl
  | some pre => exact absurd ⟨pre, isSuffixOf?_eq_some.mp hsuffix⟩ hcli

/-- What is cut off the name is missing in all that is derived from it. -/
theorem withoutCli_length_lt {name : List Char} (h : ¬ Untouched name) :
    (withoutCli name).length < name.length := by
  by_cases hbase : baseName name = name
  · have hcli : cliSuffix <:+ name := by
      by_contra hcli
      refine h ⟨?_, ?_, hcli⟩
      · intro hdot
        obtain ⟨rest, rfl⟩ := List.head?_eq_some_iff.mp hdot
        exact baseName_cons_ne rest rfl hbase
      · intro hat
        obtain ⟨rest, rfl⟩ := List.head?_eq_some_iff.mp hat
        exact baseName_cons_ne rest rfl hbase
    -- the ending is cut off
    obtain ⟨pre, hpre⟩ := hcli
    rw [withoutCli, hbase, isSuffixOf?_eq_some.mpr hpre, ← hpre, Option.getD_some,
      List.length_append]
    exact Nat.lt_add_of_pos_right (by decide)
  -- the beginning is cut off
  · have hshort : (baseName name).length < name.length := by
      refine Nat.lt_of_le_of_ne (baseName_length_le name) ?_
      intro hlength
      exact hbase ((List.dropWhile_suffix _).eq_of_length hlength)
    exact Nat.lt_of_le_of_lt (withoutCli_length_le name) hshort

theorem length_replaceSpace_le {replacement : List Char} (h : replacement.length ≤ 1)
    (text : List Char) : (replaceSpace replacement text).length ≤ text.length := by
  induction text with
  | nil => exact Nat.le_refl _
  | cons c cs ih =>
    rw [replaceSpace, List.flatMap_cons, List.length_append, ← replaceSpace, List.length_cons]
    split
    · omega
    · rw [List.length_singleton]
      omega

theorem length_le_of_mem_ownerCandidates {name c : List Char} (h : c ∈ ownerCandidates name) :
    c.length ≤ (withoutCli name).length := by
  simp only [ownerCandidates, List.mem_cons, List.not_mem_nil, or_false] at h
  rcases h with rfl | rfl | rfl | rfl
  · exact Nat.le_refl _
  · rw [toAsciiLowercase, List.length_map]
  · rw [toAsciiLowercase, List.length_map]
    exact length_replaceSpace_le (by decide) _
  · rw [toAsciiLowercase, List.length_map]
    exact length_replaceSpace_le (by decide) _

/-- A name is among those derived from it exactly when nothing is cut off it. -/
theorem mem_ownerNames_self {name : List Char} (hne : name ≠ []) :
    name ∈ ownerNames name ↔ Untouched name := by
  rw [mem_ownerNames]
  constructor
  · rintro ⟨hmem, -⟩
    by_contra htouched
    have hle := length_le_of_mem_ownerCandidates hmem
    have hlt := withoutCli_length_lt htouched
    omega
  · intro h
    refine ⟨?_, hne⟩
    rw [ownerCandidates, withoutCli_of_untouched h]
    exact List.mem_cons_self

/-- A binary of this name is in one of the directories. -/
def HasBinary (tree : ConfigTree) (binaryDirs : List Path) (name : String) : Prop :=
  ∃ dir ∈ binaryDirs, pathExists tree (dir.join (Path.ofString name)) = true

theorem binaryFor_isSome {tree : ConfigTree} {binaryDirs : List Path} {owner : String} :
    (binaryFor tree binaryDirs owner).isSome = true ↔ HasBinary tree binaryDirs owner := by
  rw [binaryFor, Option.isSome_map, List.find?_isSome]
  constructor
  · rintro ⟨path, hpath, hexists⟩
    obtain ⟨dir, hdir, rfl⟩ := List.mem_map.mp hpath
    exact ⟨dir, hdir, hexists⟩
  · rintro ⟨dir, hdir, hexists⟩
    exact ⟨_, List.mem_map_of_mem hdir, hexists⟩

theorem findAssociatedBinary_isSome {tree : ConfigTree} {entry : Path} {binaryDirs : List Path}
    {text : String} (hname : entry.fileName.bind toStr = some text) :
    (findAssociatedBinary tree entry binaryDirs).isSome = true ↔
      ∃ owner ∈ ownerNames text.toList, HasBinary tree binaryDirs (String.ofList owner) := by
  rw [findAssociatedBinary, ownerNamesForEntry, hname]
  dsimp only
  split
  · rename_i hnone
    split at hnone
    · rename_i howners
      rw [howners]
      simp
    · cases hnone
  · rename_i owners hsome
    split at hsome
    · cases hsome
    · rw [← Option.some.inj hsome, List.findSome?_isSome_iff]
      constructor
      · rintro ⟨owner, howner, hbinary⟩
        obtain ⟨name, hname, rfl⟩ := List.mem_map.mp howner
        exact ⟨name, hname, binaryFor_isSome.mp hbinary⟩
      · rintro ⟨name, hname, hinstalled⟩
        exact ⟨_, List.mem_map_of_mem hname, binaryFor_isSome.mpr hinstalled⟩

/-- An entry that is not covered is associated exactly when a binary is found. -/
theorem planEntry_associates {entry : Path} {options : ReconcileOptions} {timestampSuffix : Nat}
    {tree tree' : ConfigTree} {action : ReconcileAction}
    (huncovered : policyCoversPath options.policyConfig entry = false)
    (h : planEntry entry options timestampSuffix tree = (tree', .ok action)) :
    action.kind = appliedKind options.apply .associated .associateCandidate ↔
      (findAssociatedBinary tree entry options.binaryDirs).isSome = true := by
  rw [planEntry, huncovered, if_neg (by decide)] at h
  split at h
  · rename_i found hfound
    rw [hfound]
    exact iff_of_true (associationAction_ok h).2 rfl
  · rename_i hnone
    rw [hnone, (archiveAction_ok h).2, appliedKind, appliedKind]
    split <;> simp

/-- The loop over the entries comes to this directory with this tree. -/
structure Turn (options : ReconcileOptions) (clock : Path → Nat) (tree : ConfigTree) (entry : Path)
    (before : ConfigTree) : Prop where
  notArchive : isArchiveDir entry options.archiveDir = false
  isDir : before.isDir entry.components = true
  reached : ∃ earlier later actions,
    configHomeEntries options.configHome tree = .ok (earlier ++ entry :: later) ∧
      planEntries options clock earlier tree = (before, .ok actions)

/-- The plan has one action for an entry, which is what was decided in its turn. -/
theorem Turn.planned {options : ReconcileOptions} {clock : Path → Nat} {tree before tree' : ConfigTree}
    {entry : Path} (hturn : Turn options clock tree entry before) {plan : ReconcilePlan}
    (hplan : planReconcile options clock tree = (tree', .ok plan)) :
    ∃ after action, planEntry entry options (clock entry) before = (after, .ok action) ∧
      action ∈ plan.actions ∧ ∀ other ∈ plan.actions, other.source = entry → other = action := by
  obtain ⟨earlier, later, actions, hentries, hbefore⟩ := hturn.reached
  obtain ⟨entries, hentries', hrun⟩ := planReconcile_ok hplan
  rw [hentries] at hentries'
  obtain rfl := Except.ok.inj hentries'
  have hnew := (List.nodup_cons.mp (List.nodup_middle.mp (configHomeEntries_nodup hentries))).1
  obtain ⟨rest, hrest, hactions⟩ := planEntries_append_ok hbefore hrun
  rw [hactions]
  obtain ⟨hskip, -⟩ | ⟨-, -, after, action, rest, hentry, hlater, rfl⟩ := planEntries_cons_ok hrest
  · rw [hturn.notArchive, hturn.isDir] at hskip
    rcases hskip with h | h <;> cases h
  · refine ⟨after, action, hentry, List.mem_append_right _ List.mem_cons_self, ?_⟩
    intro other hother hsource
    rcases List.mem_append.mp hother with hother | hother
    · have hmem := planEntries_source hbefore hother
      exact absurd (List.mem_append_left _ (hsource ▸ hmem)) hnew
    · rcases List.mem_cons.mp hother with rfl | hother
      · rfl
      · have hmem := planEntries_source hlater hother
        exact absurd (List.mem_append_right _ (hsource ▸ hmem)) hnew

theorem associationAction_error {entry : Path} {options : ReconcileOptions} {found : BinaryMatch}
    {tree tree' : ConfigTree} {error : ReconcileError}
    (h : associationAction entry options found tree = (tree', .error error)) :
    error = .missingConfigPath ∨ ∃ path, error = .reading path ∨ error = .writing path := by
  rw [associationAction] at h
  split at h
  · split at h
    · rename_i failed hfailed
      obtain rfl := Except.error.inj (Prod.mk.inj h).2
      unfold appendOwnedPath at hfailed
      split at hfailed
      · exact .inl (Except.error.inj hfailed).symm
      · rename_i path hpath
        split at hfailed
        · exact .inr ⟨path, .inl (Except.error.inj hfailed).symm⟩
        · split at hfailed
          · exact .inr ⟨path, .inr (Except.error.inj hfailed).symm⟩
          · cases hfailed
    · cases (Prod.mk.inj h).2
  · cases (Prod.mk.inj h).2

theorem archiveAction_error {entry : Path} {options : ReconcileOptions} {timestampSuffix : Nat}
    {tree tree' : ConfigTree} {error : ReconcileError}
    (h : archiveAction entry options timestampSuffix tree = (tree', .error error)) :
    error = .targetWithoutParent ∨
      ∃ dir, error = .creating dir ∨ ∃ target, error = .moving entry target := by
  rw [archiveAction] at h
  split at h
  · split at h
    · rename_i failed hfailed
      obtain rfl := Except.error.inj (Prod.mk.inj h).2
      unfold moveToArchive at hfailed
      split at hfailed
      · exact .inl (Except.error.inj (Prod.mk.inj hfailed).2).symm
      · rename_i dir hdir
        refine .inr ⟨dir.1, ?_⟩
        split at hfailed
        · exact .inl (Except.error.inj (Prod.mk.inj hfailed).2).symm
        · split at hfailed
          · exact .inr ⟨_, (Except.error.inj (Prod.mk.inj hfailed).2).symm⟩
          · cases (Prod.mk.inj hfailed).2
    · cases (Prod.mk.inj h).2
  · cases (Prod.mk.inj h).2

/-- The two ways of handling an entry differ, also in how they fail. -/
theorem associationAction_ne_archiveAction (entry : Path) (options : ReconcileOptions)
    (found : BinaryMatch) (timestampSuffix : Nat) (tree : ConfigTree) :
    associationAction entry options found tree ≠
      archiveAction entry options timestampSuffix tree := by
  intro heq
  cases hassociated : associationAction entry options found tree with
  | mk tree₁ result =>
    rw [hassociated] at heq
    cases result with
    | ok action =>
      have hkind := (associationAction_ok hassociated).2
      rw [(archiveAction_ok heq.symm).2, appliedKind, appliedKind] at hkind
      split at hkind <;> cases hkind
    | error error =>
      rcases associationAction_error hassociated with rfl | ⟨path, rfl | rfl⟩ <;>
        rcases archiveAction_error heq.symm with h | ⟨dir, h | ⟨target, h⟩⟩ <;> cases h

theorem fileText_ne_nil {entry : Path} {text : String}
    (h : entry.fileName.bind toStr = some text) : text.toList ≠ [] := by
  obtain ⟨name, hname, htext⟩ := Option.bind_eq_some_iff.mp h
  rw [Path.fileName] at hname
  split at hname
  · rename_i last hlast
    obtain rfl := Option.some.inj hname
    intro hempty
    rw [String.toList_eq_nil_iff] at hempty
    have hnil := utf8_of_toStr htext
    rw [hempty] at hnil
    exact (Path.isComponent_of_mem (List.mem_of_getLast? hlast) _ rfl).nonempty hnil.symm
  · cases hname

/-- A directory the policy does not cover is associated, and not archived,
exactly when its own name is looked for and there, or another of the derived
names is. -/
theorem association_iff {options : ReconcileOptions} {clock : Path → Nat} {tree before : ConfigTree}
    {entry : Path} (hturn : Turn options clock tree entry before) {text : String}
    (hname : entry.fileName.bind toStr = some text)
    (huncovered : policyCoversPath options.policyConfig entry = false) :
    ((∃ found, planEntry entry options (clock entry) before =
        associationAction entry options found before) ↔
      (Untouched text.toList ∧ HasBinary before options.binaryDirs text) ∨
        ∃ owner ∈ ownerNames text.toList, owner ≠ text.toList ∧
          HasBinary before options.binaryDirs (String.ofList owner)) ∧
    ∀ tree' plan, planReconcile options clock tree = (tree', .ok plan) →
      ∃ action ∈ plan.actions, (∀ other ∈ plan.actions, other.source = entry → other = action) ∧
        (action.kind = appliedKind options.apply .associated .associateCandidate ↔
          (Untouched text.toList ∧ HasBinary before options.binaryDirs text) ∨
            ∃ owner ∈ ownerNames text.toList, owner ≠ text.toList ∧
              HasBinary before options.binaryDirs (String.ofList owner)) := by
  have hfound : (findAssociatedBinary before entry options.binaryDirs).isSome = true ↔
      (Untouched text.toList ∧ HasBinary before options.binaryDirs text) ∨
        ∃ owner ∈ ownerNames text.toList, owner ≠ text.toList ∧
          HasBinary before options.binaryDirs (String.ofList owner) := by
    have hne := fileText_ne_nil hname
    rw [findAssociatedBinary_isSome hname]
    constructor
    -- its own name is looked for only if nothing is cut off it
    · rintro ⟨owner, howner, hinstalled⟩
      by_cases hself : owner = text.toList
      · subst hself
        rw [String.ofList_toList] at hinstalled
        exact .inl ⟨(mem_ownerNames_self hne).mp howner, hinstalled⟩
      · exact .inr ⟨owner, howner, hself, hinstalled⟩
    · rintro (⟨huntouched, hinstalled⟩ | ⟨owner, howner, -, hinstalled⟩)
      · refine ⟨text.toList, (mem_ownerNames_self hne).mpr huntouched, ?_⟩
        rwa [String.ofList_toList]
      · exact ⟨owner, howner, hinstalled⟩
  rw [← hfound]
  refine ⟨?_, ?_⟩
  · rw [planEntry, huncovered, if_neg (by decide)]
    split
    · rename_i found hsome
      rw [hsome]
      exact iff_of_true ⟨found, rfl⟩ rfl
    · rename_i hnone
      rw [hnone]
      refine iff_of_false ?_ (by decide)
      rintro ⟨found, heq⟩
      exact associationAction_ne_archiveAction _ _ _ _ _ heq.symm
  · intro tree' plan hplan
    obtain ⟨after, action, hentry, hmem, hunique⟩ := hturn.planned hplan
    exact ⟨action, hmem, hunique, planEntry_associates huncovered hentry⟩

/-- One directory of the configuration home, and one binary. -/
def oneTool (entry binary : String) : ConfigTree :=
  treeOf [(Path.ofString "/c", .dir), (Path.ofString ("/c/" ++ entry), .dir),
    (Path.ofString "/bin", .dir), (Path.ofString ("/bin/" ++ binary), .file [])]

def oneToolOptions : ReconcileOptions := .new (Path.ofString "/c") {} [Path.ofString "/bin"]

theorem association_gh :
    ∃ found, planEntry (Path.ofString "/c/gh") oneToolOptions 0 (oneTool "gh" "gh") =
      associationAction (Path.ofString "/c/gh") oneToolOptions found (oneTool "gh" "gh") := by
  have hlisted : configHomeEntries (Path.ofString "/c") (oneTool "gh" "gh") =
      .ok [Path.ofString "/c/gh"] := by decide +kernel
  have hturn : Turn oneToolOptions (fun _ => 0) (oneTool "gh" "gh") (Path.ofString "/c/gh")
      (oneTool "gh" "gh") := ⟨by decide, by decide, [], [], [], hlisted, rfl⟩
  have hname : (Path.ofString "/c/gh").fileName.bind toStr = some "gh" := by decide +kernel
  refine (association_iff hturn hname (by decide)).1.mpr (.inl ⟨⟨by decide, by decide, ?_⟩, ?_⟩)
  · rw [List.suffix_iff_eq_append]
    decide
  · exact ⟨Path.ofString "/bin", by decide, by decide⟩

/-- The configuration of `gmail-cli` is archived with the binary `gmail-cli` there. -/
theorem gmail_cli_archived :
    ¬ ∀ (options : ReconcileOptions) (clock : Path → Nat) (tree tree' : ConfigTree)
        (plan : ReconcilePlan) (text : String),
      planReconcile options clock tree = (tree', .ok plan) →
      ∀ action ∈ plan.actions, action.source.fileName.bind toStr = some text →
        policyCoversPath options.policyConfig action.source = false →
        HasBinary tree options.binaryDirs text →
        action.kind = appliedKind options.apply .associated .associateCandidate := by
  intro h
  let action : ReconcileAction :=
    { kind := .archiveCandidate
      source := Path.ofString "/c/gmail-cli"
      target := some (Path.ofString "/c/archive/gmail-cli")
      owner := none
      binary := none
      reason := "associated binary not found" }
  have hplan : (planReconcile oneToolOptions (fun _ => 0) (oneTool "gmail-cli" "gmail-cli")).2 =
      .ok ⟨[action]⟩ := by decide +kernel
  have hname : action.source.fileName.bind toStr = some "gmail-cli" := by decide +kernel
  have hkind := h oneToolOptions (fun _ => 0) (oneTool "gmail-cli" "gmail-cli") _ ⟨[action]⟩
    "gmail-cli" (Prod.ext rfl hplan) action List.mem_cons_self hname (by decide)
    ⟨Path.ofString "/bin", by decide, by decide⟩
  cases hkind

end ConfigGuard
