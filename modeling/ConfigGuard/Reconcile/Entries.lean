import ConfigGuard.Reconcile.Plan

/-!
# The entries a plan is made of

They are listed once, in order, and each of them has its turn with the tree
that the turns before it left.
-/

namespace ConfigGuard
open OsPath

theorem mem_readDir {tree : ConfigTree} {dir : Path} {names : List Bytes}
    (h : readDir tree dir = some names) {name : Bytes} :
    name ∈ names ↔ (tree.node (dir.components ++ [.normal name])).isSome = true := by
  rw [readDir] at h
  split at h
  · rw [← Option.some.inj h, ← FileTree.mem_children, List.mem_filterMap]
    constructor
    · rintro ⟨c, hc, hname⟩
      split at hname
      · rw [← Option.some.inj hname]
        exact hc
      · cases hname
    · intro hc
      exact ⟨_, hc, rfl⟩
  · cases h

theorem isName_of_mem_readDir {tree : ConfigTree} {dir : Path} {names : List Bytes}
    (h : readDir tree dir = some names) {name : Bytes} (hname : name ∈ names) :
    Path.IsName name := by
  rw [mem_readDir h, ← FileTree.mem_children] at hname
  exact FileTree.good_of_mem_children hname name rfl

theorem nodup_readDir {tree : ConfigTree} {dir : Path} {names : List Bytes}
    (h : readDir tree dir = some names) : names.Nodup := by
  rw [readDir] at h
  split at h
  · rw [← Option.some.inj h]
    refine (FileTree.nodup_children tree dir.components).filterMap ?_
    intro c c' name hname hname'
    rw [Option.mem_def] at hname hname'
    split at hname <;> split at hname' <;> simp_all
  · cases h

section

variable {home : Path} {tree : ConfigTree} {entries : List Path}
  (h : configHomeEntries home tree = .ok entries)

include h

theorem configHomeEntries_ok :
    ∃ names, readDir tree home = some names ∧
      entries = (names.map fun name => home.join ⟨name⟩).insertionSort Path.Le := by
  unfold configHomeEntries at h
  split at h
  · cases h
  · rename_i names hnames
    exact ⟨names, hnames, (Except.ok.inj h).symm⟩

theorem mem_configHomeEntries {entry : Path} :
    entry ∈ entries ↔ ∃ name, Path.IsName name ∧ entry = home.join ⟨name⟩ ∧
      (tree.node entry.components).isSome = true := by
  obtain ⟨names, hnames, rfl⟩ := configHomeEntries_ok h
  rw [List.mem_insertionSort, List.mem_map]
  constructor
  · rintro ⟨name, hname, rfl⟩
    have hisName := isName_of_mem_readDir hnames hname
    refine ⟨name, hisName, rfl, ?_⟩
    rw [Path.components_join hisName]
    exact (mem_readDir hnames).mp hname
  · rintro ⟨name, hisName, rfl, hnode⟩
    rw [Path.components_join hisName] at hnode
    exact ⟨name, (mem_readDir hnames).mpr hnode, rfl⟩

/-- The entries come in strictly increasing order. -/
theorem configHomeEntries_sorted : entries.Pairwise fun a b => a.cmp b = .lt := by
  obtain ⟨names, hnames, rfl⟩ := configHomeEntries_ok h
  apply Path.pairwise_lt_insertionSort
  rw [List.map_map]
  refine (nodup_readDir hnames).map_on ?_
  intro x hx y hy heq
  rw [Function.comp_apply, Function.comp_apply,
    Path.components_join (isName_of_mem_readDir hnames hx),
    Path.components_join (isName_of_mem_readDir hnames hy)] at heq
  have hname := List.append_cancel_left heq
  rw [List.singleton_inj, Component.normal.injEq] at hname
  exact hname

theorem configHomeEntries_nodup : entries.Nodup := by
  refine (configHomeEntries_sorted h).imp ?_
  rintro a b hlt rfl
  rw [Path.cmp_eq_iff.mpr rfl] at hlt
  cases hlt

end

theorem associationAction_ok {entry : Path} {options : ReconcileOptions} {found : BinaryMatch}
    {tree tree' : ConfigTree} {action : ReconcileAction}
    (h : associationAction entry options found tree = (tree', .ok action)) :
    action.source = entry ∧
      action.kind = appliedKind options.apply .associated .associateCandidate := by
  rw [associationAction] at h
  split at h
  · split at h
    · cases (Prod.mk.inj h).2
    · rw [← Except.ok.inj (Prod.mk.inj h).2]
      exact ⟨rfl, rfl⟩
  · rw [← Except.ok.inj (Prod.mk.inj h).2]
    exact ⟨rfl, rfl⟩

theorem archiveAction_ok {entry : Path} {options : ReconcileOptions} {timestampSuffix : Nat}
    {tree tree' : ConfigTree} {action : ReconcileAction}
    (h : archiveAction entry options timestampSuffix tree = (tree', .ok action)) :
    action.source = entry ∧
      action.kind = appliedKind options.apply .archived .archiveCandidate := by
  rw [archiveAction] at h
  split at h
  · split at h
    · cases (Prod.mk.inj h).2
    · rw [← Except.ok.inj (Prod.mk.inj h).2]
      exact ⟨rfl, rfl⟩
  · rw [← Except.ok.inj (Prod.mk.inj h).2]
    exact ⟨rfl, rfl⟩

theorem planEntry_source {entry : Path} {options : ReconcileOptions} {timestampSuffix : Nat}
    {tree tree' : ConfigTree} {action : ReconcileAction}
    (h : planEntry entry options timestampSuffix tree = (tree', .ok action)) :
    action.source = entry := by
  rw [planEntry] at h
  split at h
  · rw [← Except.ok.inj (Prod.mk.inj h).2]
    rfl
  · split at h
    · exact (associationAction_ok h).1
    · exact (archiveAction_ok h).1

/-- An entry is passed over, or has an action before those of the rest. -/
theorem planEntries_cons_ok {options : ReconcileOptions} {clock : Path → Nat} {entry : Path}
    {entries : List Path} {tree tree' : ConfigTree} {actions : List ReconcileAction}
    (h : planEntries options clock (entry :: entries) tree = (tree', .ok actions)) :
    ((isArchiveDir entry options.archiveDir = true ∨ tree.isDir entry.components = false) ∧
        planEntries options clock entries tree = (tree', .ok actions)) ∨
      isArchiveDir entry options.archiveDir = false ∧ tree.isDir entry.components = true ∧
        ∃ tree₁ action rest, planEntry entry options (clock entry) tree = (tree₁, .ok action) ∧
          planEntries options clock entries tree₁ = (tree', .ok rest) ∧ actions = action :: rest := by
  rw [planEntries] at h
  split at h
  · rename_i harchive
    exact .inl ⟨.inl harchive, h⟩
  · rename_i harchive
    split at h
    · rename_i hdir
      exact .inl ⟨.inr (by simpa using hdir), h⟩
    · rename_i hdir
      refine .inr ⟨by simpa using harchive, by simpa using hdir, ?_⟩
      split at h
      · cases (Prod.mk.inj h).2
      · rename_i tree₁ action hplan
        cases hrest : planEntries options clock entries tree₁ with
        | mk tree₂ result =>
          rw [hrest] at h
          obtain ⟨rfl, hactions⟩ := Prod.mk.inj h
          cases result with
          | error error => cases hactions
          | ok rest => exact ⟨tree₁, action, rest, hplan, hrest, (Except.ok.inj hactions).symm⟩

theorem planEntries_source {options : ReconcileOptions} {clock : Path → Nat} {entries : List Path}
    {tree tree' : ConfigTree} {actions : List ReconcileAction}
    (h : planEntries options clock entries tree = (tree', .ok actions)) {action : ReconcileAction}
    (haction : action ∈ actions) : action.source ∈ entries := by
  induction entries generalizing tree actions with
  | nil =>
    rw [← Except.ok.inj (Prod.mk.inj h).2] at haction
    cases haction
  | cons entry entries ih =>
    obtain ⟨-, hrest⟩ | ⟨-, -, tree₁, first, rest, hfirst, hrest, rfl⟩ := planEntries_cons_ok h
    · exact List.mem_cons_of_mem _ (ih hrest haction)
    · rcases List.mem_cons.mp haction with rfl | haction
      · rw [planEntry_source hfirst]
        exact List.mem_cons_self
      · exact List.mem_cons_of_mem _ (ih hrest haction)

/-- The turns of the later entries begin where those of the earlier ones end. -/
theorem planEntries_append (options : ReconcileOptions) (clock : Path → Nat)
    (earlier later : List Path) (tree : ConfigTree) :
    planEntries options clock (earlier ++ later) tree =
      match planEntries options clock earlier tree with
      | (before, .error error) => (before, .error error)
      | (before, .ok actions) =>
        let (after, rest) := planEntries options clock later before
        (after, rest.map (actions ++ ·)) := by
  induction earlier generalizing tree with
  | nil =>
    rw [List.nil_append, planEntries]
    dsimp only
    cases hlater : planEntries options clock later tree with
    | mk after rest => cases rest <;> rfl
  | cons entry earlier ih =>
    rw [List.cons_append, planEntries, planEntries]
    split
    · exact ih tree
    · split
      · exact ih tree
      · split
        · rfl
        · rename_i tree₁ first hfirst
          rw [ih tree₁]
          cases hearlier : planEntries options clock earlier tree₁ with
          | mk before result =>
            cases result with
            | error error => rfl
            | ok actions =>
              dsimp only [Except.map]
              cases hlater : planEntries options clock later before with
              | mk after rest => cases rest <;> rfl

/-- A list that is gone through without error ends with the turns of its end. -/
theorem planEntries_append_ok {options : ReconcileOptions} {clock : Path → Nat}
    {earlier later : List Path} {tree before tree' : ConfigTree}
    {first actions : List ReconcileAction}
    (hbefore : planEntries options clock earlier tree = (before, .ok first))
    (h : planEntries options clock (earlier ++ later) tree = (tree', .ok actions)) :
    ∃ rest, planEntries options clock later before = (tree', .ok rest) ∧ actions = first ++ rest := by
  rw [planEntries_append, hbefore] at h
  dsimp only at h
  cases hlater : planEntries options clock later before with
  | mk after result =>
    rw [hlater] at h
    obtain ⟨rfl, hactions⟩ := Prod.mk.inj h
    cases result with
    | error error => cases hactions
    | ok rest => exact ⟨rest, rfl, (Except.ok.inj hactions).symm⟩

theorem planReconcile_ok {options : ReconcileOptions} {clock : Path → Nat} {tree tree' : ConfigTree}
    {plan : ReconcilePlan} (h : planReconcile options clock tree = (tree', .ok plan)) :
    ∃ entries, configHomeEntries options.configHome tree = .ok entries ∧
      planEntries options clock entries tree = (tree', .ok plan.actions) := by
  unfold planReconcile at h
  split at h
  · cases (Prod.mk.inj h).2
  · rename_i entries hentries
    refine ⟨entries, hentries, ?_⟩
    cases hplan : planEntries options clock entries tree with
    | mk tree₁ result =>
      rw [hplan] at h
      obtain ⟨rfl, hactions⟩ := Prod.mk.inj h
      cases result with
      | error error => cases hactions
      | ok actions =>
        rw [← Except.ok.inj hactions]

end ConfigGuard
