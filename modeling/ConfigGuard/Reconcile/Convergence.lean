import ConfigGuard.Reconcile.Coverage
import ConfigGuard.Reconcile.Entries
import ConfigGuard.Reconcile.Run

/-!
# Reconciling with `--apply` settles the configuration home

What a run leaves behind, and what there is to do for a second one.
-/

namespace ConfigGuard
open OsPath Std

/-- The entries gone through one after the other, as long as nothing fails. -/
inductive Run (options : ReconcileOptions) (configPath : Path) :
    ConfigTree → List Path → List ReconcileAction → ConfigTree → Prop
  | nil (tree : ConfigTree) : Run options configPath tree [] [] tree
  | skip {tree tree' : ConfigTree} {entry : Path} {entries : List Path}
    {actions : List ReconcileAction}
    (hskip : isArchiveDir entry options.archiveDir = true ∨ tree.isDir entry.components = false)
    (rest : Run options configPath tree entries actions tree') :
    Run options configPath tree (entry :: entries) actions tree'
  | apply {tree tree₁ tree' : ConfigTree} {entry : Path} {entries : List Path}
    {action : ReconcileAction} {actions : List ReconcileAction}
    (harchive : isArchiveDir entry options.archiveDir = false)
    (hdir : tree.isDir entry.components = true)
    (happlied : Applied options configPath entry tree tree₁ action)
    (rest : Run options configPath tree₁ entries actions tree') :
    Run options configPath tree (entry :: entries) (action :: actions) tree'

theorem planEntries_run {options : ReconcileOptions} {configPath : Path}
    (happly : options.apply = true) (hpath : options.configPath = some configPath)
    {clock : Path → Nat} {entries : List Path} {tree tree' : ConfigTree}
    {actions : List ReconcileAction}
    (h : planEntries options clock entries tree = (tree', .ok actions)) :
    Run options configPath tree entries actions tree' := by
  induction entries generalizing tree actions with
  | nil =>
    obtain ⟨rfl, hactions⟩ := Prod.mk.inj h
    rw [← Except.ok.inj hactions]
    exact .nil tree
  | cons entry entries ih =>
    obtain ⟨hskip, hrest⟩ | ⟨harchive, hdir, tree₁, action, rest, hplan, hrest, rfl⟩ :=
      planEntries_cons_ok h
    · exact .skip hskip (ih hrest)
    · exact .apply harchive hdir (planEntry_applied happly hpath hplan) (ih hrest)

/-- An entry that is not passed over is not the archive. -/
theorem isEntry_of_not_archive {options : ReconcileOptions} {entry : Path}
    (hname : ∃ name, Path.IsName name ∧ entry = options.configHome.join ⟨name⟩)
    (harchive : isArchiveDir entry options.archiveDir = false) : IsEntry options entry := by
  obtain ⟨name, hname, rfl⟩ := hname
  refine ⟨name, hname, ?_, rfl⟩
  rintro rfl
  rw [isArchiveDir, Path.same, options.archiveDir_eq] at harchive
  exact absurd harchive (by simp [archiveName, Path.ofString])

theorem IsEntry.not_archive {options : ReconcileOptions} {entry : Path}
    (h : IsEntry options entry) : isArchiveDir entry options.archiveDir = false := by
  rw [Bool.eq_false_iff]
  intro hsame
  rw [isArchiveDir, Path.same, beq_iff_eq] at hsame
  exact h.not_prefix List.prefix_rfl (hsame ▸ List.prefix_rfl)

namespace Run

variable {options : ReconcileOptions} {configPath : Path} {tree tree' : ConfigTree}
  {entries : List Path} {actions : List ReconcileAction}
  (hrun : Run options configPath tree entries actions tree')
  (hnames : ∀ entry ∈ entries,
    ∃ name, Path.IsName name ∧ entry = options.configHome.join ⟨name⟩)

include hrun

theorem source_mem {action : ReconcileAction} (h : action ∈ actions) : action.source ∈ entries := by
  induction hrun with
  | nil => cases h
  | skip hskip rest ih => exact List.mem_cons_of_mem _ (ih h)
  | apply harchive hdir happlied rest ih =>
    rcases List.mem_cons.mp h with rfl | h
    · rw [happlied.source_eq]
      exact List.mem_cons_self
    · exact List.mem_cons_of_mem _ (ih h)

theorem source_ne {entry : Path} (hentry : entry ∉ entries) {action : ReconcileAction}
    (h : action ∈ actions) : action.source ≠ entry := by
  rintro rfl
  exact hentry (hrun.source_mem h)

/-- What is kept is covered by the policy the run began with. -/
theorem covered {action : ReconcileAction} (h : action ∈ actions)
    (harchived : action.kind ≠ .archived) (hassociated : action.kind ≠ .associated) :
    policyCoversPath options.policyConfig action.source = true := by
  induction hrun with
  | nil => cases h
  | skip hskip rest ih => exact ih h
  | apply harchive hdir happlied rest ih =>
    rcases List.mem_cons.mp h with rfl | h
    · cases happlied with
      | keep hcovers => exact hcovers
      | associate => exact absurd rfl hassociated
      | archive => exact absurd rfl harchived
    · exact ih h

theorem nodup_sources (hnodup : entries.Nodup) : (actions.map (·.source)).Nodup := by
  induction hrun with
  | nil => exact List.nodup_nil
  | skip hskip rest ih => exact ih (List.nodup_cons.mp hnodup).2
  | apply harchive hdir happlied rest ih =>
    rw [List.nodup_cons] at hnodup
    rw [List.map_cons, List.nodup_cons]
    refine ⟨?_, ih hnodup.2⟩
    intro hmem
    obtain ⟨action, haction, hsource⟩ := List.mem_map.mp hmem
    rw [happlied.source_eq] at hsource
    exact rest.source_ne hnodup.1 haction hsource

include hnames

theorem placed {action : ReconcileAction} (h : action ∈ actions) : Placed options action := by
  induction hrun with
  | nil => cases h
  | skip hskip rest ih => exact ih (List.forall_mem_cons.mp hnames).2 h
  | apply harchive hdir happlied rest ih =>
    rcases List.mem_cons.mp h with rfl | h
    · exact happlied.placed
        (isEntry_of_not_archive (hnames _ List.mem_cons_self) harchive)
    · exact ih (List.forall_mem_cons.mp hnames).2 h

/-- What every action leaves as it is stays as it is. -/
theorem frame {place : List Component} (hne : place ≠ configPath.components)
    (hclear : ∀ action ∈ actions, Clear place action) :
    tree'.node place = tree.node place ∨
      tree.node place = none ∧ tree'.node place = some .dir ∧
        place <+: options.archiveDir.components := by
  induction hrun with
  | nil => exact .inl rfl
  | skip hskip rest ih => exact ih (List.forall_mem_cons.mp hnames).2 hclear
  | apply harchive hdir happlied rest ih =>
    have hentry := isEntry_of_not_archive (hnames _ List.mem_cons_self) harchive
    have hfirst := happlied.frame hentry hne (hclear _ List.mem_cons_self)
    have hrest := ih (List.forall_mem_cons.mp hnames).2 (List.forall_mem_cons.mp hclear).2
    rcases hrest with hsame | ⟨hnone, hmade, hpre⟩
    · rw [hsame]
      exact hfirst
    · rcases hfirst with hsame | ⟨-, hmade', -⟩
      · exact .inr ⟨hsame ▸ hnone, hmade, hpre⟩
      · rw [hmade'] at hnone
        cases hnone

/-- So does what is at and below an entry no action is about. -/
theorem frame_entry {entry : Path} (hentry : IsEntry options entry) {below : List Component}
    (hne : entry.components ++ below ≠ configPath.components)
    (hclear : ∀ action ∈ actions, Clear (entry.components ++ below) action) :
    tree'.node (entry.components ++ below) = tree.node (entry.components ++ below) := by
  rcases hrun.frame hnames hne hclear with hsame | ⟨-, -, hpre⟩
  · exact hsame
  · exact absurd (List.prefix_append _ _) (hentry.not_prefix hpre)

/-- The text a run adds to the policy file. -/
def appendedText (actions : List ReconcileAction) : String :=
  actions.foldr (fun action text => appended action ++ text) ""

/-- The policy file goes on with the text of the actions. -/
theorem policy {content : String}
    (hpolicy : tree.node configPath.components = some (.file (utf8 content)))
    (hstays : ∀ action ∈ actions, action.kind = .archived →
      ¬ action.source.components <+: configPath.components) :
    tree'.node configPath.components = some (.file (utf8 (content ++ appendedText actions))) := by
  induction hrun generalizing content with
  | nil => rw [hpolicy, appendedText, List.foldr_nil, String.append_empty]
  | skip hskip rest ih =>
    exact ih (List.forall_mem_cons.mp hnames).2 hpolicy hstays
  | apply harchive hdir happlied rest ih =>
    have hentry := isEntry_of_not_archive (hnames _ List.mem_cons_self) harchive
    have hfirst := happlied.policy hentry hdir hpolicy (hstays _ List.mem_cons_self)
    have hrest := ih (List.forall_mem_cons.mp hnames).2 hfirst (List.forall_mem_cons.mp hstays).2
    rw [hrest, appendedText, appendedText, List.foldr_cons, String.append_assoc]

end Run

/-- What is done for one entry does not make a directory of another one, or
take one away. -/
theorem Applied.isDir_other {options : ReconcileOptions} {configPath entry other : Path}
    {tree tree' : ConfigTree} {action : ReconcileAction}
    (happlied : Applied options configPath entry tree tree' action)
    (hentry : IsEntry options entry) (hother : IsEntry options other) (hne : entry ≠ other)
    (hdir : tree.isDir entry.components = true) {content : String}
    (hpolicy : tree.node configPath.components = some (.file (utf8 content)))
    (hstays : action.kind = .archived → ¬ action.source.components <+: configPath.components) :
    tree'.isDir other.components = tree.isDir other.components := by
  have hsource : action.source = entry := happlied.source_eq
  by_cases hpath : other.components = configPath.components
  · rw [hpath, FileTree.isDir, FileTree.isDir, hpolicy,
      happlied.policy hentry hdir hpolicy hstays]
  · have hitself : other.components ++ [] ≠ configPath.components := by
      rwa [List.append_nil]
    have hsame := happlied.frame_entry hentry hother (by rwa [hsource]) hitself
    rw [List.append_nil] at hsame
    rw [FileTree.isDir, FileTree.isDir, hsame]

namespace Run

variable {options : ReconcileOptions} {configPath : Path} {tree tree' : ConfigTree}
  {entries : List Path} {actions : List ReconcileAction}
  (hrun : Run options configPath tree entries actions tree')
  (hnames : ∀ entry ∈ entries,
    ∃ name, Path.IsName name ∧ entry = options.configHome.join ⟨name⟩)
  (hnodup : entries.Nodup) {content : String}
  (hpolicy : tree.node configPath.components = some (.file (utf8 content)))
  (hstays : ∀ action ∈ actions, action.kind = .archived →
    ¬ action.source.components <+: configPath.components)

include hrun hnames hnodup hpolicy hstays

/-- The directories there were at the start get one action each, in order. -/
theorem sources :
    actions.map (·.source) = entries.filter fun entry =>
      !isArchiveDir entry options.archiveDir && tree.isDir entry.components := by
  induction hrun generalizing content with
  | nil => rfl
  | skip hskip rest ih =>
    rw [List.filter_cons_of_neg]
    · exact ih (List.forall_mem_cons.mp hnames).2 (List.nodup_cons.mp hnodup).2
        hpolicy hstays
    · rcases hskip with h | h <;> simp [h]
  | @apply tree tree₁ tree' entry entries action actions harchive hdir happlied rest ih =>
    have hentry := isEntry_of_not_archive (hnames _ List.mem_cons_self) harchive
    have hsource : action.source = entry := happlied.source_eq
    have hstays' := (List.forall_mem_cons.mp hstays).2
    rw [List.nodup_cons] at hnodup
    rw [List.filter_cons_of_pos (by simp [harchive, hdir]), List.map_cons, hsource,
      ih (List.forall_mem_cons.mp hnames).2 hnodup.2
        (happlied.policy hentry hdir hpolicy (hstays _ List.mem_cons_self)) hstays']
    -- which of the later entries are directories is not changed by this one
    congr 1
    refine List.filter_congr ?_
    intro other hother
    cases hotherArchive : isArchiveDir other options.archiveDir with
    | true => rfl
    | false =>
      have hisEntry := isEntry_of_not_archive (hnames _ (List.mem_cons_of_mem _ hother)) hotherArchive
      have hne : entry ≠ other := by
        rintro rfl
        exact hnodup.1 hother
      rw [happlied.isDir_other hentry hisEntry hne hdir hpolicy (hstays _ List.mem_cons_self)]

/-- The places an archived entry is moved from and to are its own. -/
theorem moved {action : ReconcileAction} (haction : action ∈ actions)
    (hkind : action.kind = .archived)
    (htargets : (actions.filterMap fun action => action.target.map (·.components)).Nodup) :
    ∃ target, action.target = some target ∧ ∀ rest,
      tree'.node (action.source.components ++ rest) = none ∧
        tree'.node (target.components ++ rest) = tree.node (action.source.components ++ rest) := by
  induction hrun generalizing content with
  | nil => cases haction
  | skip hskip rest ih =>
    exact ih (List.forall_mem_cons.mp hnames).2 (List.nodup_cons.mp hnodup).2
      hpolicy hstays haction htargets
  | @apply tree tree₁ tree' entry entries first actions harchive hdir happlied rest ih =>
    have hentry := isEntry_of_not_archive (hnames _ List.mem_cons_self) harchive
    have hfirst := happlied.placed hentry
    have hsource : first.source = entry := happlied.source_eq
    have hnames' := (List.forall_mem_cons.mp hnames).2
    have hpolicy' := happlied.policy hentry hdir hpolicy (hstays _ List.mem_cons_self)
    have hstays' := (List.forall_mem_cons.mp hstays).2
    rw [List.nodup_cons] at hnodup
    rcases List.mem_cons.mp haction with rfl | haction
    · -- the entry is moved now, and nothing that comes later is about these places
      obtain ⟨target, made, htarget, -, -⟩ := happlied.renamed hentry hkind
      rw [List.filterMap_cons_some (by rw [htarget]; rfl), List.nodup_cons] at htargets
      refine ⟨target, htarget, ?_⟩
      intro below
      obtain ⟨hgone, hthere⟩ := happlied.moved hentry hkind htarget below
      constructor
      · have hclear : ∀ later ∈ actions, Clear (action.source.components ++ below) later := by
          intro later hlater
          refine (rest.placed hnames' hlater).clear_entry hfirst.source ?_ below
          rw [hsource]
          exact rest.source_ne hnodup.1 hlater
        have hne : action.source.components ++ below ≠ configPath.components := by
          intro heq
          exact hstays action List.mem_cons_self hkind ⟨below, heq⟩
        rw [rest.frame_entry hnames' hfirst.source hne hclear, hgone]
      · obtain ⟨name, hname, rfl⟩ := hfirst.target target htarget
        have hclear : ∀ later ∈ actions,
            Clear ((options.archiveDir.join ⟨name⟩).components ++ below) later := by
          intro later hlater
          refine (rest.placed hnames' hlater).clear_target hname ?_ below
          intro other hother heq
          refine htargets.1 (List.mem_filterMap.mpr ⟨later, hlater, ?_⟩)
          rw [hother, Option.map_some, heq]
        have hne : (options.archiveDir.join ⟨name⟩).components ++ below ≠ configPath.components := by
          intro heq
          exact happlied.target_clear hentry hdir hpolicy htarget ⟨below, heq⟩
        rcases rest.frame hnames' hne hclear with hsame | ⟨-, -, hpre⟩
        · rw [hsame, hthere]
        · exact absurd (List.prefix_append _ _) ((hfirst.clear_archive hpre).2 _ htarget)
    · -- the entry is moved later, and what is done now is not about its place
      have htargets' : (actions.filterMap fun action => action.target.map (·.components)).Nodup :=
        htargets.sublist ((List.sublist_cons_self first actions).filterMap _)
      obtain ⟨target, htarget, hmoved⟩ :=
        ih hnames' hnodup.2 hpolicy' hstays' haction htargets'
      refine ⟨target, htarget, ?_⟩
      intro below
      obtain ⟨hgone, hthere⟩ := hmoved below
      refine ⟨hgone, ?_⟩
      have hother : first.source ≠ action.source := by
        rw [hsource]
        exact (rest.source_ne hnodup.1 haction).symm
      have hne : action.source.components ++ below ≠ configPath.components := by
        intro heq
        exact hstays' action haction hkind ⟨below, heq⟩
      rw [hthere, happlied.frame_entry hentry (rest.placed hnames' haction).source hother hne]

omit hpolicy hstays in
/-- Nothing but the policy file changes at and below an entry that is not archived. -/
theorem kept {action : ReconcileAction} (haction : action ∈ actions)
    (hkind : action.kind ≠ .archived) {below : List Component}
    (hne : action.source.components ++ below ≠ configPath.components) :
    tree'.node (action.source.components ++ below) =
      tree.node (action.source.components ++ below) := by
  have hplaced := hrun.placed hnames haction
  have hclear : ∀ other ∈ actions, Clear (action.source.components ++ below) other := by
    intro other hother
    by_cases hsource : other.source = action.source
    · obtain rfl := List.inj_on_of_nodup_map (hrun.nodup_sources hnodup) hother haction hsource
      refine ⟨fun h => absurd h hkind, ?_⟩
      intro target htarget
      rw [hplaced.stays hkind] at htarget
      cases htarget
    · exact (hrun.placed hnames hother).clear_entry hplaced.source hsource below
  exact hrun.frame_entry hnames hplaced.source hne hclear

end Run

/-- `parse` reads the text of a policy file. -/
def loadPolicyConfig (parse : String → Option PolicyConfig) (configPath : Path)
    (tree : ConfigTree) : Option PolicyConfig := (readToString tree configPath).bind parse

def PolicyConfig.withRule (config : PolicyConfig) (rule : OwnedPath) : PolicyConfig :=
  { config with ownedPaths := config.ownedPaths ++ [rule] }

/-- The rule an association is written for. -/
def associationRule (action : ReconcileAction) : OwnedPath where
  path := action.source
  owner := action.owner.getD ""

/-- Each rule that is appended parses back to the path and the owner it was
written for, behind the rules there are. -/
def RulesParseBack (parse : String → Option PolicyConfig) : String → List ReconcileAction → Prop
  | _, [] => True
  | content, action :: actions =>
    (action.kind = .associated → ∀ config, parse content = some config →
      parse (content ++ appended action) = some (config.withRule (associationRule action))) ∧
      RulesParseBack parse (content ++ appended action) actions

/-- The policy that is loaded again has the rules it had, and those appended. -/
theorem parse_appendedText {parse : String → Option PolicyConfig} {content : String}
    {config : PolicyConfig} {actions : List ReconcileAction}
    (hparse : parse content = some config) (hback : RulesParseBack parse content actions) :
    ∃ reloaded, parse (content ++ Run.appendedText actions) = some reloaded ∧
      (∀ rule ∈ rulePaths config, rule ∈ rulePaths reloaded) ∧
      ∀ action ∈ actions, action.kind = .associated → action.source ∈ rulePaths reloaded := by
  induction actions generalizing content config with
  | nil =>
    refine ⟨config, ?_, fun _ h => h, fun _ h => nomatch h⟩
    rw [Run.appendedText, List.foldr_nil, String.append_empty, hparse]
  | cons action actions ih =>
    obtain ⟨hfirst, hrest⟩ := hback
    have htext : content ++ Run.appendedText (action :: actions) =
        content ++ appended action ++ Run.appendedText actions := by
      rw [Run.appendedText, Run.appendedText, List.foldr_cons, String.append_assoc]
    rw [htext]
    by_cases hkind : action.kind = .associated
    · obtain ⟨reloaded, hreloaded, hold, hnew⟩ := ih (hfirst hkind config hparse) hrest
      refine ⟨reloaded, hreloaded, ?_, ?_⟩
      · intro rule hrule
        apply hold
        simp only [rulePaths, PolicyConfig.withRule, List.map_append, List.mem_append] at hrule ⊢
        tauto
      · intro other hother hotherKind
        rcases List.mem_cons.mp hother with rfl | hother
        · apply hold
          simp [rulePaths, PolicyConfig.withRule, associationRule]
        · exact hnew other hother hotherKind
    · have hnothing : appended action = "" := by rw [appended, if_neg hkind]
      rw [hnothing, String.append_empty] at hrest ⊢
      obtain ⟨reloaded, hreloaded, hold, hnew⟩ := ih hparse hrest
      refine ⟨reloaded, hreloaded, hold, ?_⟩
      intro other hother hotherKind
      rcases List.mem_cons.mp hother with rfl | hother
      · exact absurd hotherKind hkind
      · exact hnew other hother hotherKind

theorem policyCoversPath_of_mem {config : PolicyConfig} {entry : Path}
    (h : entry ∈ rulePaths config) : policyCoversPath config entry = true := by
  refine policyCoversPath_iff.mpr ⟨entry, h, ?_⟩
  rw [pathsOverlap, Path.startsWith_refl, Bool.true_or]

/-- With every directory covered there is nothing to do. -/
theorem planEntries_covered {options : ReconcileOptions} (clock : Path → Nat) {tree : ConfigTree}
    {entries : List Path}
    (h : ∀ entry ∈ entries, isArchiveDir entry options.archiveDir = false →
      tree.isDir entry.components = true → policyCoversPath options.policyConfig entry = true) :
    ∃ actions, planEntries options clock entries tree = (tree, .ok actions) ∧
      ∀ action ∈ actions, action.kind = .keepConfigured := by
  induction entries with
  | nil => exact ⟨[], rfl, fun _ h => nomatch h⟩
  | cons entry entries ih =>
    obtain ⟨actions, hactions, hkinds⟩ := ih fun e he => h e (List.mem_cons_of_mem _ he)
    cases harchive : isArchiveDir entry options.archiveDir with
    | true =>
      refine ⟨actions, ?_, hkinds⟩
      rw [planEntries, if_pos harchive, hactions]
    | false =>
      cases hdir : tree.isDir entry.components with
      | false =>
        refine ⟨actions, ?_, hkinds⟩
        rw [planEntries, harchive, hdir, if_neg (by decide), Bool.not_false, if_pos rfl, hactions]
      | true =>
        have hcovers := h entry List.mem_cons_self harchive hdir
        refine ⟨keepConfiguredAction entry :: actions, ?_, ?_⟩
        · rw [planEntries, harchive, hdir, if_neg (by decide), Bool.not_true, if_neg (by decide),
            (planEntry_keep_iff entry options (clock entry) tree).mpr hcovers]
          dsimp only
          rw [hactions]
          rfl
        · intro action haction
          rcases List.mem_cons.mp haction with rfl | haction
          · rfl
          · exact hkinds action haction

/-- A run with `--apply` that succeeded, with the policy that was in the file. -/
structure AppliedRun (parse : String → Option PolicyConfig) (options : ReconcileOptions)
    (configPath : Path) (clock : Path → Nat) (tree tree' : ConfigTree) (plan : ReconcilePlan) :
    Prop where
  applies : options.apply = true
  policyFile : options.configPath = some configPath
  loaded : loadPolicyConfig parse configPath tree = some options.policyConfig
  ran : planReconcile options clock tree = (tree', .ok plan)
  parsesBack : ∀ content, readToString tree configPath = some content →
    RulesParseBack parse content plan.actions

/-- Everything in the configuration home is settled. -/
structure Converged (parse : String → Option PolicyConfig) (options : ReconcileOptions)
    (configPath : Path) (tree tree' : ConfigTree) (plan : ReconcilePlan) : Prop where
  /-- The directories of the configuration home have an action, but for the archive. -/
  sources : ∀ entry, (∃ action ∈ plan.actions, action.source = entry) ↔
    (∃ name, Path.IsName name ∧ entry = options.configHome.join ⟨name⟩) ∧
      tree.isDir entry.components = true ∧ entry.same options.archiveDir = false
  /-- There is one action for each, and they come in order. -/
  sorted : (plan.actions.map (·.source)).Pairwise fun a b => a.cmp b = .lt
  /-- What is not archived stays, and nothing but the policy file changes in it. -/
  inPlace : ∀ action ∈ plan.actions, action.kind ≠ .archived →
    tree'.isDir action.source.components = true ∧
      ∀ below, action.source.components ++ below ≠ configPath.components →
        tree'.node (action.source.components ++ below) =
          tree.node (action.source.components ++ below)
  /-- What is archived is at its target, with everything below it, and is nowhere else. -/
  archived : ∀ action ∈ plan.actions, action.kind = .archived →
    ∃ target, action.target = some target ∧ ∀ below,
      tree'.node (action.source.components ++ below) = none ∧
        tree'.node (target.components ++ below) = tree.node (action.source.components ++ below)
  /-- With the policy that is in the file now, all directories are kept. -/
  settled : ∃ config, loadPolicyConfig parse configPath tree' = some config ∧ ∀ clock',
    ∃ plan', planReconcile { options with policyConfig := config } clock' tree' =
        (tree', .ok plan') ∧
      ∀ action ∈ plan'.actions, action.kind = .keepConfigured

theorem readToString_eq_some {tree : ConfigTree} {path : Path} {content : String} :
    readToString tree path = some content ↔
      tree.node path.components = some (.file (utf8 content)) := by
  rw [readToString]
  constructor
  · intro h
    split at h
    · rename_i bytes hnode
      rw [hnode, utf8_of_toStr h]
    · cases h
  · intro h
    rw [h]
    exact toStr_utf8 content

section

variable {parse : String → Option PolicyConfig} {options : ReconcileOptions} {configPath : Path}
  {clock : Path → Nat} {tree tree' : ConfigTree} {plan : ReconcilePlan}

/-- The steps of a run and what is known before it. -/
theorem AppliedRun.steps (h : AppliedRun parse options configPath clock tree tree' plan) :
    ∃ entries content, configHomeEntries options.configHome tree = .ok entries ∧
      Run options configPath tree entries plan.actions tree' ∧
      (∀ entry ∈ entries, ∃ name, Path.IsName name ∧ entry = options.configHome.join ⟨name⟩) ∧
      entries.Nodup ∧ tree.node configPath.components = some (.file (utf8 content)) ∧
      parse content = some options.policyConfig ∧ RulesParseBack parse content plan.actions := by
  obtain ⟨entries, hentries, hplan⟩ := planReconcile_ok h.ran
  obtain ⟨content, hread, hparse⟩ := Option.bind_eq_some_iff.mp h.loaded
  refine ⟨entries, content, hentries, planEntries_run h.applies h.policyFile hplan, ?_, ?_,
    readToString_eq_some.mp hread, hparse, h.parsesBack content hread⟩
  · intro entry hentry
    obtain ⟨name, hname, heq, -⟩ := (mem_configHomeEntries hentries).mp hentry
    exact ⟨name, hname, heq⟩
  · exact configHomeEntries_nodup hentries

/-- A directory that is there after the run has an action that kept it there. -/
theorem AppliedRun.exists_action (h : AppliedRun parse options configPath clock tree tree' plan)
    (hstays : ∀ action ∈ plan.actions, action.kind = .archived →
      ¬ action.source.components <+: configPath.components)
    (htargets : (plan.actions.filterMap fun action => action.target.map (·.components)).Nodup)
    {entry : Path} (hentry : IsEntry options entry)
    (hdir : tree'.isDir entry.components = true) :
    ∃ action ∈ plan.actions, action.source = entry ∧ action.kind ≠ .archived := by
  obtain ⟨entries, content, hentries, hrun, hnames, hnodup, hpolicy, -, -⟩ := h.steps
  by_cases hsome : ∃ action ∈ plan.actions, action.source = entry
  · obtain ⟨action, haction, rfl⟩ := hsome
    refine ⟨action, haction, rfl, ?_⟩
    intro hkind
    obtain ⟨target, -, hmoved⟩ := hrun.moved hnames hnodup hpolicy hstays haction hkind htargets
    have hgone := (hmoved []).1
    rw [List.append_nil] at hgone
    rw [FileTree.isDir_iff, hgone] at hdir
    cases hdir
  · exfalso
    rw [not_exists] at hsome
    have hpath : entry.components ++ [] ≠ configPath.components := by
      intro heq
      rw [← List.append_nil entry.components, heq, FileTree.isDir_iff,
        hrun.policy hnames hpolicy hstays] at hdir
      cases hdir
    have hbefore : tree.isDir entry.components = true := by
      have hsame := hrun.frame_entry hnames hentry hpath fun action haction =>
        (hrun.placed hnames haction).clear_entry hentry
          (fun heq => hsome action ⟨haction, heq⟩) []
      rw [List.append_nil] at hsame
      rwa [FileTree.isDir_iff, ← hsame, ← FileTree.isDir_iff]
    -- the directory was there before, so there was an action for it
    have hmem : entry ∈ plan.actions.map (·.source) := by
      rw [hrun.sources hnames hnodup hpolicy hstays, List.mem_filter, hentry.not_archive, hbefore]
      obtain ⟨name, hname, -, heq⟩ := hentry
      refine ⟨(mem_configHomeEntries hentries).mpr ⟨name, hname, heq, ?_⟩, rfl⟩
      rw [FileTree.isDir_iff.mp hbefore]
      rfl
    obtain ⟨action, haction, hsource⟩ := List.mem_map.mp hmem
    exact hsome action ⟨haction, hsource⟩

/-- The configuration home is still there. -/
theorem AppliedRun.configHome_readable
    (h : AppliedRun parse options configPath clock tree tree' plan) :
    ∃ entries, configHomeEntries options.configHome tree' = .ok entries := by
  obtain ⟨entries, content, hentries, hrun, hnames, hnodup, hpolicy, -, -⟩ := h.steps
  obtain ⟨names, hnames', -⟩ := configHomeEntries_ok hentries
  have hdir : tree.isDir options.configHome.components = true := by
    by_contra hnot
    rw [readDir, if_neg hnot] at hnames'
    cases hnames'
  have hne : options.configHome.components ≠ configPath.components := by
    intro heq
    rw [heq, FileTree.isDir_iff, hpolicy] at hdir
    cases hdir
  have hpre : options.configHome.components <+: options.archiveDir.components := by
    rw [components_archiveDir]
    exact List.prefix_append _ _
  have hdir' : tree'.isDir options.configHome.components = true := by
    rw [FileTree.isDir_iff] at hdir ⊢
    rcases hrun.frame hnames hne
      fun action haction => (hrun.placed hnames haction).clear_archive hpre with hsame | hmade
    · rw [hsame, hdir]
    · exact hmade.2.1
  rw [configHomeEntries, readDir, if_pos hdir']
  exact ⟨_, rfl⟩

/-- The policy file is not in a directory that is archived. -/
def PolicyFileStays (configPath : Path) (plan : ReconcilePlan) : Prop :=
  ∀ action ∈ plan.actions, action.kind = .archived → configPath.startsWith action.source = false

/-- No two directories are archived at one target. -/
def TargetsDiffer (plan : ReconcilePlan) : Prop :=
  (plan.actions.filterMap fun action => action.target.map (·.components)).Nodup

/-- With the policy loaded again there is nothing to do in a second run. -/
theorem AppliedRun.settled (h : AppliedRun parse options configPath clock tree tree' plan)
    (hstays : ∀ action ∈ plan.actions, action.kind = .archived →
      ¬ action.source.components <+: configPath.components)
    (htargets : (plan.actions.filterMap fun action => action.target.map (·.components)).Nodup) :
    ∃ config, loadPolicyConfig parse configPath tree' = some config ∧ ∀ clock',
      ∃ plan', planReconcile { options with policyConfig := config } clock' tree' =
          (tree', .ok plan') ∧
        ∀ action ∈ plan'.actions, action.kind = .keepConfigured := by
  obtain ⟨entries, content, hentries, hrun, hnames, hnodup, hpolicy, hparse, hback⟩ := h.steps
  obtain ⟨reloaded, hreloaded, hold, hnew⟩ := parse_appendedText hparse hback
  refine ⟨reloaded, ?_, ?_⟩
  · rw [loadPolicyConfig, readToString_eq_some.mpr (hrun.policy hnames hpolicy hstays)]
    exact hreloaded
  · intro clock'
    obtain ⟨entries', hentries'⟩ := h.configHome_readable
    -- what is there after the run was covered before it, or was given a rule in it
    have hcovered : ∀ entry ∈ entries', isArchiveDir entry options.archiveDir = false →
        tree'.isDir entry.components = true → policyCoversPath reloaded entry = true := by
      intro entry hentry harchive hdir
      obtain ⟨name, hname, heq, -⟩ := (mem_configHomeEntries hentries').mp hentry
      have hisEntry := isEntry_of_not_archive ⟨name, hname, heq⟩ harchive
      obtain ⟨action, haction, rfl, hkind⟩ :=
        h.exists_action hstays htargets hisEntry hdir
      by_cases hassociated : action.kind = .associated
      · exact policyCoversPath_of_mem (hnew action haction hassociated)
      · obtain ⟨rule, hrule, hoverlap⟩ :=
          policyCoversPath_iff.mp (hrun.covered haction hkind hassociated)
        exact policyCoversPath_iff.mpr ⟨rule, hold rule hrule, hoverlap⟩
    let again : ReconcileOptions := { options with policyConfig := reloaded }
    obtain ⟨actions', hactions', hkinds⟩ :
        ∃ actions, planEntries again clock' entries' tree' = (tree', .ok actions) ∧
          ∀ action ∈ actions, action.kind = .keepConfigured :=
      planEntries_covered clock' hcovered
    refine ⟨⟨actions'⟩, ?_, hkinds⟩
    rw [planReconcile, hentries']
    dsimp only
    rw [hactions']
    rfl

/-- An applied run settles the configuration home, if the policy file is not in
an archived directory and no two directories are archived at one target. -/
theorem converged (parse : String → Option PolicyConfig) (options : ReconcileOptions)
    (configPath : Path) (clock : Path → Nat) (tree tree' : ConfigTree) (plan : ReconcilePlan)
    (h : AppliedRun parse options configPath clock tree tree' plan)
    (hstays : PolicyFileStays configPath plan) (htargets : TargetsDiffer plan) :
    Converged parse options configPath tree tree' plan := by
  have hstays' : ∀ action ∈ plan.actions, action.kind = .archived →
      ¬ action.source.components <+: configPath.components := by
    intro action haction hkind hpre
    rw [← Path.startsWith_iff, hstays action haction hkind] at hpre
    cases hpre
  obtain ⟨entries, content, hentries, hrun, hnames, hnodup, hpolicy, hparse, hback⟩ := h.steps
  have hsources := hrun.sources hnames hnodup hpolicy hstays'
  constructor
  · intro entry
    rw [← List.mem_map, hsources, List.mem_filter, Bool.and_eq_true, Bool.not_eq_true']
    constructor
    · rintro ⟨hentry, harchive, hdir⟩
      exact ⟨hnames entry hentry, hdir, harchive⟩
    · rintro ⟨⟨name, hname, heq⟩, hdir, harchive⟩
      refine ⟨(mem_configHomeEntries hentries).mpr ⟨name, hname, heq, ?_⟩, harchive, hdir⟩
      rw [FileTree.isDir_iff.mp hdir]
      rfl
  · rw [hsources]
    exact (configHomeEntries_sorted hentries).filter _
  · intro action haction hkind
    have hdir : tree.isDir action.source.components = true := by
      have hmem := List.mem_map_of_mem (f := (·.source)) haction
      rw [hsources, List.mem_filter, Bool.and_eq_true] at hmem
      exact hmem.2.2
    have hne : action.source.components ≠ configPath.components := by
      intro heq
      rw [heq, FileTree.isDir_iff, hpolicy] at hdir
      cases hdir
    have hitself : action.source.components ++ [] ≠ configPath.components := by
      rwa [List.append_nil]
    have hsame := hrun.kept hnames hnodup haction hkind hitself
    rw [List.append_nil] at hsame
    refine ⟨?_, fun below hbelow => hrun.kept hnames hnodup haction hkind hbelow⟩
    rw [FileTree.isDir_iff, hsame, ← FileTree.isDir_iff]
    exact hdir
  · intro action haction hkind
    exact hrun.moved hnames hnodup hpolicy hstays' haction hkind htargets
  · exact h.settled hstays' htargets

end

def appliedOptions (config : PolicyConfig) (configPath : Path) : ReconcileOptions :=
  (((ReconcileOptions.new (Path.ofString "/c") config []).withBinaryDirs
    [Path.ofString "/bin"]).withConfigPath configPath).applying

/-- The tree a run at one moment leaves. -/
def treeAfter (options : ReconcileOptions) (tree : ConfigTree) : ConfigTree :=
  (planReconcile options (fun _ => 0) tree).1

theorem planReconcile_eq {options : ReconcileOptions} {tree : ConfigTree} {plan : ReconcilePlan}
    (h : (planReconcile options (fun _ => 0) tree).2 = .ok plan) :
    planReconcile options (fun _ => 0) tree = (treeAfter options tree, .ok plan) := Prod.ext rfl h

def threeToolsText : String := "[[sensitive_paths]]\npath = \"/c/keep\"\n"

def threeToolsConfig : PolicyConfig where
  sensitivePaths := [⟨Path.ofString "/c/keep"⟩]

/-- One directory is associated, one is kept and one is archived. -/
def threeTools : ConfigTree :=
  treeOf [(Path.ofString "/c", .dir), (Path.ofString "/c/keep", .dir),
    (Path.ofString "/c/old", .dir), (Path.ofString "/c/old/f", .file []),
    (Path.ofString "/c/gh", .dir), (Path.ofString "/bin", .dir),
    (Path.ofString "/bin/gh", .file []), (Path.ofString "/p", .file (utf8 threeToolsText))]

def associatedRule : OwnedPath where
  path := Path.ofString "/c/gh"
  owner := "gh"

def threeToolsParse (text : String) : Option PolicyConfig :=
  if text = threeToolsText then some threeToolsConfig
  else if text = threeToolsText ++ ruleText (Path.ofString "/c/gh") "gh" then
    some (threeToolsConfig.withRule associatedRule)
  else none

def threeToolsPlan : ReconcilePlan where
  actions :=
    [{ kind := .associated, source := Path.ofString "/c/gh", target := none, owner := some "gh"
       binary := some (Path.ofString "/bin/gh"), reason := "associated binary found" },
      keepConfiguredAction (Path.ofString "/c/keep"),
      { kind := .archived, source := Path.ofString "/c/old"
        target := some (Path.ofString "/c/archive/old"), owner := none, binary := none
        reason := "associated binary not found" }]

theorem converged_threeTools :
    Converged threeToolsParse (appliedOptions threeToolsConfig (Path.ofString "/p"))
      (Path.ofString "/p") threeTools
      (treeAfter (appliedOptions threeToolsConfig (Path.ofString "/p")) threeTools)
      threeToolsPlan := by
  refine converged _ _ _ (fun _ => 0) _ _ _ ⟨rfl, rfl, by decide +kernel, ?_, ?_⟩ ?_ ?_
  · exact planReconcile_eq (by decide +kernel)
  · intro content hcontent
    have htext : readToString threeTools (Path.ofString "/p") = some threeToolsText := by
      decide +kernel
    obtain rfl := Option.some.inj (htext.symm.trans hcontent)
    refine ⟨?_, ⟨nofun, ⟨nofun, trivial⟩⟩⟩
    intro _ config hconfig
    have hparse : threeToolsParse threeToolsText = some threeToolsConfig := by decide +kernel
    obtain rfl := Option.some.inj (hparse.symm.trans hconfig)
    decide +kernel
  · rw [PolicyFileStays]
    decide +kernel
  · rw [TargetsDiffer]
    decide +kernel

/-- The policy file is in a directory that is archived. -/
def policyInside : ConfigTree :=
  treeOf [(Path.ofString "/c", .dir), (Path.ofString "/c/app", .dir),
    (Path.ofString "/c/app/p", .file [])]

def policyInsidePlan : ReconcilePlan where
  actions :=
    [{ kind := .archived, source := Path.ofString "/c/app"
       target := some (Path.ofString "/c/archive/app"), owner := none, binary := none
       reason := "associated binary not found" }]

/-- Two names that are not UTF-8, and are in the archive already. -/
def oddNames : ConfigTree :=
  treeOf [(Path.ofString "/c", .dir), (Path.ofString "/c/archive", .dir),
    ((Path.ofString "/c/archive").join ⟨[254]⟩, .dir),
    ((Path.ofString "/c/archive").join ⟨[255]⟩, .dir),
    ((Path.ofString "/c").join ⟨[254]⟩, .dir), ((Path.ofString "/c").join ⟨[255]⟩, .dir),
    (((Path.ofString "/c").join ⟨[255]⟩).join ⟨[120]⟩, .file []), (Path.ofString "/p", .file [])]

def oddNamesPlan : ReconcilePlan where
  actions := [[254], [255]].map fun name =>
    { kind := .archived, source := (Path.ofString "/c").join ⟨name⟩
      target := some (Path.ofString "/c/archive/unknown-0"), owner := none, binary := none
      reason := "associated binary not found" }

def emptyParse (text : String) : Option PolicyConfig := if text = "" then some {} else none

/-- Each of the two conditions is needed. -/
theorem not_converged :
    (¬ ∀ (parse : String → Option PolicyConfig) (options : ReconcileOptions) (configPath : Path)
        (clock : Path → Nat) (tree tree' : ConfigTree) (plan : ReconcilePlan),
      AppliedRun parse options configPath clock tree tree' plan → TargetsDiffer plan →
        Converged parse options configPath tree tree' plan) ∧
    ¬ ∀ (parse : String → Option PolicyConfig) (options : ReconcileOptions) (configPath : Path)
        (clock : Path → Nat) (tree tree' : ConfigTree) (plan : ReconcilePlan),
      AppliedRun parse options configPath clock tree tree' plan → PolicyFileStays configPath plan →
        Converged parse options configPath tree tree' plan := by
  constructor
  · intro h
    let options := appliedOptions {} (Path.ofString "/c/app/p")
    have hrun : AppliedRun emptyParse options (Path.ofString "/c/app/p") (fun _ => 0) policyInside
        (treeAfter options policyInside) policyInsidePlan :=
      ⟨rfl, rfl, by decide +kernel, planReconcile_eq (by decide +kernel),
        fun _ _ => ⟨nofun, trivial⟩⟩
    have hconverged := h _ _ _ _ _ _ _ hrun (by rw [TargetsDiffer]; decide +kernel)
    obtain ⟨config, hload, -⟩ := hconverged.settled
    have hnone : loadPolicyConfig emptyParse (Path.ofString "/c/app/p")
        (treeAfter options policyInside) = none := by decide +kernel
    rw [hnone] at hload
    cases hload
  · intro h
    let options := appliedOptions {} (Path.ofString "/p")
    have hrun : AppliedRun emptyParse options (Path.ofString "/p") (fun _ => 0) oddNames
        (treeAfter options oddNames) oddNamesPlan :=
      ⟨rfl, rfl, by decide +kernel, planReconcile_eq (by decide +kernel),
        fun _ _ => ⟨nofun, ⟨nofun, trivial⟩⟩⟩
    have hconverged := h _ _ _ _ _ _ _ hrun (by rw [PolicyFileStays]; decide +kernel)
    obtain ⟨target, htarget, hmoved⟩ := hconverged.archived _ List.mem_cons_self rfl
    obtain rfl := Option.some.inj htarget
    have hbelow := (hmoved [.normal [120]]).2
    revert hbelow
    decide +kernel

end ConfigGuard
