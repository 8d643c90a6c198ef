import ConfigGuard.Guard.Consent
import ConfigGuard.Reconcile.Appending

/-!
# What a guard makes of associations

A guard that loads the policy file after `reconcile --apply`. The run has changed
its decisions below the directories that were associated, and nowhere else.
-/

namespace ConfigGuard
open OsPath Toml Transition

def PolicyConfig.withRules (config : PolicyConfig) (rules : List OwnedPath) : PolicyConfig :=
  { config with ownedPaths := config.ownedPaths ++ rules }

/-- The rules that a run appends, in order. -/
def associationRules (actions : List ReconcileAction) : List OwnedPath :=
  (actions.filter fun action => action.kind == .associated).map associationRule

theorem mem_associationRules {actions : List ReconcileAction} {rule : OwnedPath} :
    rule ∈ associationRules actions ↔
      ∃ action ∈ actions, action.kind = .associated ∧ associationRule action = rule := by
  simp [associationRules, and_assoc]

/-- The policy file is read as the rules it had, with those appended behind them. -/
theorem parse_associationRules {parse : String → Option PolicyConfig} {content : String}
    {config : PolicyConfig} {actions : List ReconcileAction}
    (hparse : parse content = some config) (hback : RulesParseBack parse content actions) :
    parse (content ++ Run.appendedText actions) =
      some (config.withRules (associationRules actions)) := by
  induction actions generalizing content config with
  | nil =>
    rw [Run.appendedText, List.foldr_nil, String.append_empty, hparse, associationRules,
      List.filter_nil, List.map_nil, PolicyConfig.withRules, List.append_nil]
  | cons action actions ih =>
    obtain ⟨hfirst, hrest⟩ := hback
    have htext : content ++ Run.appendedText (action :: actions) =
        content ++ appended action ++ Run.appendedText actions := by
      rw [Run.appendedText, Run.appendedText, List.foldr_cons, String.append_assoc]
    rw [htext]
    by_cases hkind : action.kind = .associated
    · rw [ih (hfirst hkind config hparse) hrest]
      simp [associationRules, PolicyConfig.withRules, PolicyConfig.withRule, hkind]
    · have hnothing : appended action = "" := by rw [appended, if_neg hkind]
      rw [hnothing, String.append_empty] at hrest ⊢
      rw [ih hparse hrest]
      simp [associationRules, hkind]

theorem owned_mem_rulePaths {config : PolicyConfig} {rule : OwnedPath}
    (h : rule ∈ config.ownedPaths) : rule.path ∈ rulePaths config :=
  List.mem_append_left _ (List.mem_append_left _ (List.mem_map_of_mem h))

theorem sensitive_mem_rulePaths {config : PolicyConfig} {rule : PathRule}
    (h : rule ∈ config.sensitivePaths) : rule.path ∈ rulePaths config :=
  List.mem_append_right _ (List.mem_map_of_mem h)

section

variable {config : PolicyConfig} {rules : List OwnedPath}

/-- Rules that a path is not below have no say in it. -/
theorem decide_withRules_outside {target : Path}
    (houtside : ∀ rule ∈ rules, target.startsWith rule.path = false) (subject : ProcessSubject)
    (access : AccessKind) :
    Policy.decide (config.withRules rules) subject target access =
      Policy.decide config subject target access := by
  have howner : Policy.ownerFor (config.withRules rules) target = Policy.ownerFor config target := by
    have hnone : rules.filter (fun rule => target.startsWith rule.path) = [] :=
      List.filter_eq_nil_iff.mpr fun rule hrule => by simp [houtside rule hrule]
    rw [Policy.ownerFor, Policy.ownerFor, PolicyConfig.withRules, List.filter_append, hnone,
      List.append_nil]
  unfold Policy.decide
  rw [howner]
  rfl

variable {dir : Path} (huncovered : policyCoversPath config dir = false) {target : Path}
  (hbelow : target.startsWith dir = true)

include huncovered hbelow

/-- No rule is over a path below a directory that none overlaps. -/
theorem not_over_of_uncovered {rule : Path} (hrule : rule ∈ rulePaths config) :
    target.startsWith rule = false := by
  rw [Bool.eq_false_iff]
  intro hover
  have hoverlap : pathsOverlap dir rule = true := by
    rw [Path.startsWith_iff] at hover hbelow
    rw [pathsOverlap, Bool.or_eq_true, Path.startsWith_iff, Path.startsWith_iff]
    exact List.prefix_or_prefix_of_prefix hover hbelow
  rw [policyCoversPath_iff.mpr ⟨rule, hrule, hoverlap⟩] at huncovered
  cases huncovered

theorem ownerFor_uncovered : Policy.ownerFor config target = none := by
  rw [Policy.ownerFor, Selection.maxByKey_eq_none, List.filter_eq_nil_iff]
  intro rule hrule
  simp [not_over_of_uncovered huncovered hbelow (owned_mem_rulePaths hrule)]

theorem sensitiveDevToolAccess_uncovered (subject : ProcessSubject) (name : String) :
    Policy.sensitiveDevToolAccess config subject name target = none := by
  rw [Policy.sensitiveDevToolAccess]
  split
  · rw [Selection.maxByKey_eq_none, List.filter_eq_nil_iff]
    intro rule hrule
    simp [not_over_of_uncovered huncovered hbelow (sensitive_mem_rulePaths hrule)]
  · rfl

/-- Before it is associated everything below the directory is allowed. -/
theorem decide_uncovered (subject : ProcessSubject) (access : AccessKind) :
    Policy.decide config subject target access = .allow := by
  simp [Policy.decide, ownerFor_uncovered huncovered hbelow,
    sensitiveDevToolAccess_uncovered huncovered hbelow]

/-- With rules for directories of its own it is governed by its rule. -/
theorem ownerFor_withRules {rule : OwnedPath} (hrule : rule ∈ rules) (hpath : rule.path = dir)
    (hapart : ∀ other ∈ rules, target.startsWith other.path = true → other = rule) :
    Policy.ownerFor (config.withRules rules) target = some rule := by
  cases howner : Policy.ownerFor (config.withRules rules) target with
  | none =>
    rw [Policy.ownerFor, Selection.maxByKey_eq_none, List.filter_eq_nil_iff] at howner
    exact absurd (hpath ▸ hbelow) (howner rule (List.mem_append_right _ hrule))
  | some found =>
    obtain ⟨hmem, hover, -⟩ := Policy.ownerFor_eq_some howner
    rcases List.mem_append.mp hmem with hold | hnew
    · rw [not_over_of_uncovered huncovered hbelow (owned_mem_rulePaths hold)] at hover
      cases hover
    · rw [hapart found hnew hover]

/-- Afterwards the owner is allowed, and what a shared rule lets through; others are asked
about. -/
theorem decide_withRules_below {rule : OwnedPath} (hrule : rule ∈ rules) (hpath : rule.path = dir)
    (hplain : rule.allowedSubjects = [] ∧ rule.denyNonOwner = false)
    (hapart : ∀ other ∈ rules, target.startsWith other.path = true → other = rule)
    (subject : ProcessSubject) (access : AccessKind) :
    Policy.decide (config.withRules rules) subject target access =
      if target.fileName = some (utf8 ".gitignore") ∨ rule.owner = subjectName subject ∨
          Policy.sharedPathAllows config subject (subjectName subject) target access = true then .allow
      else Policy.promptForCrossOwnerAccess config access dir := by
  have howner := ownerFor_withRules huncovered hbelow hrule hpath hapart
  have hsensitive := sensitiveDevToolAccess_uncovered huncovered hbelow subject (subjectName subject)
  have hallows : rule.allows subject (subjectName subject) = (rule.owner == subjectName subject) := by
    rw [OwnedPath.allows, hplain.1]
    exact Bool.or_false _
  have hdecide : Policy.decide (config.withRules rules) subject target access =
      if target.fileName = some (utf8 ".gitignore") then .allow
      else if rule.owner == subjectName subject then .allow
      else if Policy.sharedPathAllows config subject (subjectName subject) target access then .allow
      else Policy.promptForCrossOwnerAccess config access rule.path := by
    unfold Policy.decide
    dsimp only
    rw [howner]
    simp only [Option.any_some, hallows, hplain.2, Bool.false_eq_true, if_false]
    rw [show Policy.sensitiveDevToolAccess (config.withRules rules) subject (subjectName subject)
      target = none from hsensitive]
    rfl
  rw [hdecide, hpath]
  simp only [beq_iff_eq, ite_or]

end

section

variable {options : ReconcileOptions} {clock : Path → Nat} {tree tree' : ConfigTree}
  {actions : List ReconcileAction}

theorem planEntry_associated_uncovered {entry : Path} {timestampSuffix : Nat}
    {action : ReconcileAction}
    (h : planEntry entry options timestampSuffix tree = (tree', .ok action))
    (hkind : action.kind = .associated) :
    action.source = entry ∧ policyCoversPath options.policyConfig entry = false := by
  by_cases hcovers : policyCoversPath options.policyConfig entry = true
  · rw [(planEntry_keep_iff entry options timestampSuffix tree).mpr hcovers] at h
    rw [← Except.ok.inj (Prod.mk.inj h).2] at hkind
    cases hkind
  · refine ⟨?_, Bool.eq_false_iff.mpr hcovers⟩
    rw [planEntry, if_neg hcovers] at h
    split at h
    · exact (associationAction_ok h).1
    · exact (archiveAction_ok h).1

/-- No rule of the policy overlaps a directory that is associated. -/
theorem planEntries_associated_uncovered {entries : List Path}
    (h : planEntries options clock entries tree = (tree', .ok actions)) {action : ReconcileAction}
    (haction : action ∈ actions) (hkind : action.kind = .associated) :
    policyCoversPath options.policyConfig action.source = false := by
  induction entries generalizing tree actions with
  | nil =>
    rw [← Except.ok.inj (Prod.mk.inj h).2] at haction
    cases haction
  | cons entry entries ih =>
    rcases planEntries_cons_ok h with ⟨-, hrest⟩ | ⟨-, -, tree₁, first, rest, hplan, hrest, rfl⟩
    · exact ih hrest haction
    · rcases List.mem_cons.mp haction with rfl | haction
      · obtain ⟨hsource, huncovered⟩ := planEntry_associated_uncovered hplan hkind
        rw [hsource]
        exact huncovered
      · exact ih hrest haction

end

/-- The entries that are handled lie side by side: a path is below one of them at most. -/
theorem action_of_below {options : ReconcileOptions} {configPath : Path}
    {tree tree' : ConfigTree} {entries : List Path} {actions : List ReconcileAction}
    (hrun : Run options configPath tree entries actions tree')
    (hnames : ∀ entry ∈ entries, ∃ name, Path.IsName name ∧ entry = options.configHome.join ⟨name⟩)
    (hnodup : entries.Nodup) {action action' : ReconcileAction} (haction : action ∈ actions)
    (haction' : action' ∈ actions) {target : Path} (hbelow : target.startsWith action.source = true)
    (hbelow' : target.startsWith action'.source = true) : action' = action := by
  obtain ⟨name, hname, hsource⟩ := hnames _ (hrun.source_mem haction)
  obtain ⟨name', hname', hsource'⟩ := hnames _ (hrun.source_mem haction')
  have hsame : action'.source = action.source := by
    rw [Path.startsWith_iff, hsource, Path.components_join hname] at hbelow
    rw [Path.startsWith_iff, hsource', Path.components_join hname'] at hbelow'
    have heq := List.append_cancel_left ((List.prefix_of_prefix_length_le hbelow' hbelow
      (by simp)).eq_of_length (by simp))
    rw [hsource, hsource', Component.normal.inj (List.cons.inj heq).1]
  exact List.inj_on_of_nodup_map (hrun.nodup_sources hnodup) haction' haction hsame

/-- With the policy file that an applied run leaves, the same is decided as before on every
path that is not below an associated directory. Below such a directory everything was
allowed before; now the associated owner is, and whom a shared rule by text allows, and
everyone else is asked about as a cross-owner access to the directory. In every run of a
guard with that file the owner is answered `Allow` there. -/
theorem associations_are_enforced (parse : String → Option PolicyConfig) (options : ReconcileOptions)
    (configPath : Path) (clock : Path → Nat) (tree tree' : ConfigTree) (plan : ReconcilePlan)
    (h : AppliedRun parse options configPath clock tree tree' plan)
    (hstays : PolicyFileStays configPath plan) :
    ∃ config, loadPolicyConfig parse configPath tree' = some config ∧
      (∀ subject target access,
        (∀ action ∈ plan.actions, action.kind = .associated →
          target.startsWith action.source = false) →
        Policy.decide config subject target access =
          Policy.decide options.policyConfig subject target access) ∧
      ∀ action ∈ plan.actions, action.kind = .associated →
        (∀ subject target access, target.startsWith action.source = true →
          Policy.decide options.policyConfig subject target access = .allow ∧
          Policy.decide config subject target access =
            if target.fileName = some (utf8 ".gitignore") ∨
                (associationRule action).owner = subjectName subject ∨
                Policy.sharedPathAllows options.policyConfig subject (subjectName subject) target
                  access = true then .allow
            else Policy.promptForCrossOwnerAccess options.policyConfig access action.source) ∧
        ∀ pathAliases backend paths excludedPaths io s,
          let policy : StaticPolicy := ⟨config, pathAliases⟩
          Reachable (guardRun (guardOf policy backend paths excludedPaths io)) anyStep s →
          ∀ before after ev d ok, s.world.trace = before ++ .responded ev d ok :: after →
          ∃ e event target, ev = some e ∧ s.world.handed[e]? = some event ∧
            event.target = .ok target ∧
            ((policy.decisionPath target).startsWith action.source = true →
              (associationRule action).owner = subjectName event.subject → d = .allow) := by
  have hstays' : ∀ action ∈ plan.actions, action.kind = .archived →
      ¬ action.source.components <+: configPath.components := by
    intro action haction hkind hpre
    rw [← Path.startsWith_iff, hstays action haction hkind] at hpre
    cases hpre
  obtain ⟨entries, content, hentries, hrun, hnames, hnodup, hpolicy, hparse, hback⟩ := h.steps
  obtain ⟨entries', hentries', hplan⟩ := planReconcile_ok h.ran
  let rules := associationRules plan.actions
  refine ⟨options.policyConfig.withRules rules, ?_, ?_, ?_⟩
  · rw [loadPolicyConfig, readToString_eq_some.mpr (hrun.policy hnames hpolicy hstays')]
    exact parse_associationRules hparse hback
  · intro subject target access houtside
    refine decide_withRules_outside (fun rule hrule => ?_) subject access
    obtain ⟨action, haction, hkind, rfl⟩ := mem_associationRules.mp hrule
    exact houtside action haction hkind
  · intro action haction hkind
    have huncovered := planEntries_associated_uncovered hplan haction hkind
    have hrule : associationRule action ∈ rules :=
      mem_associationRules.mpr ⟨action, haction, hkind, rfl⟩
    have hapart : ∀ target : Path, target.startsWith action.source = true → ∀ other ∈ rules,
        target.startsWith other.path = true → other = associationRule action := by
      intro target hbelow other hother hover
      obtain ⟨action', haction', -, rfl⟩ := mem_associationRules.mp hother
      rw [action_of_below hrun hnames hnodup haction haction' hbelow hover]
    have hbelow : ∀ subject target access, target.startsWith action.source = true →
        Policy.decide (options.policyConfig.withRules rules) subject target access =
          if target.fileName = some (utf8 ".gitignore") ∨
              (associationRule action).owner = subjectName subject ∨
              Policy.sharedPathAllows options.policyConfig subject (subjectName subject) target
                access = true then .allow
          else Policy.promptForCrossOwnerAccess options.policyConfig access action.source :=
      fun subject target access htarget => decide_withRules_below huncovered htarget hrule rfl
        ⟨rfl, rfl⟩ (hapart target htarget) subject access
    refine ⟨fun subject target access htarget =>
      ⟨decide_uncovered huncovered htarget subject access, hbelow subject target access htarget⟩, ?_⟩
    intro pathAliases backend paths excludedPaths io s policy hs before after ev d ok htrace
    obtain ⟨e, event, target, hev, hevent, htarget, hcases⟩ := response_cases hs htrace
    refine ⟨e, event, target, hev, hevent, htarget, fun hunder howner => ?_⟩
    have hallow : policy.decide event.subject target (accessKind event.mask) = .allow := by
      rw [StaticPolicy.decide, hbelow _ _ _ hunder, if_pos (.inr (.inl howner))]
    rcases hcases with ⟨-, hd⟩ | ⟨-, _, -, ⟨hd, -⟩ | ⟨_, _, hprompt, -⟩⟩
    · exact hd
    · exact hd.symm.trans hallow
    · cases hallow.symm.trans hprompt

def curlSubject : ProcessSubject where
  executable := Path.ofString "/usr/bin/curl"
  command := ["curl"]
  ancestors := []

def ghHosts : Path := Path.ofString "/c/gh/hosts.yml"

def threeToolsRoot : Table :=
  emptyTable.set "sensitive_paths" (.tables [emptyTable.set "path" (.string "/c/keep")])

theorem parse_threeTools : lineReader.parse threeToolsText.toList = some threeToolsRoot := by
  have htext : threeToolsText.toList = headerText "sensitive_paths" ++
      (openingText "path" ++ ("/c/keep".toList ++ '"' :: '\n' :: [])) := by decide +kernel
  have hbare : IsBare "sensitive_paths" := IsBare.of_all (by decide) (by decide)
  have hplain : ∀ c ∈ "/c/keep".toList, IsPlain c := IsPlain.of_all (by decide)
  simp only [Reader.parse, htext, lineReader_lawful.read_header hbare,
    lineReader_lawful.read_quoted isBare_path hplain]
  rfl

theorem threeToolsRoot_extendable : Extendable threeToolsRoot "owned_paths" := by
  intro value hvalue
  have hnone : threeToolsRoot.get "owned_paths" = none := rfl
  rw [hnone] at hvalue
  cases hvalue

/-- With `~/.config/gh` associated, `curl` is asked about there and elsewhere is not. -/
theorem associations_are_enforced_threeTools :
    ∃ config, loadPolicyConfig (parsePolicy lineReader) (Path.ofString "/p")
        (treeAfter (appliedOptions threeToolsConfig (Path.ofString "/p")) threeTools) = some config ∧
      Policy.decide config curlSubject (Path.ofString "/c/other") .read = .allow ∧
      Policy.decide config curlSubject ghHosts .read =
        .prompt .crossOwnerRead .allow (Path.ofString "/c/gh") := by
  have htext : readToString threeTools (Path.ofString "/p") = some threeToolsText := by
    decide +kernel
  have hconfig : readPolicyConfig threeToolsRoot = some threeToolsConfig := by decide +kernel
  have hloaded : loadPolicyConfig (parsePolicy lineReader) (Path.ofString "/p") threeTools =
      some threeToolsConfig := by
    rw [loadPolicyConfig, htext, Option.bind_some, parsePolicy, parse_threeTools, Option.bind_some,
      hconfig]
  have hback : ∀ content, readToString threeTools (Path.ofString "/p") = some content →
      RulesParseBack (parsePolicy lineReader) content threeToolsPlan.actions := by
    intro content hcontent
    obtain rfl := Option.some.inj (htext.symm.trans hcontent)
    refine rulesParseBack lineReader_lawful parse_threeTools hconfig threeToolsRoot_extendable ?_
    intro action haction hkind
    rcases List.mem_cons.mp haction with rfl | haction
    · exact ⟨⟨"/c/gh", by decide +kernel, IsPlain.of_all (by decide +kernel)⟩,
        IsPlain.of_all (by decide +kernel)⟩
    · rcases List.mem_cons.mp haction with rfl | haction
      · cases hkind
      · obtain rfl := List.mem_singleton.mp haction
        cases hkind
  obtain ⟨config, hload, hsame, hbelow⟩ := associations_are_enforced (parsePolicy lineReader)
    (appliedOptions threeToolsConfig (Path.ofString "/p")) (Path.ofString "/p") (fun _ => 0) threeTools
    (treeAfter (appliedOptions threeToolsConfig (Path.ofString "/p")) threeTools) threeToolsPlan
    ⟨rfl, rfl, hloaded, planReconcile_eq (by decide +kernel), hback⟩
    (by rw [PolicyFileStays]; decide +kernel)
  refine ⟨config, hload, ?_, ?_⟩
  · rw [hsame curlSubject (Path.ofString "/c/other") .read (by decide +kernel)]
    decide +kernel
  · rw [((hbelow _ List.mem_cons_self rfl).1 curlSubject ghHosts .read (by decide +kernel)).2]
    decide +kernel

end ConfigGuard
