import ConfigGuard.Policy.Decide

/-!
# How the decision moves when a rule is edited

`Policy::decide` is a chain of stages. Each edit of the configuration touches
one stage, and what a stage can do to the verdict bounds what the edit can do
to the decision.
-/

namespace ConfigGuard
open OsPath Selection

/-- What the stages of `decide` found, in their order of precedence; the two
paths are the scopes a prompt would have. -/
structure Stages where
  gitignore : Bool
  ownerAllows : Bool
  ownerDenies : Bool
  sharedAllows : Bool
  sensitive : Option Path
  crossOwner : Option Path

def Stages.verdict (stages : Stages) (config : PolicyConfig) (access : AccessKind) : Decision :=
  if stages.gitignore then .allow
  else if stages.ownerAllows then .allow
  else if stages.ownerDenies then .deny
  else if stages.sharedAllows then .allow
  else match stages.sensitive with
    | some scope => Policy.promptForSensitiveAccess config access scope
    | none =>
      match stages.crossOwner with
      | some scope => Policy.promptForCrossOwnerAccess config access scope
      | none => .allow

def Policy.stages (config : PolicyConfig) (subject : ProcessSubject) (target : Path)
    (access : AccessKind) : Stages where
  gitignore := target.fileName = some (utf8 ".gitignore")
  ownerAllows := (ownerFor config target).any (·.allows subject (subjectName subject))
  ownerDenies := (ownerFor config target).any (·.denyNonOwner)
  sharedAllows := sharedPathAllows config subject (subjectName subject) target access
  sensitive := (sensitiveDevToolAccess config subject (subjectName subject) target).map (·.path)
  crossOwner := (ownerFor config target).map (·.path)

theorem decide_eq_verdict (config : PolicyConfig) (subject : ProcessSubject) (target : Path)
    (access : AccessKind) :
    Policy.decide config subject target access =
      (Policy.stages config subject target access).verdict config access := by
  simp only [Policy.decide, Stages.verdict, Policy.stages, decide_eq_true_eq]
  congr 4
  cases Policy.sensitiveDevToolAccess config subject (subjectName subject) target with
  | some rule => rfl
  | none => cases Policy.ownerFor config target <;> rfl

/-- Of the configuration a verdict reads only the default. -/
theorem verdict_congr (stages : Stages) {config config' : PolicyConfig}
    (h : config'.failOpen = config.failOpen) (access : AccessKind) :
    stages.verdict config' access = stages.verdict config access := by
  have hdefault : Policy.defaultDecision config' = Policy.defaultDecision config := by
    simp only [Policy.defaultDecision, h]
  have hprompt : Policy.prompt config' = Policy.prompt config := by
    funext reason scope
    simp only [Policy.prompt, hdefault]
  cases access <;>
    simp only [Stages.verdict, Policy.promptForSensitiveAccess, Policy.promptForCrossOwnerAccess,
      hprompt]

def IsPrompt : Decision → Prop
  | .prompt _ _ _ => True
  | .allow | .deny => False

theorem isPrompt_sensitive (config : PolicyConfig) (access : AccessKind) (scope : Path) :
    IsPrompt (Policy.promptForSensitiveAccess config access scope) := by
  cases access <;> trivial

theorem isPrompt_crossOwner (config : PolicyConfig) (access : AccessKind) (scope : Path) :
    IsPrompt (Policy.promptForCrossOwnerAccess config access scope) := by
  cases access <;> trivial

/-- Prompts may become `allow`. -/
def LiftsPrompt (old new : Decision) : Prop := new = old ∨ IsPrompt old ∧ new = .allow

/-- Everything but a denial may become a prompt. -/
def RaisesPrompt (old new : Decision) : Prop := new = old ∨ old ≠ .deny ∧ IsPrompt new

def ChangesOnlyTo (outcome old new : Decision) : Prop := new = old ∨ new = outcome

section Verdict

variable (stages : Stages) (config : PolicyConfig) (access : AccessKind)

theorem verdict_ownerAllows :
    Stages.verdict { stages with ownerAllows := true } config access = .allow := by
  simp [Stages.verdict]

/-- The strict stage is reached only when nothing before it allows. -/
theorem verdict_ownerDenies :
    ChangesOnlyTo .deny (stages.verdict config access)
      (Stages.verdict { stages with ownerDenies := true } config access) := by
  simp only [ChangesOnlyTo, Stages.verdict]
  by_cases hg : stages.gitignore = true
  · simp [hg]
  · by_cases ho : stages.ownerAllows = true
    · simp [ho]
    · simp [hg, ho]

/-- Past the stage of the shared paths only prompts are left to be lifted. -/
theorem verdict_sharedAllows :
    LiftsPrompt (stages.verdict config access)
      (Stages.verdict { stages with sharedAllows := true } config access) := by
  by_cases hs : stages.sharedAllows = true
  · refine .inl ?_
    simp only [Stages.verdict, hs]
  · simp only [Stages.verdict, hs, if_true]
    split
    · exact .inl rfl
    · split
      · exact .inl rfl
      · split
        · exact .inl rfl
        · cases stages.sensitive with
          | some scope => exact .inr ⟨isPrompt_sensitive config access scope, rfl⟩
          | none =>
            cases stages.crossOwner with
            | some scope => exact .inr ⟨isPrompt_crossOwner config access scope, rfl⟩
            | none => exact .inl rfl

theorem verdict_sensitive (scope : Path) :
    RaisesPrompt (stages.verdict config access)
      (Stages.verdict { stages with sensitive := some scope } config access) := by
  simp only [RaisesPrompt, Stages.verdict]
  split
  · exact .inl rfl
  · split
    · exact .inl rfl
    · split
      · exact .inl rfl
      · split
        · exact .inl rfl
        · refine .inr ⟨?_, isPrompt_sensitive config access scope⟩
          split
          · cases access <;> (intro h; cases h)
          · split
            · cases access <;> (intro h; cases h)
            · intro h; cases h

end Verdict

theorem subjectsAllow_middle (l : List String) (entry : String) (r : List String)
    (subject : ProcessSubject) (name : String) :
    subjectsAllow (l ++ entry :: r) subject name =
      (subjectMatches (utf8 entry) subject name || subjectsAllow (l ++ r) subject name) := by
  simp only [subjectsAllow, List.any_append, List.any_cons]
  ac_rfl

/-- Among `before`, a rule with this path and `after`, that rule governs the
target: of the rules over the target it is the last of the longest. -/
structure Governs (before : List OwnedPath) (path : Path) (after : List OwnedPath)
    (target : Path) : Prop where
  covers : target.startsWith path = true
  before : ∀ other ∈ before, target.startsWith other.path = true →
    other.path.bytes.length ≤ path.bytes.length
  after : ∀ other ∈ after, target.startsWith other.path = true →
    other.path.bytes.length < path.bytes.length

section OwnerFor

variable {config : PolicyConfig} {before after : List OwnedPath} {rule : OwnedPath} {target : Path}

theorem ownerFor_of_governs (h : Governs before rule.path after target) :
    Policy.ownerFor { config with ownedPaths := before ++ rule :: after } target = some rule := by
  rw [Policy.ownerFor, List.filter_append, List.filter_cons, if_pos h.covers]
  apply maxByKey_selectedAt (fun owned : OwnedPath => owned.path.bytes.length)
  constructor
  · intro other hother
    rw [List.mem_filter] at hother
    exact h.before other hother.1 hother.2
  · intro other hother
    rw [List.mem_filter] at hother
    exact h.after other hother.1 hother.2

/-- A rule that does not govern the target may be exchanged for any other with its path. -/
theorem ownerFor_of_not_governs {rule' : OwnedPath} (hpath : rule'.path = rule.path)
    (h : ¬ Governs before rule.path after target) :
    Policy.ownerFor { config with ownedPaths := before ++ rule' :: after } target =
      Policy.ownerFor { config with ownedPaths := before ++ rule :: after } target := by
  simp only [Policy.ownerFor, List.filter_append, List.filter_cons, hpath]
  split
  · rename_i hover
    apply maxByKey_not_selectedAt (fun owned : OwnedPath => owned.path.bytes.length)
    · rw [hpath]
    · intro hselected
      refine h ⟨hover, ?_, ?_⟩
      · intro other hother hotherOver
        exact hselected.1 other (List.mem_filter.mpr ⟨hother, hotherOver⟩)
      · intro other hother hotherOver
        exact hselected.2 other (List.mem_filter.mpr ⟨hother, hotherOver⟩)
  · rfl

end OwnerFor

section Laws

variable (config : PolicyConfig) (subject : ProcessSubject) (target : Path) (access : AccessKind)

theorem decide_sharedPaths {old new : List SharedPath}
    (h : Policy.sharedPathAllows { config with sharedPaths := old } subject (subjectName subject)
        target access = true →
      Policy.sharedPathAllows { config with sharedPaths := new } subject (subjectName subject)
        target access = true) :
    LiftsPrompt (Policy.decide { config with sharedPaths := old } subject target access)
      (Policy.decide { config with sharedPaths := new } subject target access) := by
  let stages := Policy.stages { config with sharedPaths := old } subject target access
  let allows := Policy.sharedPathAllows { config with sharedPaths := new } subject
    (subjectName subject) target access
  have hold : Policy.decide { config with sharedPaths := old } subject target access =
      stages.verdict config access :=
    (decide_eq_verdict _ subject target access).trans (verdict_congr _ rfl access)
  have hnew : Policy.decide { config with sharedPaths := new } subject target access =
      Stages.verdict { stages with sharedAllows := allows } config access :=
    (decide_eq_verdict _ subject target access).trans (verdict_congr _ rfl access)
  rw [hold, hnew]
  cases hallows : allows with
  | true => exact verdict_sharedAllows stages config access
  | false =>
    have hfalse : stages.sharedAllows = false := by
      rw [Bool.eq_false_iff]
      intro htrue
      have hallowed : allows = true := h htrue
      rw [hallows] at hallowed
      cases hallowed
    rw [← hfalse]
    exact .inl rfl

/-- Adding a shared path. -/
theorem decide_add_sharedPath (before : List SharedPath) (shared : SharedPath)
    (after : List SharedPath) :
    LiftsPrompt
      (Policy.decide { config with sharedPaths := before ++ after } subject target access)
      (Policy.decide { config with sharedPaths := before ++ shared :: after } subject target
        access) := by
  apply decide_sharedPaths
  simp only [Policy.sharedPathAllows, List.any_append, List.any_cons, Bool.or_eq_true]
  tauto

/-- Adding a subject entry to a shared path. -/
theorem decide_add_sharedSubject (before : List SharedPath) (shared : SharedPath)
    (after : List SharedPath) (l : List String) (entry : String) (r : List String) :
    LiftsPrompt
      (Policy.decide { config with sharedPaths :=
        before ++ { shared with allowedSubjects := l ++ r } :: after } subject target access)
      (Policy.decide { config with sharedPaths :=
        before ++ { shared with allowedSubjects := l ++ entry :: r } :: after } subject target
        access) := by
  apply decide_sharedPaths
  simp only [Policy.sharedPathAllows, List.any_append, List.any_cons, Bool.or_eq_true,
    Bool.and_eq_true, subjectsAllow_middle, sharedPathMatches]
  tauto

theorem decide_sensitiveAccess {old new : List PathRule} {oldTools newTools : List String}
    (h : Policy.sensitiveDevToolAccess
        { config with sensitivePaths := new, devTools := newTools } subject
        (subjectName subject) target = none →
      Policy.sensitiveDevToolAccess
        { config with sensitivePaths := old, devTools := oldTools } subject
        (subjectName subject) target = none) :
    RaisesPrompt
      (Policy.decide { config with sensitivePaths := old, devTools := oldTools } subject target
        access)
      (Policy.decide { config with sensitivePaths := new, devTools := newTools } subject target
        access) := by
  let stages := Policy.stages { config with sensitivePaths := old, devTools := oldTools } subject
    target access
  let sensitive := Policy.sensitiveDevToolAccess
    { config with sensitivePaths := new, devTools := newTools } subject (subjectName subject) target
  have hold : Policy.decide { config with sensitivePaths := old, devTools := oldTools } subject
      target access = stages.verdict config access :=
    (decide_eq_verdict _ subject target access).trans (verdict_congr _ rfl access)
  have hnew : Policy.decide { config with sensitivePaths := new, devTools := newTools } subject
      target access =
      Stages.verdict { stages with sensitive := sensitive.map (·.path) } config access :=
    (decide_eq_verdict _ subject target access).trans (verdict_congr _ rfl access)
  rw [hold, hnew]
  cases hsensitive : sensitive with
  | some rule => exact verdict_sensitive stages config access rule.path
  | none =>
    have hnone : stages.sensitive = none := by
      show Option.map _ (Policy.sensitiveDevToolAccess _ _ _ _) = none
      rw [h hsensitive]
      rfl
    rw [Option.map_none, ← hnone]
    exact .inl rfl

/-- Adding a sensitive path. -/
theorem decide_add_sensitivePath (before : List PathRule) (rule : PathRule)
    (after : List PathRule) :
    RaisesPrompt
      (Policy.decide { config with sensitivePaths := before ++ after } subject target access)
      (Policy.decide { config with sensitivePaths := before ++ rule :: after } subject target
        access) := by
  apply decide_sensitiveAccess config subject target access
  simp only [Policy.sensitiveDevToolAccess]
  split
  · simp only [maxByKey_eq_none, List.filter_append, List.append_eq_nil_iff, List.filter_cons]
    split
    · rintro ⟨-, hnil⟩
      cases hnil
    · exact id
  · exact id

/-- Adding a dev tool. -/
theorem decide_add_devTool (before : List String) (tool : String) (after : List String) :
    RaisesPrompt (Policy.decide { config with devTools := before ++ after } subject target access)
      (Policy.decide { config with devTools := before ++ tool :: after } subject target
        access) := by
  apply decide_sensitiveAccess config subject target access
  simp only [Policy.sensitiveDevToolAccess, subjectsAllow_middle, Bool.or_eq_true]
  intro h
  by_cases hallow : subjectsAllow (before ++ after) subject (subjectName subject) = true
  · simpa [hallow] using h
  · simp [hallow]

/-- One rule exchanged for another with its path: only targets it governs notice. -/
theorem decide_of_not_governs {before after : List OwnedPath} {rule rule' : OwnedPath}
    (hpath : rule'.path = rule.path) (h : ¬ Governs before rule.path after target) :
    Policy.decide { config with ownedPaths := before ++ rule' :: after } subject target access =
      Policy.decide { config with ownedPaths := before ++ rule :: after } subject target
        access := by
  simp only [Policy.decide, ownerFor_of_not_governs hpath h]
  rfl

/-- On a target it governs, a rule decides the first two stages after the name. -/
theorem decide_of_governs {before after : List OwnedPath} {path : Path} (rule : OwnedPath)
    (hpath : rule.path = path) (h : Governs before path after target) :
    Policy.decide { config with ownedPaths := before ++ rule :: after } subject target access =
      Stages.verdict
        { Policy.stages { config with ownedPaths := [] } subject target access with
          ownerAllows := rule.allows subject (subjectName subject)
          ownerDenies := rule.denyNonOwner
          crossOwner := some path } config access := by
  subst hpath
  rw [decide_eq_verdict, verdict_congr _ rfl access]
  simp only [Policy.stages, ownerFor_of_governs h, Option.any_some, Option.map_some]
  rfl

/-- Adding a subject entry to an owned path. -/
theorem decide_add_ownedSubject (before : List OwnedPath) (rule : OwnedPath)
    (after : List OwnedPath) (l : List String) (entry : String) (r : List String) :
    ChangesOnlyTo .allow
      (Policy.decide { config with ownedPaths :=
        before ++ { rule with allowedSubjects := l ++ r } :: after } subject target access)
      (Policy.decide { config with ownedPaths :=
        before ++ { rule with allowedSubjects := l ++ entry :: r } :: after } subject target
        access) := by
  by_cases h : Governs before rule.path after target
  · rw [decide_of_governs config subject target access
        { rule with allowedSubjects := l ++ entry :: r } rfl h,
      decide_of_governs config subject target access
        { rule with allowedSubjects := l ++ r } rfl h]
    simp only [OwnedPath.allows, subjectsAllow_middle]
    cases hentry : subjectMatches (utf8 entry) subject (subjectName subject) with
    | false => exact .inl (by rw [Bool.false_or])
    | true =>
      rw [Bool.true_or, Bool.or_true]
      exact .inr (verdict_ownerAllows _ config access)
  · exact .inl (decide_of_not_governs config subject target access rfl h)

/-- Making an owned path deny everyone it does not allow. -/
theorem decide_set_denyNonOwner (before : List OwnedPath) (rule : OwnedPath)
    (after : List OwnedPath) :
    ChangesOnlyTo .deny
        (Policy.decide { config with ownedPaths := before ++ rule :: after } subject target access)
        (Policy.decide { config with ownedPaths :=
          before ++ { rule with denyNonOwner := true } :: after } subject target access) ∧
      (¬ Governs before rule.path after target →
        Policy.decide { config with ownedPaths :=
          before ++ { rule with denyNonOwner := true } :: after } subject target access =
        Policy.decide { config with ownedPaths := before ++ rule :: after } subject target
          access) := by
  by_cases h : Governs before rule.path after target
  · refine ⟨?_, fun hnot => absurd h hnot⟩
    rw [decide_of_governs config subject target access { rule with denyNonOwner := true } rfl h,
      decide_of_governs config subject target access rule rfl h]
    exact verdict_ownerDenies
      { Policy.stages { config with ownedPaths := [] } subject target access with
        ownerAllows := rule.allows subject (subjectName subject)
        ownerDenies := rule.denyNonOwner
        crossOwner := some rule.path } config access
  · refine ⟨.inl ?_, fun _ => ?_⟩
    · exact decide_of_not_governs config subject target access rfl h
    · exact decide_of_not_governs config subject target access rfl h

/-- The laws of single edits: shared paths and their subjects lift prompts,
subjects of an owned path allow, sensitive paths and dev tools raise prompts
and leave denials alone, a strict rule denies on the targets it governs. An
edit may be made anywhere in its list. -/
theorem decide_under_edits :
    (∀ before shared after, LiftsPrompt
      (Policy.decide { config with sharedPaths := before ++ after } subject target access)
      (Policy.decide { config with sharedPaths := before ++ shared :: after } subject target
        access)) ∧
    (∀ before (shared : SharedPath) after l entry r, LiftsPrompt
      (Policy.decide { config with sharedPaths :=
        before ++ { shared with allowedSubjects := l ++ r } :: after } subject target access)
      (Policy.decide { config with sharedPaths :=
        before ++ { shared with allowedSubjects := l ++ entry :: r } :: after } subject target
        access)) ∧
    (∀ before (rule : OwnedPath) after l entry r, ChangesOnlyTo .allow
      (Policy.decide { config with ownedPaths :=
        before ++ { rule with allowedSubjects := l ++ r } :: after } subject target access)
      (Policy.decide { config with ownedPaths :=
        before ++ { rule with allowedSubjects := l ++ entry :: r } :: after } subject target
        access)) ∧
    (∀ before rule after, RaisesPrompt
      (Policy.decide { config with sensitivePaths := before ++ after } subject target access)
      (Policy.decide { config with sensitivePaths := before ++ rule :: after } subject target
        access)) ∧
    (∀ before tool after, RaisesPrompt
      (Policy.decide { config with devTools := before ++ after } subject target access)
      (Policy.decide { config with devTools := before ++ tool :: after } subject target
        access)) ∧
    (∀ before (rule : OwnedPath) after,
      ChangesOnlyTo .deny
        (Policy.decide { config with ownedPaths := before ++ rule :: after } subject target access)
        (Policy.decide { config with ownedPaths :=
          before ++ { rule with denyNonOwner := true } :: after } subject target access) ∧
      (¬ Governs before rule.path after target →
        Policy.decide { config with ownedPaths :=
          before ++ { rule with denyNonOwner := true } :: after } subject target access =
        Policy.decide { config with ownedPaths := before ++ rule :: after } subject target
          access)) :=
  ⟨decide_add_sharedPath config subject target access,
    decide_add_sharedSubject config subject target access,
    decide_add_ownedSubject config subject target access,
    decide_add_sensitivePath config subject target access,
    decide_add_devTool config subject target access,
    decide_set_denyNonOwner config subject target access⟩

end Laws

end ConfigGuard
