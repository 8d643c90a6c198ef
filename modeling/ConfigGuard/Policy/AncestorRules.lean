import ConfigGuard.Policy.Edits
import ConfigGuard.Policy.Alias

/-!
# Rules conditioned on an ancestor

What the rules `with-ancestor:` and `exe-with-ancestor-prefix:` can do for a
process without ancestors.
-/

namespace ConfigGuard
open OsPath Selection

/-- The entry starts like a rule that requires an ancestor. -/
def conditioned (entry : String) : Bool :=
  (utf8 "with-ancestor:").isPrefixOf (utf8 entry) ||
    (utf8 "exe-with-ancestor-prefix:").isPrefixOf (utf8 entry)

def unconditioned (entries : List String) : List String :=
  entries.filter fun entry => !conditioned entry

def OwnedPath.unconditioned (owned : OwnedPath) : OwnedPath :=
  { owned with allowedSubjects := ConfigGuard.unconditioned owned.allowedSubjects }

def SharedPath.unconditioned (shared : SharedPath) : SharedPath :=
  { shared with allowedSubjects := ConfigGuard.unconditioned shared.allowedSubjects }

/-- The configuration with every conditioned entry deleted. -/
def PolicyConfig.unconditioned (config : PolicyConfig) : PolicyConfig :=
  { config with
    ownedPaths := config.ownedPaths.map OwnedPath.unconditioned
    sharedPaths := config.sharedPaths.map SharedPath.unconditioned
    devTools := ConfigGuard.unconditioned config.devTools }

theorem conditioned_cases {entry : String} (h : conditioned entry = true) :
    (∃ rule, utf8 entry = utf8 "with-ancestor:" ++ rule) ∨
      ∃ rule, utf8 entry = utf8 "exe-with-ancestor-prefix:" ++ rule := by
  rw [conditioned, Bool.or_eq_true, List.isPrefixOf_iff_prefix, List.isPrefixOf_iff_prefix] at h
  obtain ⟨rule, hrule⟩ | ⟨rule, hrule⟩ := h
  · exact .inl ⟨rule, hrule.symm⟩
  · exact .inr ⟨rule, hrule.symm⟩

theorem conditioned_ne_star {entry : String} (h : conditioned entry = true) :
    utf8 entry ≠ utf8 "*" := by
  obtain ⟨rule, hrule⟩ | ⟨rule, hrule⟩ := conditioned_cases h
  · rw [hrule]
    intro heq
    cases heq
  · rw [hrule]
    intro heq
    cases heq

/-- The rule parser asks for an ancestor that is not there. -/
theorem subjectMatches_of_ne_name {subject : ProcessSubject} (hanc : subject.ancestors = [])
    {entry : String} (h : conditioned entry = true) {name : String}
    (hname : utf8 entry ≠ utf8 name) : subjectMatches (utf8 entry) subject name = false := by
  obtain ⟨rule, hrule⟩ | ⟨rule, hrule⟩ := conditioned_cases h
  · rw [hrule] at hname ⊢
    rw [subjectMatches_withAncestor, decide_eq_false hname, Bool.false_or, Option.any_eq_false]
    intro parts _
    rw [hanc, List.any_nil, Bool.and_false]
  · have hliteral : ¬ (utf8 entry = utf8 "*" ∨ utf8 entry = utf8 name) := by
      rintro (hstar | heq)
      · exact conditioned_ne_star h hstar
      · exact hname heq
    have hplain : (utf8 "exe-prefix:").isPrefixOf? (utf8 entry) = none := by rw [hrule]; rfl
    have hexe : (utf8 "exe:").isPrefixOf? (utf8 entry) = none := by rw [hrule]; rfl
    have hwith : (utf8 "exe-with-ancestor-prefix:").isPrefixOf? (utf8 entry) = some rule := by
      rw [hrule]; rfl
    rw [subjectMatches, subjectMatchesWithin, if_neg hliteral, hplain, hexe, hwith]
    simp only [subjectMatchesExecutableWithAncestorPrefix, hanc, List.any_nil, Bool.and_false]
    split <;> rfl

/-- What is left of a conditioned entry is its comparison with the name. -/
theorem not_subjectMatches_conditioned {subject : ProcessSubject} (hanc : subject.ancestors = [])
    {name : String} (hname : conditioned name = false) {entry : String}
    (h : conditioned entry = true) : subjectMatches (utf8 entry) subject name = false := by
  refine subjectMatches_of_ne_name hanc h ?_
  intro heq
  have hsame : conditioned entry = conditioned name := by simp only [conditioned, heq]
  rw [h, hname] at hsame
  cases hsame

theorem subjectsAllow_unconditioned {subject : ProcessSubject} (hanc : subject.ancestors = [])
    {name : String} (hname : conditioned name = false) (entries : List String) :
    subjectsAllow (unconditioned entries) subject name = subjectsAllow entries subject name := by
  rw [Bool.eq_iff_iff]
  simp only [subjectsAllow, unconditioned, List.any_eq_true, List.mem_filter]
  constructor
  · rintro ⟨entry, ⟨hmem, -⟩, hmatch⟩
    exact ⟨entry, hmem, hmatch⟩
  · rintro ⟨entry, hmem, hmatch⟩
    refine ⟨entry, ⟨hmem, ?_⟩, hmatch⟩
    cases hentry : conditioned entry with
    | false => rfl
    | true =>
      rw [not_subjectMatches_conditioned hanc hname hentry] at hmatch
      cases hmatch

theorem ownerFor_unconditioned (config : PolicyConfig) (target : Path) :
    Policy.ownerFor config.unconditioned target =
      (Policy.ownerFor config target).map OwnedPath.unconditioned := by
  rw [Policy.ownerFor, PolicyConfig.unconditioned, List.filter_map]
  exact maxByKey_map (fun owned : OwnedPath => owned.path.bytes.length)
    (f := OwnedPath.unconditioned) (fun _ => rfl) _

section Decision

variable {subject : ProcessSubject} (hanc : subject.ancestors = [])
  (hname : conditioned (subjectName subject) = false) (config : PolicyConfig) (target : Path)
  (access : AccessKind)

include hanc hname

theorem stages_unconditioned :
    Policy.stages config.unconditioned subject target access =
      Policy.stages config subject target access := by
  have howned : ∀ owned : OwnedPath, owned.unconditioned.allows subject (subjectName subject) =
      owned.allows subject (subjectName subject) := by
    intro owned
    simp only [OwnedPath.allows, OwnedPath.unconditioned, subjectsAllow_unconditioned hanc hname]
  have hshared : Policy.sharedPathAllows config.unconditioned subject (subjectName subject) target
      access = Policy.sharedPathAllows config subject (subjectName subject) target access := by
    simp only [Policy.sharedPathAllows, PolicyConfig.unconditioned, List.any_map,
      Function.comp_def, SharedPath.unconditioned, sharedPathMatches,
      subjectsAllow_unconditioned hanc hname]
    rfl
  have hsensitive : Policy.sensitiveDevToolAccess config.unconditioned subject
      (subjectName subject) target =
      Policy.sensitiveDevToolAccess config subject (subjectName subject) target := by
    simp only [Policy.sensitiveDevToolAccess, PolicyConfig.unconditioned,
      subjectsAllow_unconditioned hanc hname]
  simp only [Policy.stages, ownerFor_unconditioned, hshared, hsensitive, Option.any_map,
    Option.map_map, Function.comp_def, howned]
  rfl

theorem decide_unconditioned :
    Policy.decide config.unconditioned subject target access =
      Policy.decide config subject target access := by
  rw [decide_eq_verdict, decide_eq_verdict, stages_unconditioned hanc hname]
  exact verdict_congr _ rfl access

end Decision

/-- One owned path of another owner that allows the entry. -/
def lentOnly (entry : String) : PolicyConfig where
  ownedPaths := [{ path := plainPath, owner := "", allowedSubjects := [entry] }]

theorem decide_lentOnly {subject : ProcessSubject} :
    Policy.decide (lentOnly (subjectName subject)) subject plainPath .read = .allow := by
  have howner : Policy.ownerFor (lentOnly (subjectName subject)) plainPath =
      some { path := plainPath, owner := "", allowedSubjects := [subjectName subject] } := by
    simp [Policy.ownerFor, lentOnly, Path.startsWith_refl, maxByKey]
  rw [Policy.decide, if_neg plainPath_fileName]
  simp [howner, OwnedPath.allows, subjectsAllow, subjectMatches, subjectMatchesWithin]

/-- For a process without ancestors the conditioned entries count for nothing
exactly when its name does not itself start like one of them: an executable
may be given the text of a rule as its name. -/
theorem conditioned_rules_inert_iff (subject : ProcessSubject) (hanc : subject.ancestors = []) :
    (∀ config target access, Policy.decide config.unconditioned subject target access =
      Policy.decide config subject target access) ↔
    conditioned (subjectName subject) = false := by
  constructor
  · intro h
    by_contra hname
    rw [Bool.not_eq_false] at hname
    have hdecide := h (lentOnly (subjectName subject)) plainPath .read
    have hdeleted : (lentOnly (subjectName subject)).unconditioned = ownedOnly plainPath "" := by
      simp only [lentOnly, PolicyConfig.unconditioned, List.map_cons, List.map_nil,
        OwnedPath.unconditioned, unconditioned, List.filter_cons, hname, Bool.not_true,
        Bool.false_eq_true, if_false, List.filter_nil]
      rfl
    rw [hdeleted, decide_lentOnly, decide_ownedOnly plainPath_fileName] at hdecide
    rw [← hdecide] at hname
    exact absurd hname (by decide)
  · intro hname config target access
    exact decide_unconditioned hanc hname config target access

theorem conditioned_rules_inert_cat :
    Policy.decide (lentOnly "with-ancestor:cat|firefox").unconditioned catSubject plainPath .read =
      Policy.decide (lentOnly "with-ancestor:cat|firefox") catSubject plainPath .read :=
  (conditioned_rules_inert_iff catSubject rfl).mpr (by decide) _ _ _

/-- An executable named after a rule, run by nobody in particular. -/
def ruleNamed : ProcessSubject where
  executable := Path.ofString "/tmp/with-ancestor:cat|firefox"
  command := ["x"]
  ancestors := []

theorem conditioned_rule_helps_ruleNamed :
    ¬ ∀ (config : PolicyConfig) (subject : ProcessSubject) (target : Path) (access : AccessKind),
      subject.ancestors = [] →
      Policy.decide config.unconditioned subject target access =
        Policy.decide config subject target access := by
  intro h
  have heq := h (lentOnly "with-ancestor:cat|firefox") ruleNamed plainPath .read rfl
  exact absurd heq (by decide)

end ConfigGuard
