import ConfigGuard.Policy.Decide

/-!
# The most specific rule over a path

Rules are matched by their components and ranked by the bytes they are written
with. The two notions of length part where a path is spelled with bytes that
make no component.
-/

namespace ConfigGuard
open OsPath Selection

def depth (p : Path) : Nat := p.components.length

section Ranking

variable {Rule : Type} (path : Rule → Path) (rules : List Rule) (target : Path)

/-- The rules the target lies under, in the order of the file. -/
def covering : List Rule := rules.filter fun rule => target.startsWith (path rule)

/-- A rule over the target, and none over the target is deeper. -/
structure MostSpecific (rule : Rule) : Prop where
  covers : target.startsWith (path rule) = true
  deepest : ∀ other ∈ rules, target.startsWith (path other) = true →
    depth (path other) ≤ depth (path rule)

/-- Where rules cover the target, one of the deepest is written at least as
long as every shallower one before it and longer than every shallower one
after it. -/
def DeepestWrittenLongest : Prop :=
  covering path rules target ≠ [] →
    ∃ before rule after, covering path rules target = before ++ rule :: after ∧
      MostSpecific path rules target rule ∧
      (∀ other ∈ before, depth (path other) < depth (path rule) →
        (path other).bytes.length ≤ (path rule).bytes.length) ∧
      ∀ other ∈ after, depth (path other) < depth (path rule) →
        (path other).bytes.length < (path rule).bytes.length

variable {path rules target}

/-- The rules over the target that are not most specific are those shallower
than one that is. -/
theorem not_mostSpecific_iff {rule other : Rule} (hother : other ∈ covering path rules target)
    (hrule : MostSpecific path rules target rule) (hmem : rule ∈ covering path rules target) :
    ¬ MostSpecific path rules target other ↔ depth (path other) < depth (path rule) := by
  constructor
  · intro hnot
    by_contra hle
    refine hnot ⟨(List.mem_filter.mp hother).2, ?_⟩
    intro third hthird hcovers
    exact (hrule.deepest third hthird hcovers).trans (Nat.not_lt.mp hle)
  · intro hlt hspecific
    have hle := hspecific.deepest rule (List.mem_filter.mp hmem).1 hrule.covers
    omega

theorem outweighs_iff {before after : List Rule} {rule : Rule}
    (hcovering : covering path rules target = before ++ rule :: after)
    (hrule : MostSpecific path rules target rule) :
    Outweighs (fun rule => (path rule).bytes.length) (MostSpecific path rules target) before
        (path rule).bytes.length after ↔
      (∀ other ∈ before, depth (path other) < depth (path rule) →
        (path other).bytes.length ≤ (path rule).bytes.length) ∧
      ∀ other ∈ after, depth (path other) < depth (path rule) →
        (path other).bytes.length < (path rule).bytes.length := by
  have hmem : rule ∈ covering path rules target := by rw [hcovering]; simp
  have hshallow : ∀ other ∈ before ++ rule :: after,
      (¬ MostSpecific path rules target other ↔ depth (path other) < depth (path rule)) :=
    fun other hother => not_mostSpecific_iff (hcovering ▸ hother) hrule hmem
  constructor
  · rintro ⟨hbefore, hafter⟩
    constructor
    · intro other hother hlt
      exact hbefore other hother ((hshallow other (by simp [hother])).mpr hlt)
    · intro other hother hlt
      exact hafter other hother ((hshallow other (by simp [hother])).mpr hlt)
  · rintro ⟨hbefore, hafter⟩
    constructor
    · intro other hother hnot
      exact hbefore other hother ((hshallow other (by simp [hother])).mp hnot)
    · intro other hother hnot
      exact hafter other hother ((hshallow other (by simp [hother])).mp hnot)

theorem longest_mostSpecific_iff :
    (∀ rule, maxByKey (fun rule => (path rule).bytes.length) (covering path rules target) =
        some rule → MostSpecific path rules target rule) ↔
      DeepestWrittenLongest path rules target := by
  rw [maxByKey_good_iff]
  constructor
  · intro h hne
    obtain ⟨before, rule, after, hcovering, hrule, hweight⟩ := h hne
    exact ⟨before, rule, after, hcovering, hrule, (outweighs_iff hcovering hrule).mp hweight⟩
  · intro h hne
    obtain ⟨before, rule, after, hcovering, hrule, hweight⟩ := h hne
    exact ⟨before, rule, after, hcovering, hrule, (outweighs_iff hcovering hrule).mpr hweight⟩

end Ranking

/-- The selected rule is most specific exactly where the rules over the target
are written so that a deepest one is the longest. -/
theorem mostSpecific_selected_iff (config : PolicyConfig) (subject : ProcessSubject)
    (name : String) (target : Path) :
    ((∀ owned, Policy.ownerFor config target = some owned →
        MostSpecific OwnedPath.path config.ownedPaths target owned) ↔
      DeepestWrittenLongest OwnedPath.path config.ownedPaths target) ∧
    ((∀ rule, Policy.sensitiveDevToolAccess config subject name target = some rule →
        MostSpecific PathRule.path config.sensitivePaths target rule) ↔
      (subjectsAllow config.devTools subject name = true →
        DeepestWrittenLongest PathRule.path config.sensitivePaths target)) := by
  refine ⟨longest_mostSpecific_iff, ?_⟩
  rw [← longest_mostSpecific_iff]
  unfold Policy.sensitiveDevToolAccess
  split
  · rename_i hallow
    simp only [hallow, forall_const]
    rfl
  · rename_i hallow
    simp [hallow]

/-- The directory of all configuration, written with slashes that do not count. -/
def paddedConfigRule : OwnedPath where
  path := Path.ofString "/home/u/.config//////"
  owner := "desktop"

def ghRule : OwnedPath where
  path := Path.ofString "/home/u/.config/gh"
  owner := "gh"

theorem padded_rule_outranks_gh :
    ¬ ∀ (config : PolicyConfig) (subject : ProcessSubject) (name : String) (target : Path),
      (∀ owned, Policy.ownerFor config target = some owned →
        MostSpecific OwnedPath.path config.ownedPaths target owned) ∧
      ∀ rule, Policy.sensitiveDevToolAccess config subject name target = some rule →
        MostSpecific PathRule.path config.sensitivePaths target rule := by
  intro h
  have hselected := (h { ownedPaths := [ghRule, paddedConfigRule] } ⟨⟨[]⟩, [], []⟩ "gh"
    (Path.ofString "/home/u/.config/gh/hosts.yml")).1 paddedConfigRule (by decide)
  have hle := hselected.deepest ghRule (by simp) (by decide)
  exact absurd hle (by decide)

end ConfigGuard
