import ConfigGuard.Guard.Consent
import ConfigGuard.Policy.Defaults

/-!
# The order of the rules

A policy file is a set of rules: as long as no two nested rules are written with the
same number of bytes, neither the order of the rules and of their lists nor what is
repeated in them changes a decision.
-/

namespace ConfigGuard
open OsPath Selection

/-- The rules are written alike up to the order of their subjects. -/
structure OwnedPath.Alike (a b : OwnedPath) : Prop where
  path : a.path = b.path
  owner : a.owner = b.owner
  allowedSubjects : ∀ subject, subject ∈ a.allowedSubjects ↔ subject ∈ b.allowedSubjects
  denyNonOwner : a.denyNonOwner = b.denyNonOwner

structure SharedPath.Alike (a b : SharedPath) : Prop where
  path : a.path = b.path
  pathPrefix : a.pathPrefix = b.pathPrefix
  allowedSubjects : ∀ subject, subject ∈ a.allowedSubjects ↔ subject ∈ b.allowedSubjects
  access : ∀ access, access ∈ a.access ↔ access ∈ b.access

/-- Each rule of one list has its like in the other. -/
structure SameRules {Rule : Type} (alike : Rule → Rule → Prop) (rules rules' : List Rule) :
    Prop where
  left : ∀ a ∈ rules, ∃ b ∈ rules', alike a b
  right : ∀ b ∈ rules', ∃ a ∈ rules, alike a b

/-- The configurations have the same rules, in any order and any number of times. -/
structure PolicyConfig.Same (config config' : PolicyConfig) : Prop where
  owned : SameRules OwnedPath.Alike config.ownedPaths config'.ownedPaths
  shared : SameRules SharedPath.Alike config.sharedPaths config'.sharedPaths
  sensitive : ∀ rule, rule ∈ config.sensitivePaths ↔ rule ∈ config'.sensitivePaths
  devTools : ∀ subject, subject ∈ config.devTools ↔ subject ∈ config'.devTools
  failOpen : config.failOpen = config'.failOpen

/-- Of two nested rules that differ, one is written with more bytes. -/
def Ranked {Rule : Type} (path : Rule → Path) (alike : Rule → Rule → Prop) (rules : List Rule) :
    Prop :=
  ∀ a ∈ rules, ∀ b ∈ rules, (path a).components <+: (path b).components →
    (path a).bytes.length = (path b).bytes.length → alike a b

structure PolicyConfig.Ranked (config : PolicyConfig) : Prop where
  owned : ConfigGuard.Ranked OwnedPath.path OwnedPath.Alike config.ownedPaths
  sensitive : ConfigGuard.Ranked PathRule.path Eq config.sensitivePaths

namespace OwnedPath.Alike

variable {a b c : OwnedPath}

theorem symm (h : a.Alike b) : b.Alike a :=
  ⟨h.path.symm, h.owner.symm, fun s => (h.allowedSubjects s).symm, h.denyNonOwner.symm⟩

theorem trans (h : a.Alike b) (h' : b.Alike c) : a.Alike c :=
  ⟨h.path.trans h'.path, h.owner.trans h'.owner,
    fun s => (h.allowedSubjects s).trans (h'.allowedSubjects s),
    h.denyNonOwner.trans h'.denyNonOwner⟩

end OwnedPath.Alike

theorem subjectsAllow_of_mem_iff {subjects subjects' : List String}
    (h : ∀ s, s ∈ subjects ↔ s ∈ subjects') (subject : ProcessSubject) (name : String) :
    subjectsAllow subjects subject name = subjectsAllow subjects' subject name := by
  rw [Bool.eq_iff_iff, subjectsAllow, subjectsAllow, List.any_eq_true, List.any_eq_true]
  simp only [h]

theorem OwnedPath.Alike.allows {a b : OwnedPath} (h : a.Alike b) (subject : ProcessSubject)
    (name : String) : a.allows subject name = b.allows subject name := by
  rw [OwnedPath.allows, OwnedPath.allows, h.owner, subjectsAllow_of_mem_iff h.allowedSubjects]

theorem SharedPath.Alike.matches {a b : SharedPath} (h : a.Alike b) (target : Path) :
    sharedPathMatches a target = sharedPathMatches b target := by
  rw [sharedPathMatches, sharedPathMatches, h.path, h.pathPrefix]

/-- Of the rules over a target the last longest ones are alike. -/
theorem maxByKey_covering {Rule : Type} {path : Rule → Path} {alike : Rule → Rule → Prop}
    {rules rules' : List Rule} (hsame : SameRules alike rules rules')
    (hpath : ∀ a b, alike a b → path a = path b) (hsymm : ∀ a b, alike a b → alike b a)
    (htrans : ∀ a b c, alike a b → alike b c → alike a c)
    (hranked : Ranked path alike rules) (target : Path) :
    Option.Rel alike
      (maxByKey (fun rule => (path rule).bytes.length)
        (rules.filter fun rule => target.startsWith (path rule)))
      (maxByKey (fun rule => (path rule).bytes.length)
        (rules'.filter fun rule => target.startsWith (path rule))) := by
  apply maxByKey_rel
  · intro a ha
    obtain ⟨hmem, hover⟩ := List.mem_filter.mp ha
    obtain ⟨b, hb, halike⟩ := hsame.left a hmem
    exact ⟨b, List.mem_filter.mpr ⟨hb, hpath a b halike ▸ hover⟩, halike⟩
  · intro b hb
    obtain ⟨hmem, hover⟩ := List.mem_filter.mp hb
    obtain ⟨a, ha, halike⟩ := hsame.right b hmem
    exact ⟨a, List.mem_filter.mpr ⟨ha, (hpath a b halike).symm ▸ hover⟩, halike⟩
  · intro a b halike
    rw [hpath a b halike]
  · intro a ha b hb hlength
    obtain ⟨hmem, hover⟩ := List.mem_filter.mp ha
    obtain ⟨hmem', hover'⟩ := List.mem_filter.mp hb
    obtain ⟨a', ha', halike⟩ := hsame.right b hmem'
    rw [← hpath a' b halike] at hlength hover'
    -- both are over the target, so one is inside the other
    rw [Path.startsWith_iff] at hover hover'
    rcases List.prefix_or_prefix_of_prefix hover hover' with hpre | hpre
    · exact htrans _ _ _ (hranked a hmem a' ha' hpre hlength) halike
    · exact htrans _ _ _ (hsymm _ _ (hranked a' ha' a hmem hpre hlength.symm)) halike

theorem option_eq_of_rel {α : Type} {a b : Option α} (h : Option.Rel Eq a b) : a = b := by
  cases h with
  | some heq => rw [heq]
  | none => rfl

/-- The owner that an ancestor is found to be is the name of its executable. -/
theorem ownerOf_eq_some {ownedPaths : List OwnedPath} {ancestor : Path} {owner : String} :
    (ownedPaths.find? fun owned => Policy.ownerMatchesAncestor owned ancestor).map (·.owner) =
        some owner ↔
      executableHasName ancestor owner = true ∧ ∃ owned ∈ ownedPaths, owned.owner = owner := by
  constructor
  · intro h
    obtain ⟨owned, hfind, rfl⟩ := Option.map_eq_some_iff.mp h
    have hname := List.find?_some hfind
    exact ⟨hname, owned, List.mem_of_find?_eq_some hfind, rfl⟩
  · rintro ⟨hname, owned, hmem, rfl⟩
    obtain ⟨found, hfind⟩ : ∃ found,
        ownedPaths.find? (fun owned => Policy.ownerMatchesAncestor owned ancestor) = some found :=
      Option.isSome_iff_exists.mp (List.find?_isSome.mpr ⟨owned, hmem, hname⟩)
    have hfound := List.find?_some hfind
    -- both are the name of the ancestor's executable
    rw [Policy.ownerMatchesAncestor, executableHasName, beq_iff_eq] at hfound
    rw [executableHasName, beq_iff_eq] at hname
    rw [hfind, Option.map_some, Option.some.inj (hfound.symm.trans hname)]

section

variable {config config' : PolicyConfig} (hsame : config.Same config')

include hsame

theorem PolicyConfig.Same.sharedPathAllows (subject : ProcessSubject) (name : String) (target : Path)
    (access : AccessKind) : Policy.sharedPathAllows config subject name target access =
      Policy.sharedPathAllows config' subject name target access := by
  have hone : ∀ {a b : SharedPath}, a.Alike b →
      (sharedPathMatches a target && a.access.contains access &&
          subjectsAllow a.allowedSubjects subject name) =
        (sharedPathMatches b target && b.access.contains access &&
          subjectsAllow b.allowedSubjects subject name) := by
    intro a b h
    rw [h.matches, subjectsAllow_of_mem_iff h.allowedSubjects, List.contains_eq_mem,
      List.contains_eq_mem, decide_eq_decide.mpr (h.access access)]
  rw [Bool.eq_iff_iff, Policy.sharedPathAllows, Policy.sharedPathAllows, List.any_eq_true,
    List.any_eq_true]
  constructor
  · rintro ⟨a, ha, hallows⟩
    obtain ⟨b, hb, halike⟩ := hsame.shared.left a ha
    exact ⟨b, hb, (hone halike).symm.trans hallows⟩
  · rintro ⟨b, hb, hallows⟩
    obtain ⟨a, ha, halike⟩ := hsame.shared.right b hb
    exact ⟨a, ha, (hone halike).trans hallows⟩

theorem PolicyConfig.Same.ownerFor (hranked : config.Ranked) (target : Path) :
    Option.Rel OwnedPath.Alike (Policy.ownerFor config target) (Policy.ownerFor config' target) :=
  maxByKey_covering hsame.owned (fun _ _ h => h.path) (fun _ _ h => h.symm)
    (fun _ _ _ h h' => h.trans h') hranked.owned target

theorem PolicyConfig.Same.sensitiveDevToolAccess (hranked : config.Ranked) (subject : ProcessSubject)
    (name : String) (target : Path) : Policy.sensitiveDevToolAccess config subject name target =
      Policy.sensitiveDevToolAccess config' subject name target := by
  have hsensitive : SameRules Eq config.sensitivePaths config'.sensitivePaths :=
    ⟨fun a ha => ⟨a, (hsame.sensitive a).mp ha, rfl⟩,
      fun b hb => ⟨b, (hsame.sensitive b).mpr hb, rfl⟩⟩
  rw [Policy.sensitiveDevToolAccess, Policy.sensitiveDevToolAccess,
    subjectsAllow_of_mem_iff hsame.devTools]
  split
  · exact option_eq_of_rel (maxByKey_covering hsensitive (fun _ _ h => congrArg _ h)
      (fun _ _ h => h.symm) (fun _ _ _ h h' => h.trans h') hranked.sensitive target)
  · rfl

theorem PolicyConfig.Same.decide (hranked : config.Ranked) (subject : ProcessSubject) (target : Path)
    (access : AccessKind) : Policy.decide config subject target access =
      Policy.decide config' subject target access := by
  have howner := hsame.ownerFor hranked target
  have hsensitive :
      Policy.promptForSensitiveAccess config = Policy.promptForSensitiveAccess config' := by
    funext access path
    cases access <;>
      simp [Policy.promptForSensitiveAccess, Policy.prompt, Policy.defaultDecision, hsame.failOpen]
  have hcross :
      Policy.promptForCrossOwnerAccess config = Policy.promptForCrossOwnerAccess config' := by
    funext access path
    cases access <;>
      simp [Policy.promptForCrossOwnerAccess, Policy.prompt, Policy.defaultDecision, hsame.failOpen]
  unfold Policy.decide
  dsimp only
  rw [hsame.sharedPathAllows, hsame.sensitiveDevToolAccess hranked subject, hsensitive, hcross]
  generalize Policy.ownerFor config target = owner at howner ⊢
  generalize Policy.ownerFor config' target = owner' at howner ⊢
  cases howner with
  | none => rfl
  | some halike =>
    simp only [Option.any_some, halike.allows, halike.denyNonOwner, halike.path]

theorem PolicyConfig.Same.authorizationOwnerSubject (subject : ProcessSubject) :
    Policy.authorizationOwnerSubject config subject =
      Policy.authorizationOwnerSubject config' subject := by
  rw [Policy.authorizationOwnerSubject, Policy.authorizationOwnerSubject]
  congr 1
  funext ancestor
  refine Option.ext fun owner => ?_
  rw [ownerOf_eq_some, ownerOf_eq_some]
  refine and_congr_right fun _ => ⟨?_, ?_⟩
  · rintro ⟨a, ha, howner⟩
    obtain ⟨b, hb, halike⟩ := hsame.owned.left a ha
    exact ⟨b, hb, halike.owner.symm.trans howner⟩
  · rintro ⟨b, hb, howner⟩
    obtain ⟨a, ha, halike⟩ := hsame.owned.right b hb
    exact ⟨a, ha, halike.owner.trans howner⟩

end

/-- The guard makes nothing of the order of the rules: it decides the same and finds the
same owners with either configuration, and so does the same in every run. -/
theorem same_rules_same_guard (config config' : PolicyConfig) (hsame : config.Same config')
    (hranked : config.Ranked) (pathAliases : List PathAlias) :
    (∀ subject target access,
      StaticPolicy.decide ⟨config, pathAliases⟩ subject target access =
        StaticPolicy.decide ⟨config', pathAliases⟩ subject target access) ∧
    (∀ subject, Policy.authorizationOwnerSubject config subject =
      Policy.authorizationOwnerSubject config' subject) ∧
    ∀ backend paths excludedPaths io,
      guardRun (guardOf ⟨config, pathAliases⟩ backend paths excludedPaths io) =
        guardRun (guardOf ⟨config', pathAliases⟩ backend paths excludedPaths io) := by
  have hdecide : ∀ subject target access, StaticPolicy.decide ⟨config, pathAliases⟩ subject target
      access = StaticPolicy.decide ⟨config', pathAliases⟩ subject target access :=
    fun subject target access => hsame.decide hranked subject _ access
  refine ⟨hdecide, hsame.authorizationOwnerSubject, fun backend paths excludedPaths io => ?_⟩
  have hpolicy : (⟨config, pathAliases⟩ : StaticPolicy).toAccessPolicy =
      (⟨config', pathAliases⟩ : StaticPolicy).toAccessPolicy := by
    have howner :
        Policy.authorizationOwnerSubject config = Policy.authorizationOwnerSubject config' :=
      funext hsame.authorizationOwnerSubject
    simp only [StaticPolicy.toAccessPolicy, hdecide, howner]
  rw [guardOf, guardOf, hpolicy]

/-- Paths below the home directory are nested as they are written. -/
theorem nested_homeRelativePath {home : Option Path} {suffix suffix' : String}
    (hsuffix : (Path.ofString suffix).start = none)
    (hsuffix' : (Path.ofString suffix').start = none) :
    (homeRelativePath home suffix).components <+: (homeRelativePath home suffix').components ↔
      (Path.ofString suffix).components <+: (Path.ofString suffix').components := by
  rw [homeRelativePath, homeRelativePath, Path.components_join_relative hsuffix,
    Path.components_join_relative hsuffix', List.prefix_append_right_inj]

/-- None of the built-in rules is inside another. -/
theorem defaultPolicyConfig_ranked (home : Option Path) : (defaultPolicyConfig home).Ranked := by
  constructor
  · have hdistinct : ∀ a ∈ defaultOwners, ∀ b ∈ defaultOwners, (Path.ofString a.2).start = none ∧
        ((Path.ofString a.2).components <+: (Path.ofString b.2).components → a = b) := by decide
    intro rule hrule rule' hrule' hnested _
    obtain ⟨a, ha, rfl⟩ := List.mem_map.mp hrule
    obtain ⟨b, hb, rfl⟩ := List.mem_map.mp hrule'
    rw [nested_homeRelativePath (hdistinct a ha a ha).1 (hdistinct b hb b hb).1] at hnested
    rw [(hdistinct a ha b hb).2 hnested]
    exact ⟨rfl, rfl, fun _ => Iff.rfl, rfl⟩
  · have hdistinct : ∀ a ∈ defaultSensitiveSuffixes, ∀ b ∈ defaultSensitiveSuffixes,
        (Path.ofString a).start = none ∧
          ((Path.ofString a).components <+: (Path.ofString b).components → a = b) := by decide
    intro rule hrule rule' hrule' hnested _
    obtain ⟨a, ha, rfl⟩ := List.mem_map.mp hrule
    obtain ⟨b, hb, rfl⟩ := List.mem_map.mp hrule'
    rw [nested_homeRelativePath (hdistinct a ha a ha).1 (hdistinct b hb b hb).1] at hnested
    rw [(hdistinct a ha b hb).2 hnested]

/-- The built-in policy with its rules the other way round. -/
def reversedDefaults (home : Option Path) : PolicyConfig where
  ownedPaths := (defaultOwnedPaths home).reverse
  sharedPaths := (defaultSharedPaths home).reverse
  sensitivePaths := (defaultSensitivePaths home).reverse
  devTools := defaultDevTools.reverse

theorem same_rules_same_guard_reversed :
    guardRun (guardOf ⟨defaultPolicyConfig (some (Path.ofString "/home/u")), []⟩ authdPrompt
        [Path.ofString "/home/u"] [] fun _ => true) =
      guardRun (guardOf ⟨reversedDefaults (some (Path.ofString "/home/u")), []⟩ authdPrompt
        [Path.ofString "/home/u"] [] fun _ => true) := by
  refine (same_rules_same_guard (defaultPolicyConfig (some (Path.ofString "/home/u")))
    (reversedDefaults (some (Path.ofString "/home/u"))) ?_ (defaultPolicyConfig_ranked _) []).2.2
    authdPrompt [Path.ofString "/home/u"] [] fun _ => true
  refine ⟨⟨?_, ?_⟩, ⟨?_, ?_⟩, ?_, ?_, rfl⟩
  · exact fun a ha => ⟨a, List.mem_reverse.mpr ha, rfl, rfl, fun _ => Iff.rfl, rfl⟩
  · exact fun a ha => ⟨a, List.mem_reverse.mp ha, rfl, rfl, fun _ => Iff.rfl, rfl⟩
  · exact fun a ha => ⟨a, List.mem_reverse.mpr ha, rfl, rfl, fun _ => Iff.rfl, fun _ => Iff.rfl⟩
  · exact fun a ha => ⟨a, List.mem_reverse.mp ha, rfl, rfl, fun _ => Iff.rfl, fun _ => Iff.rfl⟩
  · exact fun rule => List.mem_reverse.symm
  · exact fun subject => List.mem_reverse.symm

end ConfigGuard
