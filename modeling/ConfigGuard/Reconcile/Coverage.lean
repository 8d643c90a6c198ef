import ConfigGuard.Reconcile.Entries
import ConfigGuard.Policy.Decide

/-!
# What the policy matches and what reconciling keeps

The decision and the plan match rules each on their own.
-/

namespace ConfigGuard
open OsPath

/-- Only the entries the policy covers are kept as configured. -/
theorem planEntry_keep_iff (entry : Path) (options : ReconcileOptions) (timestampSuffix : Nat)
    (tree : ConfigTree) :
    planEntry entry options timestampSuffix tree = (tree, .ok (keepConfiguredAction entry)) ↔
      policyCoversPath options.policyConfig entry = true := by
  constructor
  · intro h
    by_contra hcovers
    rw [planEntry, if_neg hcovers] at h
    split at h
    · have hkind := (associationAction_ok h).2
      rw [appliedKind] at hkind
      split at hkind <;> cases hkind
    · have hkind := (archiveAction_ok h).2
      rw [appliedKind] at hkind
      split at hkind <;> cases hkind
  · intro hcovers
    rw [planEntry, if_pos hcovers]

/-- The paths of all the rules. -/
def rulePaths (config : PolicyConfig) : List Path :=
  config.ownedPaths.map (·.path) ++ config.sharedPaths.map (·.path) ++
    config.sensitivePaths.map (·.path)

theorem policyCoversPath_iff {config : PolicyConfig} {entry : Path} :
    policyCoversPath config entry = true ↔ ∃ rule ∈ rulePaths config, pathsOverlap entry rule = true := by
  rw [policyCoversPath, rulePaths]
  simp only [Bool.or_eq_true, List.any_eq_true, List.mem_append, List.mem_map]
  constructor
  · rintro ((⟨rule, hrule, h⟩ | ⟨rule, hrule, h⟩) | ⟨rule, hrule, h⟩)
    · exact ⟨rule.path, .inl (.inl ⟨rule, hrule, rfl⟩), h⟩
    · exact ⟨rule.path, .inl (.inr ⟨rule, hrule, rfl⟩), h⟩
    · exact ⟨rule.path, .inr ⟨rule, hrule, rfl⟩, h⟩
  · rintro ⟨path, (⟨rule, hrule, rfl⟩ | ⟨rule, hrule, rfl⟩) | ⟨rule, hrule, rfl⟩, h⟩
    · exact .inl (.inl ⟨rule, hrule, h⟩)
    · exact .inl (.inr ⟨rule, hrule, h⟩)
    · exact .inr ⟨rule, hrule, h⟩

/-- The entry itself, or a path that goes on from it. -/
inductive AtOrBelow (entry : Path) : Path → Prop
  | entry : AtOrBelow entry entry
  | below {relative : Path} (h : relative.isAbsolute = false) :
    AtOrBelow entry (entry.join relative)

/-- A rule matches the target as the decision has it. -/
inductive RuleMatches (config : PolicyConfig) (target : Path) : Prop
  | owned {rule : OwnedPath} (hrule : rule ∈ config.ownedPaths)
    (h : target.startsWith rule.path = true)
  | shared {rule : SharedPath} (hrule : rule ∈ config.sharedPaths)
    (h : sharedPathMatches rule target = true)
  | sensitive {rule : PathRule} (hrule : rule ∈ config.sensitivePaths)
    (h : target.startsWith rule.path = true)

/-- What the decision has a rule for at the entry or below it is kept. -/
def KeepsMatched (options : ReconcileOptions) (entry : Path) (timestampSuffix : Nat)
    (tree : ConfigTree) : Prop :=
  (∃ target, AtOrBelow entry target ∧ RuleMatches options.policyConfig target) →
    planEntry entry options timestampSuffix tree = (tree, .ok (keepConfiguredAction entry))

/-- The bytes of the rule end in the middle of a component of the entry. -/
def EndsInside (shared : SharedPath) (entry : Path) : Prop :=
  shared.pathPrefix = true ∧ shared.path.bytes <+: entry.bytes ∧
    entry.startsWith shared.path = false

theorem pathsOverlap_of_startsWith {entry target rule : Path} (hbelow : target.startsWith entry = true)
    (h : target.startsWith rule = true) : pathsOverlap entry rule = true := by
  rw [Path.startsWith_iff] at hbelow h
  rw [pathsOverlap, Bool.or_eq_true, Path.startsWith_iff, Path.startsWith_iff]
  exact List.prefix_or_prefix_of_prefix h hbelow

section

variable {home : Path} {name : Bytes} (hname : Path.IsName name)

include hname

theorem startsWith_of_atOrBelow {target : Path} (h : AtOrBelow (home.join ⟨name⟩) target) :
    target.startsWith (home.join ⟨name⟩) = true := by
  cases h with
  | entry => exact Path.startsWith_refl _
  | below hrelative =>
    apply Path.startsWith_join hrelative
    obtain ⟨base, hbase⟩ := Path.join_name home
    rw [hbase name hname.noSlash]
    exact List.append_ne_nil_of_right_ne_nil base hname.nonempty

/-- Bytes that begin a path below the entry either end before the entry does,
or are those of a path at or below it. -/
theorem prefix_cases {target : Path} (h : AtOrBelow (home.join ⟨name⟩) target) {rule : Path}
    (hrule : rule.bytes <+: target.bytes) :
    rule.bytes <+: (home.join ⟨name⟩).bytes ∨ rule.startsWith (home.join ⟨name⟩) = true := by
  cases h with
  | entry => exact .inl hrule
  | @below relative hrelative =>
    obtain ⟨base, hbase⟩ := Path.join_name home
    have hentry := hbase name hname.noSlash
    rw [hentry, Path.join_below_name hname hrelative, ← List.append_assoc] at hrule
    rcases List.prefix_or_prefix_of_prefix hrule (List.prefix_append _ _) with hshort | ⟨rest, hrest⟩
    · rw [hentry]
      exact .inl hshort
    · rw [← hrest, List.prefix_append_right_inj] at hrule
      cases rest with
      | nil =>
        rw [hentry, ← hrest, List.append_nil]
        exact .inl List.prefix_rfl
      | cons c rest =>
        obtain ⟨rfl, hrest'⟩ := List.cons_prefix_cons.mp hrule
        have hbelow : (⟨rest⟩ : Path).isAbsolute = false := by
          rw [Path.isAbsolute, beq_eq_false_iff_ne] at hrelative ⊢
          intro hhead
          obtain ⟨tail, rfl⟩ := List.head?_eq_some_iff.mp hhead
          obtain ⟨more, hmore⟩ := hrest'
          exact hrelative (by rw [← hmore]; rfl)
        have hjoin : rule = (home.join ⟨name⟩).join ⟨rest⟩ := by
          rw [hentry, Path.join_below_name hname hbelow, ← List.append_assoc, hrest]
        rw [hjoin]
        exact .inr (startsWith_of_atOrBelow hname (.below hbelow))

end

/-- What the decision has a rule for is kept, exactly when no rule for a prefix
ends in the middle of a component of the entry, or some other rule is for a
path at, above or below the entry. -/
theorem keepsMatched_iff (options : ReconcileOptions) (home : Path) (name : Bytes)
    (hname : Path.IsName name) (timestampSuffix : Nat) (tree : ConfigTree) :
    KeepsMatched options (home.join ⟨name⟩) timestampSuffix tree ↔
      (∀ shared ∈ options.policyConfig.sharedPaths, ¬ EndsInside shared (home.join ⟨name⟩)) ∨
        ∃ rule ∈ rulePaths options.policyConfig, pathsOverlap (home.join ⟨name⟩) rule = true := by
  rw [KeepsMatched, planEntry_keep_iff, policyCoversPath_iff]
  constructor
  · intro h
    by_cases hcovers : ∃ rule ∈ rulePaths options.policyConfig,
        pathsOverlap (home.join ⟨name⟩) rule = true
    · exact .inr hcovers
    · refine .inl ?_
      rintro shared hshared ⟨hpre, hbytes, -⟩
      refine hcovers (h ⟨_, .entry, .shared hshared ?_⟩)
      rw [sharedPathMatches, if_pos hpre]
      exact List.isPrefixOf_iff_prefix.mpr hbytes
  · rintro (hinside | hcovers) ⟨target, htarget, hmatches⟩
    · have hbelow := startsWith_of_atOrBelow hname htarget
      cases hmatches with
      | @owned rule hrule hunder =>
        refine ⟨rule.path, ?_, pathsOverlap_of_startsWith hbelow hunder⟩
        simp only [rulePaths, List.mem_append]
        exact .inl (.inl (List.mem_map_of_mem hrule))
      | @sensitive rule hrule hunder =>
        refine ⟨rule.path, ?_, pathsOverlap_of_startsWith hbelow hunder⟩
        simp only [rulePaths, List.mem_append]
        exact .inr (List.mem_map_of_mem hrule)
      | @shared rule hrule hunder =>
        refine ⟨rule.path, ?_, ?_⟩
        · simp only [rulePaths, List.mem_append]
          exact .inl (.inr (List.mem_map_of_mem hrule))
        · rw [sharedPathMatches] at hunder
          split at hunder
          · rename_i hpre
            rw [pathsOverlap, Bool.or_eq_true]
            rcases prefix_cases hname htarget (List.isPrefixOf_iff_prefix.mp hunder) with hshort | hat
            · -- the bytes end before the entry does, and not inside a component
              have hends := hinside rule hrule
              rw [EndsInside, not_and, not_and, Bool.not_eq_false] at hends
              exact .inl (hends hpre hshort)
            · exact .inr hat
          · exact pathsOverlap_of_startsWith hbelow hunder
    · exact hcovers

def userConfigHome : Path := Path.ofString "/home/u/.config"

/-- A rule for everything that begins like `gtk-`. -/
def gtkConfig : PolicyConfig where
  sharedPaths :=
    [{ path := Path.ofString "/home/u/.config/gtk-", pathPrefix := true, allowedSubjects := ["*"] }]

def mcPath : Path := userConfigHome.join ⟨utf8 "mc"⟩

/-- A further prefix that ends with the name of the directory `mc`. -/
def mcConfig : PolicyConfig where
  sharedPaths :=
    { path := mcPath, pathPrefix := true, allowedSubjects := ["*"] } :: gtkConfig.sharedPaths

theorem keepsMatched_mc :
    planEntry mcPath (.new userConfigHome mcConfig []) 0 .empty =
      (.empty, .ok (keepConfiguredAction mcPath)) := by
  refine (keepsMatched_iff (.new userConfigHome mcConfig []) userConfigHome (utf8 "mc")
    (by constructor <;> decide) 0 .empty).mpr (.inl ?_)
    ⟨mcPath, .entry, .shared List.mem_cons_self (by decide)⟩
  intro shared hshared
  rcases List.mem_cons.mp hshared with rfl | hshared
  · rintro ⟨-, -, hstarts⟩
    exact absurd hstarts (by decide)
  · obtain rfl := List.mem_singleton.mp hshared
    rintro ⟨-, hbytes, -⟩
    exact absurd hbytes (by decide)

/-- The directory `gtk-3.0` is matched by the rule and is not kept. -/
theorem not_keepsMatched_gtk :
    ¬ ∀ (options : ReconcileOptions) (home : Path) (name : Bytes), Path.IsName name →
      ∀ (timestampSuffix : Nat) (tree : ConfigTree),
        KeepsMatched options (home.join ⟨name⟩) timestampSuffix tree := by
  intro h
  have hkeeps := h (.new userConfigHome gtkConfig []) userConfigHome (utf8 "gtk-3.0")
    (by constructor <;> decide) 0 .empty
  have hkept := hkeeps ⟨_, .entry, .shared List.mem_cons_self (by decide)⟩
  rw [planEntry_keep_iff] at hkept
  exact absurd hkept (by decide)

end ConfigGuard
