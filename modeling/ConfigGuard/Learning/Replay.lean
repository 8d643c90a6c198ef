import ConfigGuard.Learning.Learner

/-!
# The learned policy allows what it was learned from

A run of the learner, and the rules it proposes at the end put to the policy.
-/

namespace ConfigGuard
open OsPath Std

/-- One observed access. -/
structure Access where
  subject : ProcessSubject
  target : Path
  access : AccessKind
  deriving DecidableEq, Repr

namespace AuditLearner

/-- What an access is counted under, if it is. -/
def keyOf (learner : AuditLearner) (a : Access) : Option ObservationKey :=
  (learner.rootOf a.target).map fun configRoot =>
    { subject := subjectName a.subject, configRoot, access := .ofKind a.access }

/-- The learner with one more access counted. -/
def count (learner : AuditLearner) (key : ObservationKey) : AuditLearner :=
  { learner with observations := learner.observations.upsert key fun count => count.getD 0 + 1 }

theorem observe_eq (learner : AuditLearner) (a : Access) :
    learner.observe a.subject a.target a.access =
      match learner.keyOf a with
      | none => (learner, none)
      | some key => (learner.count key, some (learner.count key).writeOutput) := by
  rw [observe, keyOf]
  cases learner.rootOf a.target <;> rfl

end AuditLearner

/-- The learner, and what its output file holds. -/
structure Session where
  learner : AuditLearner
  file : Option LearnedConfig

namespace Session

/-- The learner of a home directory before it has written anything. -/
def start (outputPath homeDir : Path) (listing : Option (List (Option ConfigDirEntry))) : Session :=
  ⟨.new outputPath homeDir listing, none⟩

/-- An output that cannot be serialized is not written, but what it holds stays counted. -/
def observe (s : Session) (a : Access) : Except String Unit × Session :=
  match s.learner.observe a.subject a.target a.access with
  | (learner, none) => (.ok (), { s with learner })
  | (learner, some output) =>
    if output.2.isSerializable then (.ok (), ⟨learner, some output.2⟩)
    else (.error "serializing learned config", { s with learner })

def run (s : Session) (accesses : List Access) : Session :=
  accesses.foldl (fun s a => (s.observe a).2) s

/-- No access fails. -/
def Succeeds (s : Session) (accesses : List Access) : Prop :=
  ∀ before a after, accesses = before ++ a :: after → ((s.run before).observe a).1 = .ok ()

section

variable {s : Session} {a : Access}

theorem observe_of_none (h : s.learner.keyOf a = none) : s.observe a = (.ok (), s) := by
  rw [observe, AuditLearner.observe_eq, h]

theorem observe_of_some {key : ObservationKey} (h : s.learner.keyOf a = some key) :
    s.observe a = if (s.learner.count key).writeOutput.2.isSerializable
      then (.ok (), ⟨s.learner.count key, some (s.learner.count key).writeOutput.2⟩)
      else (.error "serializing learned config", { s with learner := s.learner.count key }) := by
  rw [observe, AuditLearner.observe_eq, h]

variable (s a)

/-- One access changes the counts and nothing else of the learner. -/
theorem observe_learner :
    (s.observe a).2.learner = (s.learner.keyOf a).elim s.learner s.learner.count := by
  cases hkey : s.learner.keyOf a with
  | none => rw [observe_of_none hkey, Option.elim_none]
  | some key =>
    rw [observe_of_some hkey, Option.elim_some]
    split <;> rfl

theorem observe_keyOf : (s.observe a).2.learner.keyOf = s.learner.keyOf := by
  rw [observe_learner]
  cases s.learner.keyOf a <;> rfl

end

theorem run_concat (s : Session) (accesses : List Access) (a : Access) :
    s.run (accesses ++ [a]) = ((s.run accesses).observe a).2 := by
  rw [run, List.foldl_append]
  rfl

theorem run_keyOf (s : Session) (accesses : List Access) :
    (s.run accesses).learner.keyOf = s.learner.keyOf := by
  induction accesses using List.reverseRecOn with
  | nil => rfl
  | append_singleton accesses a ih => rw [run_concat, observe_keyOf, ih]

/-- The counts are those of the keys of the accesses, one after the other. -/
theorem run_observations (s : Session) (accesses : List Access) :
    (s.run accesses).learner.observations =
      .gather id (fun _ count => count.getD 0 + 1) s.learner.observations
        (accesses.filterMap s.learner.keyOf) := by
  induction accesses generalizing s with
  | nil => rfl
  | cons a accesses ih =>
    rw [run, List.foldl_cons, ← run, ih, observe_keyOf, observe_learner]
    cases hkey : s.learner.keyOf a with
    | none => rw [List.filterMap_cons_none hkey, Option.elim_none]
    | some key => rw [List.filterMap_cons_some hkey, Option.elim_some]; rfl

theorem succeeds_nil (s : Session) : s.Succeeds [] := by
  intro before a after h
  cases before <;> cases h

theorem succeeds_concat {s : Session} {accesses : List Access} {a : Access} :
    s.Succeeds (accesses ++ [a]) ↔
      s.Succeeds accesses ∧ ((s.run accesses).observe a).1 = .ok () := by
  constructor
  · intro h
    refine ⟨?_, h accesses a [] rfl⟩
    rintro before b after rfl
    exact h before b (after ++ [a]) (by rw [List.append_assoc, List.cons_append])
  · rintro ⟨h, hlast⟩ before b after hsplit
    rcases List.eq_nil_or_concat after with rfl | ⟨after, c, rfl⟩
    · obtain ⟨rfl, hsame⟩ := List.append_inj' hsplit rfl
      obtain rfl := (List.cons.inj hsame).1
      exact hlast
    · rw [List.concat_eq_append, ← List.cons_append, ← List.append_assoc] at hsplit
      exact h before b after (List.append_inj_left' hsplit rfl)

/-- Where no access fails, the file holds the output from the first count on. -/
theorem file_of_succeeds {s : Session} {accesses : List Access} (h : s.Succeeds accesses) :
    (s.run accesses).file = if accesses.filterMap s.learner.keyOf = [] then s.file
      else some (s.run accesses).learner.writeOutput.2 := by
  induction accesses using List.reverseRecOn with
  | nil => rfl
  | append_singleton accesses a ih =>
    obtain ⟨hbefore, hlast⟩ := succeeds_concat.mp h
    rw [run_concat, List.filterMap_append]
    cases hkey : s.learner.keyOf a with
    | none =>
      rw [observe_of_none (by rw [run_keyOf, hkey]), List.filterMap_cons_none hkey,
        List.filterMap_nil, List.append_nil, ih hbefore]
    | some key =>
      rw [observe_of_some (by rw [run_keyOf, hkey])] at hlast ⊢
      rw [List.filterMap_cons_some hkey,
        if_neg (List.append_ne_nil_of_right_ne_nil _ (List.cons_ne_nil _ _))]
      split at hlast
      · rename_i htext
        rw [if_pos htext]
      · cases hlast

end Session

/-- The counts of a root. -/
def countsAt (observations : Observations) (root : Path) : List (ObservationKey × Nat) :=
  observations.entries.filter fun e => root.cmp e.1.configRoot == .eq

theorem mem_countsAt {observations : Observations} {root : Path} {e : ObservationKey × Nat} :
    e ∈ countsAt observations root ↔
      e ∈ observations.entries ∧ e.1.configRoot.components = root.components := by
  rw [countsAt, List.mem_filter, beq_iff_eq, Path.cmp_eq_iff, eq_comm]

/-- The subjects of some counts. -/
def subjectsOf (counts : List (ObservationKey × Nat)) : Subjects :=
  .gather (fun e => e.1.subject) (fun _ _ => ()) .empty counts

/-- The subjects of a root are those of its counts. -/
theorem get_subjectsByRoot (observations : Observations) (root : Path) :
    (subjectsByRoot observations).get root =
      if countsAt observations root = [] then none
      else some (subjectsOf (countsAt observations root)) := by
  rw [subjectsByRoot, SortedMap.get_gather]
  split
  · rename_i hnone
    rw [countsAt] at hnone
    rw [hnone]
    rfl
  · rename_i hne
    exact SortedMap.foldl_getD hne
      (fun (e : ObservationKey × Nat) old => Subjects.insert old e.1.subject) .empty

/-- What is listed under a root has been counted for it. -/
theorem subjectsByRoot_spec {observations : Observations} {root : Path} {subjects : Subjects}
    (h : (root, subjects) ∈ (subjectsByRoot observations).entries) :
    (∃ e ∈ observations.entries, root = e.1.configRoot) ∧
      subjects = subjectsOf (countsAt observations root) := by
  have hget : (subjectsByRoot observations).get root = some subjects := SortedMap.get_of_mem h
  rw [get_subjectsByRoot] at hget
  refine ⟨?_, ?_⟩
  · rcases SortedMap.key_mem_gather _ _ h with hkey | ⟨_, hempty⟩
    · exact hkey
    · cases hempty
  · split at hget
    · cases hget
    · exact (Option.some.inj hget).symm

/-- A rule is proposed for a root that was counted, and every count of the
root is the owner's. -/
theorem candidateOwnedPaths_spec {learner : AuditLearner} {rule : LearnedOwnedPath}
    (h : rule ∈ learner.candidateOwnedPaths) :
    (∃ e ∈ learner.observations.entries, rule.path = e.1.configRoot) ∧
      ∀ e ∈ learner.observations.entries, e.1.configRoot.components = rule.path.components →
        e.1.subject = rule.owner := by
  obtain ⟨⟨root, subjects⟩, hmem, hrule⟩ := List.mem_filterMap.mp h
  obtain ⟨hcounted, hsubjects⟩ := subjectsByRoot_spec hmem
  rw [candidateOwnerForRoot] at hrule
  split at hrule
  · cases hrule
  · rename_i hlength
    obtain ⟨⟨owner, u⟩, howner⟩ := List.length_eq_one_iff.mp (not_not.mp hlength)
    rw [howner, List.head?_cons, Option.map_some, Option.some.injEq] at hrule
    subst hrule
    refine ⟨hcounted, ?_⟩
    intro e he hroot
    have hkept : e ∈ countsAt learner.observations root := mem_countsAt.mpr ⟨he, hroot⟩
    -- the subjects of the root have one element, which each count of it is in
    obtain ⟨entry, hentry, hsame⟩ :=
      SortedMap.exists_mem_gather (fun e : ObservationKey × Nat => e.1.subject)
        (fun _ _ => ()) (m := (.empty : Subjects)) hkept
    rw [← subjectsOf, ← hsubjects, howner, List.mem_singleton] at hentry
    rw [LawfulEqCmp.compare_eq_iff_eq] at hsame
    rw [hsame, hentry]

def LearnedOwnedPath.rule (learned : LearnedOwnedPath) : OwnedPath where
  path := learned.path
  owner := learned.owner
  allowedSubjects := learned.allowedSubjects

/-- The policy with the learned rules and no others. -/
def LearnedConfig.policy (learned : LearnedConfig) (devTools : List String) (failOpen : Bool) :
    PolicyConfig where
  ownedPaths := learned.ownedPaths.map (·.rule)
  devTools := devTools
  failOpen := failOpen

/-- With rules of owners only, an access is allowed that its governing rule, if
there is one, allows. -/
theorem decide_of_ownerFor {config : PolicyConfig} (hshared : config.sharedPaths = [])
    (hsensitive : config.sensitivePaths = []) {subject : ProcessSubject} {target : Path}
    (access : AccessKind)
    (h : ∀ rule, Policy.ownerFor config target = some rule → rule.owner = subjectName subject) :
    Policy.decide config subject target access = .allow := by
  rw [Policy.decide]
  split
  · rfl
  · cases howner : Policy.ownerFor config target with
    | none =>
      simp [Policy.sharedPathAllows, Policy.sensitiveDevToolAccess, hshared, hsensitive,
        Selection.maxByKey]
    | some rule =>
      have hallows : rule.allows subject (subjectName subject) = true := by
        rw [OwnedPath.allows, h rule howner, beq_self_eq_true, Bool.true_or]
      simp [hallows]

/-- Nothing in `~/.config` is a symlink. -/
def NoConfigSymlinks (listing : Option (List (Option ConfigDirEntry))) : Prop :=
  ∀ entries, listing = some entries → ∀ entry, some entry ∈ entries → entry.isSymlink = false

theorem configSymlinkAliases_of_none {listing : Option (List (Option ConfigDirEntry))}
    (h : NoConfigSymlinks listing) (home : Path) : configSymlinkAliases home listing = [] := by
  cases listing with
  | none => rfl
  | some entries =>
    rw [configSymlinkAliases, List.filterMap_eq_nil_iff]
    intro entry hentry
    obtain ⟨found, hfound, rfl⟩ := List.mem_filterMap.mp hentry
    rw [configSymlinkAlias, h entries rfl entry hfound, if_neg (by decide)]

section

variable {learner : AuditLearner} (haliases : learner.pathAliases = [])

include haliases

theorem rootOf_eq (target : Path) :
    learner.rootOf target = configRootForHome target learner.homeDir := by
  rw [AuditLearner.rootOf, configRootForHomeOrAlias, haliases]
  exact Option.or_none

/-- Of the counts made for some accesses, those of a root an access lies under
include one for the access itself. -/
theorem exists_count_of_under {accesses : List Access} {a : Access} (ha : a ∈ accesses)
    {observations : Observations}
    (hobservations : observations = .gather id (fun _ count => count.getD 0 + 1) .empty
      (accesses.filterMap learner.keyOf))
    {e : ObservationKey × Nat} (he : e ∈ observations.entries)
    (hunder : a.target.startsWith e.1.configRoot = true) :
    ∃ e' ∈ observations.entries, e'.1.configRoot.components = e.1.configRoot.components ∧
      e'.1.subject = subjectName a.subject := by
  subst hobservations
  obtain ⟨other, hother, hkey⟩ : ∃ other ∈ accesses, learner.keyOf other = some e.1 := by
    rcases SortedMap.key_mem_gather _ _ he with ⟨key, hkey, hsame⟩ | ⟨_, hempty⟩
    · obtain ⟨other, hother, hkeyOf⟩ := List.mem_filterMap.mp hkey
      exact ⟨other, hother, by rw [hkeyOf, hsame]; rfl⟩
    · cases hempty
  obtain ⟨root, hroot, hrootKey⟩ := Option.map_eq_some_iff.mp hkey
  rw [rootOf_eq haliases] at hroot
  have hsameRoot : e.1.configRoot = root := by rw [← hrootKey]
  rw [hsameRoot] at hunder ⊢
  -- the root is found for the access too, so the access was counted for it
  have hfound : learner.rootOf a.target = some root := by
    rw [rootOf_eq haliases]
    exact (configRootForHome_spec hroot).2.2 a.target hunder
  have hkeyOf : learner.keyOf a = some ⟨subjectName a.subject, root, .ofKind a.access⟩ := by
    rw [AuditLearner.keyOf, hfound]
    rfl
  obtain ⟨e', he', hsame⟩ := SortedMap.exists_mem_gather id
    (fun _ (count : Option Nat) => count.getD 0 + 1) (m := (.empty : Observations))
    (List.mem_filterMap.mpr ⟨a, ha, hkeyOf⟩)
  obtain ⟨hsubject, hcomponents, -⟩ := ObservationKey.cmp_eq_iff.mp hsame
  exact ⟨e', he', hcomponents.symm, hsubject.symm⟩

end

/-- Whatever was observed, by however many subjects and in whatever order, the
rules proposed at the end allow all of it. -/
theorem learned_policy_allows (outputPath homeDir : Path)
    (listing : Option (List (Option ConfigDirEntry))) (hplain : NoConfigSymlinks listing)
    (accesses : List Access) (devTools : List String) (failOpen : Bool) :
    ∀ a ∈ accesses,
      Policy.decide
        (((Session.start outputPath homeDir listing).run accesses).learner.writeOutput.2.policy
          devTools failOpen) a.subject a.target a.access = .allow := by
  intro a ha
  let learner := AuditLearner.new outputPath homeDir listing
  have haliases : learner.pathAliases = [] := configSymlinkAliases_of_none hplain homeDir
  apply decide_of_ownerFor rfl rfl
  intro rule hrule
  obtain ⟨hmem, hunder, -⟩ := Policy.ownerFor_eq_some hrule
  obtain ⟨learned, hlearned, rfl⟩ := List.mem_map.mp hmem
  obtain ⟨⟨e, he, hroot⟩, howner⟩ := candidateOwnedPaths_spec hlearned
  -- the access was counted for the root that governs it
  obtain ⟨e', he', hcomponents, hsubject⟩ := exists_count_of_under haliases ha
    (Session.run_observations (Session.start outputPath homeDir listing) accesses) he
    (hroot ▸ hunder)
  rw [← hsubject, howner e' he' (hcomponents.trans (congrArg Path.components hroot.symm))]
  rfl

/-- Two programs share one directory, and each has one of its own. -/
def sharedAccesses : List Access :=
  [⟨⟨Path.ofString "/usr/bin/gh", ["gh"], []⟩, Path.ofString "/home/u/.config/gh/hosts.yml", .read⟩,
    ⟨⟨Path.ofString "/usr/bin/git", ["git"], []⟩, Path.ofString "/home/u/.config/gh/hosts.yml",
      .read⟩,
    ⟨⟨Path.ofString "/usr/bin/ssh", ["ssh"], []⟩, Path.ofString "/home/u/.ssh/config", .read⟩,
    ⟨⟨Path.ofString "/usr/bin/gh", ["gh"], []⟩, Path.ofString "/home/u/Downloads/file", .write⟩]

/-- The rules learned from them. -/
def sharedPolicy : PolicyConfig :=
  ((Session.start (Path.ofString "/tmp/learned.toml") (Path.ofString "/home/u")
    (some [some ⟨utf8 "gh", false, none, false⟩])).run
      sharedAccesses).learner.writeOutput.2.policy ["node"] true

theorem learned_policy_allows_shared :
    (sharedAccesses.map fun a => Policy.decide sharedPolicy a.subject a.target a.access) =
      List.replicate 4 .allow := by
  rw [List.eq_replicate_iff]
  refine ⟨rfl, ?_⟩
  intro decision hdecision
  obtain ⟨a, ha, rfl⟩ := List.mem_map.mp hdecision
  refine learned_policy_allows _ _ _ ?_ sharedAccesses ["node"] true a ha
  intro entries hentries entry hentry
  obtain rfl := Option.some.inj hentries
  rw [List.mem_singleton, Option.some.injEq] at hentry
  rw [hentry]

end ConfigGuard
