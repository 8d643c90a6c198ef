import ConfigGuard.Learning.Replay

/-!
# What the learner counts

The output as a function of the accesses: each triple with the number of its
occurrences, each root of one subject with this subject as its owner, and all
of it whatever the order.
-/

namespace ConfigGuard
open OsPath Std

namespace AuditLearner

variable (learner : AuditLearner)

/-- What the accesses are counted under, one key for each access that has a root. -/
def keysOf (accesses : List Access) : List ObservationKey := accesses.filterMap learner.keyOf

/-- What is in the output file after these accesses. -/
def finalOutput (accesses : List Access) : Option LearnedConfig :=
  ((⟨learner, none⟩ : Session).run accesses).file

end AuditLearner

def LearnedObservation.key (o : LearnedObservation) : ObservationKey :=
  ⟨o.subject, o.configRoot, o.access⟩

/-- How often a triple occurs; a root is the same however it is spelled. -/
def occurrences (keys : List ObservationKey) (key : ObservationKey) : Nat :=
  keys.countP fun other => key.cmp other == .eq

/-- The root was used, and by this subject only. -/
def SoleSubject (keys : List ObservationKey) (root : Path) (owner : String) : Prop :=
  (∃ key ∈ keys, key.configRoot.same root = true) ∧
    ∀ key ∈ keys, key.configRoot.same root = true → key.subject = owner

/-- The output says how often each triple occurred and which roots have a sole subject. -/
structure Aggregated (keys : List ObservationKey) (learned : LearnedConfig) : Prop where
  /-- Each triple that occurred is listed once, with its number, and no other is. -/
  counts : ∀ key, (learned.observations.filter fun o => key.cmp o.key == .eq).map (·.count) =
    if occurrences keys key = 0 then [] else [occurrences keys key]
  owned : ∀ root, (∃ rule ∈ learned.ownedPaths, rule.path.same root = true) ↔
    ∃ owner, SoleSubject keys root owner
  owner : ∀ rule ∈ learned.ownedPaths, SoleSubject keys rule.path rule.owner
  once : learned.ownedPaths.Pairwise fun a b => a.path.same b.path = false

/-- Two outputs are the same but for the spelling of the roots. -/
structure SameOutput (a b : LearnedConfig) : Prop where
  ownedPaths : List.Forall₂ (fun x y : LearnedOwnedPath => x.path.same y.path = true ∧
    x.owner = y.owner ∧ x.allowedSubjects = y.allowedSubjects) a.ownedPaths b.ownedPaths
  observations : List.Forall₂ (fun x y : LearnedObservation => x.key.cmp y.key = .eq ∧
    x.count = y.count) a.observations b.observations

theorem foldl_count (xs : List ObservationKey) :
    xs.foldl (fun (count : Option Nat) _ => some (count.getD 0 + 1)) none =
      if xs.length = 0 then none else some xs.length := by
  cases xs with
  | nil => rfl
  | cons x xs =>
    have hsum : ∀ (ys : List ObservationKey) (n : Nat), ys.foldl (fun n _ => n + 1) n =
        n + ys.length := by
      intro ys
      induction ys with
      | nil => exact fun n => rfl
      | cons y ys ih =>
        intro n
        rw [List.foldl_cons, ih, List.length_cons]
        omega
    rw [SortedMap.foldl_getD (List.cons_ne_nil x xs) (fun _ n => n + 1) 0, hsum, Nat.zero_add,
      if_neg (List.length_pos_of_mem List.mem_cons_self).ne']

/-- The counts of these keys, starting from none. -/
def countsOf (keys : List ObservationKey) : Observations :=
  .gather id (fun _ count => count.getD 0 + 1) .empty keys

theorem get_countsOf (keys : List ObservationKey) (key : ObservationKey) :
    (countsOf keys).get key =
      if occurrences keys key = 0 then none else some (occurrences keys key) := by
  rw [countsOf, SortedMap.get_gather, occurrences, List.countP_eq_length_filter]
  exact foldl_count _

theorem mem_countsOf {keys : List ObservationKey} {e : ObservationKey × Nat}
    (h : e ∈ (countsOf keys).entries) : e.1 ∈ keys := by
  rcases SortedMap.key_mem_gather _ _ h with ⟨key, hkey, hsame⟩ | ⟨_, hempty⟩
  · rw [hsame]
    exact hkey
  · cases hempty

/-- Every key has been counted, under one that is spelled like the first. -/
theorem exists_countsOf {keys : List ObservationKey} {key : ObservationKey} (h : key ∈ keys) :
    ∃ e ∈ (countsOf keys).entries, key.cmp e.1 = .eq :=
  SortedMap.exists_mem_gather id _ h

theorem same_iff {p q : Path} : p.same q = true ↔ p.components = q.components := by
  rw [Path.same, beq_iff_eq]

/-- One subject and no other makes a candidate. -/
theorem candidateOwnerForRoot_sole {counts : List (ObservationKey × Nat)} (hne : counts ≠ [])
    {owner : String} (h : ∀ e ∈ counts, e.1.subject = owner) (root : Path) :
    candidateOwnerForRoot (root, subjectsOf counts) =
      some { path := root, owner := owner, allowedSubjects := [] } := by
  obtain ⟨e, he⟩ := List.exists_mem_of_ne_nil _ hne
  have hsubject : ∀ entry ∈ (subjectsOf counts).entries, entry.1 = owner := by
    intro entry hentry
    rcases SortedMap.key_mem_gather _ _ hentry with ⟨count, hcount, hkey⟩ | ⟨_, hempty⟩
    · rw [hkey, h count hcount]
    · cases hempty
  obtain ⟨entry, hentry, -⟩ : ∃ entry ∈ (subjectsOf counts).entries, _ :=
    SortedMap.exists_mem_gather (fun e : ObservationKey × Nat => e.1.subject) _ he
  have hone : (subjectsOf counts).entries = [(owner, ())] := by
    have hsorted := (subjectsOf counts).sorted
    generalize (subjectsOf counts).entries = entries at hsubject hentry hsorted
    match entries with
    | [] => cases hentry
    | [only] => rw [← hsubject only List.mem_cons_self]
    | first :: second :: rest =>
      -- two entries of one subject would not be in order
      have hlt := (List.pairwise_cons.mp hsorted).1 second List.mem_cons_self
      have hself : compare owner owner = .eq := ReflCmp.compare_self
      rw [hsubject first List.mem_cons_self,
        hsubject second (List.mem_cons_of_mem _ List.mem_cons_self), hself] at hlt
      cases hlt
  rw [candidateOwnerForRoot, hone]
  rfl

section Owned

variable {learner : AuditLearner} {keys : List ObservationKey}
  (hkeys : learner.observations = countsOf keys)

include hkeys

/-- The keys of the counts are those that were counted. -/
theorem soleSubject_iff {root : Path} {owner : String} :
    SoleSubject keys root owner ↔ countsAt learner.observations root ≠ [] ∧
      ∀ e ∈ countsAt learner.observations root, e.1.subject = owner := by
  rw [hkeys]
  constructor
  · rintro ⟨⟨key, hkey, hsame⟩, hsole⟩
    constructor
    · obtain ⟨e, he, hcmp⟩ := exists_countsOf hkey
      refine List.ne_nil_of_mem (mem_countsAt.mpr ⟨he, ?_⟩)
      rw [← (ObservationKey.cmp_eq_iff.mp hcmp).2.1, same_iff.mp hsame]
    · intro e he
      obtain ⟨he, hsame⟩ := mem_countsAt.mp he
      exact hsole e.1 (mem_countsOf he) (same_iff.mpr hsame)
  · rintro ⟨hne, hsole⟩
    constructor
    · obtain ⟨e, he⟩ := List.exists_mem_of_ne_nil _ hne
      obtain ⟨he, hsame⟩ := mem_countsAt.mp he
      exact ⟨e.1, mem_countsOf he, same_iff.mpr hsame⟩
    · intro key hkey hsame
      obtain ⟨e, he, hcmp⟩ := exists_countsOf hkey
      obtain ⟨hsubject, hcomponents, -⟩ := ObservationKey.cmp_eq_iff.mp hcmp
      rw [hsubject]
      exact hsole e (mem_countsAt.mpr ⟨he, hcomponents.symm.trans (same_iff.mp hsame)⟩)

theorem soleSubject_of_mem {rule : LearnedOwnedPath} (h : rule ∈ learner.candidateOwnedPaths) :
    SoleSubject keys rule.path rule.owner := by
  obtain ⟨⟨e, he, hpath⟩, hsole⟩ := candidateOwnedPaths_spec h
  rw [hkeys] at he hsole
  refine ⟨⟨e.1, mem_countsOf he, same_iff.mpr (by rw [hpath])⟩, ?_⟩
  intro key hkey hsame
  obtain ⟨e', he', hcmp⟩ := exists_countsOf hkey
  obtain ⟨hsubject, hcomponents, -⟩ := ObservationKey.cmp_eq_iff.mp hcmp
  rw [hsubject]
  exact hsole e' he' (hcomponents.symm.trans (same_iff.mp hsame))

theorem exists_of_soleSubject {root : Path} {owner : String} (h : SoleSubject keys root owner) :
    ∃ rule ∈ learner.candidateOwnedPaths, rule.path.same root = true := by
  obtain ⟨hne, hsole⟩ := (soleSubject_iff hkeys).mp h
  have hget := get_subjectsByRoot learner.observations root
  rw [if_neg hne] at hget
  obtain ⟨path, hpath, hmem⟩ := SortedMap.mem_of_get hget
  refine ⟨_, List.mem_filterMap.mpr ⟨_, hmem, candidateOwnerForRoot_sole hne hsole path⟩, ?_⟩
  exact same_iff.mpr (Path.cmp_eq_iff.mp hpath).symm

end Owned

theorem candidateOwnerForRoot_path {entry : Path × Subjects} {rule : LearnedOwnedPath}
    (h : candidateOwnerForRoot entry = some rule) : rule.path = entry.1 := by
  rw [candidateOwnerForRoot] at h
  split at h
  · cases h
  · obtain ⟨-, -, rfl⟩ := Option.map_eq_some_iff.mp h
    rfl

/-- No root has two owners. -/
theorem candidateOwnedPaths_once (learner : AuditLearner) :
    learner.candidateOwnedPaths.Pairwise fun a b => a.path.same b.path = false := by
  refine (subjectsByRoot learner.observations).sorted.filterMap _ ?_
  intro entry entry' hlt rule hrule rule' hrule'
  rw [Bool.eq_false_iff, Ne, same_iff, candidateOwnerForRoot_path hrule,
    candidateOwnerForRoot_path hrule', ← Path.cmp_eq_iff, hlt]
  nofun

/-- The output of a learner that counted these keys. -/
theorem aggregated_of_counts {learner : AuditLearner} {keys : List ObservationKey}
    (hkeys : learner.observations = countsOf keys) :
    Aggregated keys learner.writeOutput.2 := by
  constructor
  · intro key
    have hfilter : (learner.writeOutput.2.observations.filter
        fun o => key.cmp o.key == .eq).map (·.count) =
        (learner.observations.entries.filter fun e => key.cmp e.1 == .eq).map (·.2) := by
      rw [AuditLearner.writeOutput, AuditLearner.learnedObservations, List.filter_map,
        List.map_map]
      rfl
    rw [hfilter, SortedMap.filter_key, hkeys, get_countsOf]
    split <;> rfl
  · intro root
    constructor
    · rintro ⟨rule, hrule, hsame⟩
      obtain ⟨⟨key, hkey, hpath⟩, hsole⟩ := soleSubject_of_mem hkeys hrule
      rw [same_iff] at hsame hpath
      refine ⟨rule.owner, ⟨key, hkey, same_iff.mpr (hpath.trans hsame)⟩, ?_⟩
      intro other hother hroot
      exact hsole other hother (same_iff.mpr ((same_iff.mp hroot).trans hsame.symm))
    · rintro ⟨owner, hsole⟩
      exact exists_of_soleSubject hkeys hsole
  · intro rule hrule
    exact soleSubject_of_mem hkeys hrule
  · exact candidateOwnedPaths_once learner

theorem get_countsOf_perm {keys keys' : List ObservationKey} (h : keys.Perm keys')
    (key : ObservationKey) : (countsOf keys).get key = (countsOf keys').get key := by
  rw [get_countsOf, get_countsOf, occurrences, occurrences, h.countP_eq]

theorem subjectsOf_eq (counts : List (ObservationKey × Nat)) :
    subjectsOf counts = (counts.map (·.1.subject)).foldl Subjects.insert .empty := by
  rw [subjectsOf, SortedMap.gather, List.foldl_map]
  rfl

section Permuted

variable {a b : AuditLearner}
  (h : List.Forall₂ (fun x y : ObservationKey × Nat => x.1.cmp y.1 = .eq ∧ x.2 = y.2)
    a.observations.entries b.observations.entries)

include h

/-- Counts of the same triples have the same subjects for each root. -/
theorem get_subjectsByRoot_same (root : Path) :
    (subjectsByRoot a.observations).get root = (subjectsByRoot b.observations).get root := by
  have hcounts : List.Forall₂ (fun x y : ObservationKey × Nat => x.1.cmp y.1 = .eq ∧ x.2 = y.2)
      (countsAt a.observations root) (countsAt b.observations root) := by
    refine List.rel_filter ?_ h
    rintro x y ⟨hcmp, -⟩
    dsimp only
    rw [beq_iff_eq, beq_iff_eq, Path.cmp_eq_iff, Path.cmp_eq_iff,
      (ObservationKey.cmp_eq_iff.mp hcmp).2.1]
  have hsubjects : (countsAt a.observations root).map (·.1.subject) =
      (countsAt b.observations root).map (·.1.subject) := by
    rw [← List.forall₂_eq_eq_eq, List.forall₂_map_left_iff, List.forall₂_map_right_iff]
    exact hcounts.imp fun x y hxy => (ObservationKey.cmp_eq_iff.mp hxy.1).1
  have hnone : countsAt a.observations root = [] ↔ countsAt b.observations root = [] := by
    rw [← List.length_eq_zero_iff, ← List.length_eq_zero_iff, hcounts.length_eq]
  rw [get_subjectsByRoot, get_subjectsByRoot, subjectsOf_eq, subjectsOf_eq, hsubjects]
  simp only [hnone]

theorem sameOutput_of_counts : SameOutput a.writeOutput.2 b.writeOutput.2 := by
  constructor
  · refine List.rel_filterMap ?_ (SortedMap.forall₂_of_get (get_subjectsByRoot_same h))
    rintro ⟨path, subjects⟩ ⟨path', subjects'⟩ ⟨hpath, hsubjects⟩
    obtain rfl : subjects = subjects' := hsubjects
    rw [candidateOwnerForRoot, candidateOwnerForRoot]
    split
    · exact .none
    · cases subjects.entries.head? with
      | none => exact .none
      | some entry => exact .some ⟨same_iff.mpr (Path.cmp_eq_iff.mp hpath), rfl, rfl⟩
  · rw [AuditLearner.writeOutput, AuditLearner.writeOutput]
    dsimp only
    rw [AuditLearner.learnedObservations, AuditLearner.learnedObservations,
      List.forall₂_map_left_iff, List.forall₂_map_right_iff]
    exact h

end Permuted

theorem run_counts {learner : AuditLearner} (hnew : learner.observations = .empty)
    (accesses : List Access) :
    ((⟨learner, none⟩ : Session).run accesses).learner.observations =
      countsOf (learner.keysOf accesses) := by
  rw [Session.run_observations]
  exact congrArg (fun m => SortedMap.gather id _ m _) hnew

/-- Counts of roots that are text make an output that can be written. -/
theorem isSerializable_of_counts {learner : AuditLearner} {keys : List ObservationKey}
    (hkeys : learner.observations = countsOf keys)
    (htext : ∀ key ∈ keys, (toStr key.configRoot.bytes).isSome = true) :
    learner.writeOutput.2.isSerializable = true := by
  have hentry : ∀ e ∈ learner.observations.entries, (toStr e.1.configRoot.bytes).isSome = true := by
    rw [hkeys]
    exact fun e he => htext e.1 (mem_countsOf he)
  rw [LearnedConfig.isSerializable, List.all_eq_true]
  intro path hpath
  rcases List.mem_append.mp hpath with hpath | hpath
  · obtain ⟨rule, hrule, rfl⟩ := List.mem_map.mp hpath
    obtain ⟨⟨e, he, hroot⟩, -⟩ := candidateOwnedPaths_spec hrule
    rw [hroot]
    exact hentry e he
  · obtain ⟨o, ho, rfl⟩ := List.mem_map.mp hpath
    obtain ⟨e, he, rfl⟩ := List.mem_map.mp ho
    exact hentry e he

/-- Where every root is text, each access is counted and written. -/
theorem succeeds_of_text {learner : AuditLearner} (hnew : learner.observations = .empty)
    {accesses : List Access}
    (htext : ∀ key ∈ learner.keysOf accesses, (toStr key.configRoot.bytes).isSome = true) :
    (⟨learner, none⟩ : Session).Succeeds accesses := by
  rintro before a after rfl
  let s : Session := (⟨learner, none⟩ : Session).run before
  have hkeyOf : s.learner.keyOf = learner.keyOf := Session.run_keyOf _ before
  cases hkey : learner.keyOf a with
  | none => rw [Session.observe_of_none (by rw [← hkey, ← hkeyOf])]
  | some key =>
    have hsome : s.learner.keyOf a = some key := by rw [hkeyOf, hkey]
    have hcounts : (s.learner.count key).observations =
        countsOf (learner.keysOf (before ++ [a])) := by
      rw [← run_counts hnew, Session.run_concat, Session.observe_learner]
      exact congrArg (fun o => (Option.elim o s.learner s.learner.count).observations) hsome.symm
    rw [Session.observe_of_some hsome, if_pos (isSerializable_of_counts hcounts ?_)]
    intro other hother
    refine htext other ?_
    rw [List.append_cons, AuditLearner.keysOf, List.filterMap_append]
    exact List.mem_append_left _ hother

/-- Where no access fails, the file holds the output of the counts once something was
counted. -/
theorem finalOutput_spec {learner : AuditLearner} (hnew : learner.observations = .empty)
    {accesses : List Access} (hsucceeds : (⟨learner, none⟩ : Session).Succeeds accesses) :
    ∃ final : AuditLearner, final.observations = countsOf (learner.keysOf accesses) ∧
      learner.finalOutput accesses =
        if learner.keysOf accesses = [] then none else some final.writeOutput.2 :=
  ⟨_, run_counts hnew accesses, Session.file_of_succeeds hsucceeds⟩

/-- The roots found for a learner's own symlinks are spelled in one way each. -/
theorem rootOf_spelling {learner : AuditLearner} {listing : List (Option ConfigDirEntry)}
    (hlisted : Listed listing)
    (haliases : learner.pathAliases = configSymlinkAliases learner.homeDir (some listing))
    {target target' root root' : Path} (h : learner.rootOf target = some root)
    (h' : learner.rootOf target' = some root') (hsame : root.components = root'.components) :
    root = root' := by
  have hroot : ∀ {target root : Path}, learner.rootOf target = some root →
      ConfigRoot learner.homeDir root := by
    intro target root h
    rw [AuditLearner.rootOf, configRootForHomeOrAlias, Option.or_eq_some_iff] at h
    rcases h with h | ⟨-, h⟩
    · exact (configRootForHome_spec h).1
    · rw [configRootForAlias] at h
      obtain ⟨link, hlink, hlogical⟩ := List.exists_of_findSome?_eq_some h
      obtain ⟨-, -, rfl⟩ := Option.map_eq_some_iff.mp hlogical
      rw [haliases] at hlink
      obtain ⟨entry, hentry, hmade⟩ := mem_configSymlinkAliases hlink
      have hname := hlisted.isName entry hentry
      rw [(configSymlinkAlias_eq_some hmade).2]
      exact .subdir hname.noSlash (Path.parseSegment_name hname)
  exact (hroot h).eq_of_inside (hroot h') (hsame ▸ List.prefix_rfl)

theorem keyOf_spelling {learner : AuditLearner} {listing : List (Option ConfigDirEntry)}
    (hlisted : Listed listing)
    (haliases : learner.pathAliases = configSymlinkAliases learner.homeDir (some listing))
    {a b : Access} {key key' : ObservationKey} (h : learner.keyOf a = some key)
    (h' : learner.keyOf b = some key') (hsame : key.cmp key' = .eq) : key = key' := by
  obtain ⟨hsubject, hcomponents, haccess⟩ := ObservationKey.cmp_eq_iff.mp hsame
  obtain ⟨root, hroot, rfl⟩ := Option.map_eq_some_iff.mp h
  obtain ⟨root', hroot', rfl⟩ := Option.map_eq_some_iff.mp h'
  dsimp only at hsubject hcomponents haccess
  rw [hsubject, haccess, rootOf_spelling hlisted haliases hroot hroot' hcomponents]

/-- Keys of one spelling are counted alike in every order. -/
theorem countsOf_perm {learner : AuditLearner} {listing : List (Option ConfigDirEntry)}
    (hlisted : Listed listing)
    (haliases : learner.pathAliases = configSymlinkAliases learner.homeDir (some listing))
    {accesses permuted : List Access}
    (hkeys : (learner.keysOf permuted).Perm (learner.keysOf accesses)) :
    countsOf (learner.keysOf permuted) = countsOf (learner.keysOf accesses) := by
  refine SortedMap.eq_of_get (get_countsOf_perm hkeys) ?_
  intro x hx y hy hcmp
  obtain ⟨a, -, ha⟩ := List.mem_filterMap.mp (mem_countsOf hx)
  obtain ⟨b, -, hb⟩ := List.mem_filterMap.mp (mem_countsOf hy)
  exact keyOf_spelling hlisted haliases ha hb hcmp

theorem writeOutput_congr {learner other : AuditLearner}
    (h : learner.observations = other.observations) :
    learner.writeOutput.2 = other.writeOutput.2 := by
  rw [AuditLearner.writeOutput, AuditLearner.writeOutput, AuditLearner.candidateOwnedPaths,
    AuditLearner.candidateOwnedPaths, AuditLearner.learnedObservations,
    AuditLearner.learnedObservations, h]

/-- Where the roots are text, every access is written, and the output lists each
triple once with the number of its occurrences and a rule for each root of a sole
subject. It is the same for every order of the accesses, up to the spelling of the
roots; the roots behind the symlinks of a home directory have one spelling each. -/
theorem aggregation_exact (learner : AuditLearner) (hnew : learner.observations = .empty)
    (accesses : List Access)
    (htext : ∀ key ∈ learner.keysOf accesses, (toStr key.configRoot.bytes).isSome = true) :
    (⟨learner, none⟩ : Session).Succeeds accesses ∧
    (∀ learned, learner.finalOutput accesses = some learned →
      Aggregated (learner.keysOf accesses) learned) ∧
    (learner.finalOutput accesses = none ↔ learner.keysOf accesses = []) ∧
    ∀ permuted, permuted.Perm accesses →
      Option.Rel SameOutput (learner.finalOutput permuted) (learner.finalOutput accesses) ∧
      ∀ listing, Listed listing →
        learner.pathAliases = configSymlinkAliases learner.homeDir (some listing) →
        learner.finalOutput permuted = learner.finalOutput accesses := by
  have hsucceeds := succeeds_of_text hnew htext
  obtain ⟨final, hfinal, houtput⟩ := finalOutput_spec hnew hsucceeds
  refine ⟨hsucceeds, ?_, ?_, ?_⟩
  · intro learned hlearned
    rw [houtput] at hlearned
    split at hlearned
    · cases hlearned
    · rw [← Option.some.inj hlearned]
      exact aggregated_of_counts hfinal
  · rw [houtput]
    split
    · rename_i hnone
      exact iff_of_true rfl hnone
    · rename_i hsome
      exact iff_of_false nofun hsome
  · intro permuted hperm
    have hkeys : (learner.keysOf permuted).Perm (learner.keysOf accesses) :=
      hperm.filterMap learner.keyOf
    obtain ⟨final', hfinal', houtput'⟩ := finalOutput_spec hnew
      (succeeds_of_text hnew fun key hkey => htext key (hkeys.subset hkey))
    have hnone : learner.keysOf permuted = [] ↔ learner.keysOf accesses = [] := by
      rw [← List.length_eq_zero_iff, ← List.length_eq_zero_iff, hkeys.length_eq]
    rw [houtput, houtput']
    simp only [hnone]
    split
    · exact ⟨.none, fun _ _ _ => rfl⟩
    · refine ⟨.some (sameOutput_of_counts ?_), ?_⟩
      · rw [hfinal, hfinal']
        exact SortedMap.forall₂_of_get (get_countsOf_perm hkeys)
      · intro listing hlisted haliases
        have hsame : final'.observations = final.observations := by
          rw [hfinal, hfinal', countsOf_perm hlisted haliases hkeys]
        rw [writeOutput_congr hsame]

/-- The directory of `gh` is a symlink. -/
def linkedListing : List (Option ConfigDirEntry) :=
  [some ⟨utf8 "gh", true, some (Path.ofString "/sync/gh"), true⟩]

def linkedAccesses : List Access :=
  sharedAccesses ++
    [⟨⟨Path.ofString "/usr/bin/gh", ["gh"], []⟩, Path.ofString "/sync/gh/hosts.yml", .read⟩]

def linkedLearner : AuditLearner :=
  .new (Path.ofString "/tmp/learned.toml") (Path.ofString "/home/u") (some linkedListing)

theorem aggregation_linked :
    linkedLearner.finalOutput linkedAccesses.reverse = linkedLearner.finalOutput linkedAccesses := by
  refine ((aggregation_exact linkedLearner rfl linkedAccesses (by decide)).2.2.2 _
    (List.reverse_perm _)).2 linkedListing ⟨?_, by decide, ?_⟩ rfl
  · intro entry hentry
    obtain rfl := List.mem_singleton.mp hentry
    constructor <;> decide
  · intro entry hentry real hreal
    obtain rfl := List.mem_singleton.mp hentry
    rw [← Option.some.inj hreal]
    decide

/-- A symlink whose name is not text. -/
def unprintableLearner : AuditLearner :=
  .new (Path.ofString "/tmp/learned.toml") (Path.ofString "/home/u")
    (some [some ⟨[0xff], true, some (Path.ofString "/sync/app"), true⟩])

def unprintableAccesses : List Access :=
  [⟨⟨Path.ofString "/usr/bin/gh", ["gh"], []⟩, Path.ofString "/home/u/.config/gh/hosts.yml", .read⟩,
    ⟨⟨Path.ofString "/usr/bin/cat", ["cat"], []⟩, Path.ofString "/sync/app/settings", .read⟩]

/-- The access behind the symlink is counted and never written, nor is what comes after it. -/
theorem aggregation_unprintable :
    (∃ learned, unprintableLearner.finalOutput unprintableAccesses = some learned ∧
      ¬ Aggregated (unprintableLearner.keysOf unprintableAccesses) learned) ∧
    unprintableLearner.finalOutput unprintableAccesses.reverse ≠
      unprintableLearner.finalOutput unprintableAccesses := by
  constructor
  · refine ⟨_, rfl, ?_⟩
    intro h
    have hcount := h.counts ⟨"cat", ⟨utf8 "/home/u/.config/" ++ [0xff]⟩, .read⟩
    revert hcount
    decide
  · decide

end ConfigGuard
