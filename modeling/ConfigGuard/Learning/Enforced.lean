import ConfigGuard.Audit.Observations
import ConfigGuard.Guard.Consent
import ConfigGuard.Learning.Aggregation
import ConfigGuard.Learning.AliasRoots
import ConfigGuard.Learning.Document

/-!
# A learned policy at work

The guard with the rules that the learner of an audit run has written, under the
same home directory. It asks about the programs that were not seen where one
other program was, and about nothing else.
-/

namespace ConfigGuard
open OsPath Toml Transition

/-- The policy of a guard under the learner's home directory. -/
def AuditLearner.enforced (learner : AuditLearner) (config : PolicyConfig) : StaticPolicy where
  config := config
  pathAliases := learner.pathAliases

/-- The path is judged in a configuration root that one program was seen to use, and it is
none of that name. -/
def Foreign (learner : AuditLearner) (told : List Access) (subject : ProcessSubject)
    (target : Path) : Prop :=
  ∃ root owner, SoleSubject (learner.keysOf told) root owner ∧
    (logicalPolicyPath target learner.pathAliases).startsWith root = true ∧
      owner ≠ subjectName subject

/-- A program of the same name in the same configuration root, judged there; where there is
none, not below a symlink of `~/.config` either. -/
structure Resembles (learner : AuditLearner) (a : Access) (subject : ProcessSubject)
    (target : Path) : Prop where
  name : subjectName subject = subjectName a.subject
  root : learner.rootOf target = learner.rootOf a.target
  governs : LearnedGoverns target learner.homeDir learner.pathAliases
  resolved : learner.rootOf target = none →
    ∀ link ∈ learner.pathAliases, target.startsWith link.logicalRoot = false

section

variable {learner : AuditLearner} (haliases : ConfigAliases learner.homeDir learner.pathAliases)
  {told : List Access}

theorem mem_keysOf {key : ObservationKey} :
    key ∈ learner.keysOf told ↔ ∃ a ∈ told, learner.keyOf a = some key :=
  List.mem_filterMap

theorem rootOf_of_keyOf {a : Access} {key : ObservationKey} (h : learner.keyOf a = some key) :
    learner.rootOf a.target = some key.configRoot ∧ key.subject = subjectName a.subject := by
  obtain ⟨root, hroot, rfl⟩ := Option.map_eq_some_iff.mp h
  exact ⟨hroot, rfl⟩

include haliases

theorem rootOf_configRoot {target root : Path} (h : learner.rootOf target = some root) :
    ConfigRoot learner.homeDir root := by
  rw [AuditLearner.rootOf, configRootForHomeOrAlias, Option.or_eq_some_iff] at h
  rcases h with h | ⟨-, h⟩
  · exact (configRootForHome_spec h).1
  · rw [configRootForAlias_eq] at h
    obtain ⟨link, hover, rfl⟩ := Option.map_eq_some_iff.mp h
    exact logicalRoot_configRoot haliases (List.mem_of_find?_eq_some hover)

/-- A root with a sole subject is spelled as it was found for an access. -/
theorem SoleSubject.found {root : Path} {owner : String}
    (h : SoleSubject (learner.keysOf told) root owner) :
    ∃ a ∈ told, ∃ found, learner.rootOf a.target = some found ∧ found.components = root.components ∧
      ConfigRoot learner.homeDir found := by
  obtain ⟨⟨key, hkey, hsame⟩, -⟩ := h
  obtain ⟨a, ha, hkeyOf⟩ := mem_keysOf.mp hkey
  have hroot := (rootOf_of_keyOf hkeyOf).1
  exact ⟨a, ha, _, hroot, same_iff.mp hsame, rootOf_configRoot haliases hroot⟩

/-- A path has one root with a sole subject over it at most, and so one owner. -/
theorem SoleSubject.unique {target root root' : Path} {owner owner' : String}
    (h : SoleSubject (learner.keysOf told) root owner)
    (h' : SoleSubject (learner.keysOf told) root' owner')
    (hover : target.startsWith root = true) (hover' : target.startsWith root' = true) :
    owner = owner' := by
  obtain ⟨-, -, found, -, hfound, hconfig⟩ := h.found haliases
  obtain ⟨-, -, found', -, hfound', hconfig'⟩ := h'.found haliases
  rw [Path.startsWith_iff, ← hfound, ← Path.startsWith_iff] at hover
  rw [Path.startsWith_iff, ← hfound', ← Path.startsWith_iff] at hover'
  obtain rfl := hconfig.unique hconfig' hover hover'
  obtain ⟨key, hkey, hsame⟩ := h.1
  have hsame' : key.configRoot.same root' = true := by
    rw [same_iff] at hsame ⊢
    rw [hsame, ← hfound, hfound']
  rw [← h.2 key hkey hsame, h'.2 key hkey hsame']

/-- What resembles an observed access is not foreign. -/
theorem Resembles.not_foreign {a : Access} (ha : a ∈ told) {subject : ProcessSubject} {target : Path}
    (h : Resembles learner a subject target) : ¬ Foreign learner told subject target := by
  rintro ⟨root, owner, hsole, hover, hne⟩
  obtain ⟨b, hb, found, hrootb, hfound, hconfig⟩ := hsole.found haliases
  rw [Path.startsWith_iff, ← hfound, ← Path.startsWith_iff] at hover
  cases hroot : learner.rootOf target with
  | some known =>
    -- the judged path is under the root the access was counted for, which is this one
    obtain rfl := (rootOf_configRoot haliases hroot).unique hconfig (h.governs known hroot) hover
    have hkeyOf : learner.keyOf a = some ⟨subjectName a.subject, known, .ofKind a.access⟩ := by
      rw [AuditLearner.keyOf, ← h.root, hroot]
      rfl
    apply hne
    rw [h.name]
    exact (hsole.2 _ (mem_keysOf.mpr ⟨a, ha, hkeyOf⟩) (same_iff.mpr hfound)).symm
  | none =>
    -- without a root the path is judged as it is, and a root over it would have been found
    have hresolved := h.resolved hroot
    rw [AuditLearner.rootOf, configRootForHomeOrAlias, Option.or_eq_none_iff, configRootForAlias_eq,
      Option.map_eq_none_iff] at hroot
    rw [logicalPolicyPath_of_none hroot.2] at hover
    rw [AuditLearner.rootOf, configRootForHomeOrAlias, Option.or_eq_some_iff] at hrootb
    rcases hrootb with hhome | ⟨-, hlink⟩
    · rw [(configRootForHome_spec hhome).2.2 target hover] at hroot
      cases hroot.1
    · rw [configRootForAlias_eq] at hlink
      obtain ⟨link, hfirst, rfl⟩ := Option.map_eq_some_iff.mp hlink
      rw [hresolved link (List.mem_of_find?_eq_some hfirst)] at hover
      cases hover

end

theorem allowedSubjects_candidate {learner : AuditLearner} {rule : LearnedOwnedPath}
    (h : rule ∈ learner.candidateOwnedPaths) : rule.allowedSubjects = [] := by
  obtain ⟨⟨root, subjects⟩, -, hrule⟩ := List.mem_filterMap.mp h
  rw [candidateOwnerForRoot] at hrule
  split at hrule
  · cases hrule
  · obtain ⟨-, -, rfl⟩ := Option.map_eq_some_iff.mp hrule
    rfl

/-- With rules of owners only, whoever is not the owner is asked about. -/
theorem decide_learned {config : PolicyConfig} (hshared : config.sharedPaths = [])
    (hsensitive : config.sensitivePaths = [])
    (hplain : ∀ rule ∈ config.ownedPaths, rule.allowedSubjects = [] ∧ rule.denyNonOwner = false)
    (subject : ProcessSubject) (target : Path) (access : AccessKind) :
    (Policy.decide config subject target access = .allow ∧
        (target.fileName ≠ some (utf8 ".gitignore") →
          ∀ rule, Policy.ownerFor config target = some rule → rule.owner = subjectName subject)) ∨
      target.fileName ≠ some (utf8 ".gitignore") ∧
      ∃ rule reason, Policy.ownerFor config target = some rule ∧ rule.owner ≠ subjectName subject ∧
        reason.isCrossOwner = true ∧ Policy.decide config subject target access =
          .prompt reason (Policy.defaultDecision config) rule.path := by
  by_cases hname : target.fileName = some (utf8 ".gitignore")
  · refine .inl ⟨?_, fun hne => absurd hname hne⟩
    rw [Policy.decide, if_pos hname]
  · cases howner : Policy.ownerFor config target with
    | none =>
      refine .inl ⟨?_, fun _ _ h => (by cases h)⟩
      refine decide_of_ownerFor hshared hsensitive access ?_
      rw [howner]
      rintro _ ⟨⟩
    | some rule =>
      by_cases hsame : rule.owner = subjectName subject
      · refine .inl ⟨?_, fun _ _ h => Option.some.inj h ▸ hsame⟩
        refine decide_of_ownerFor hshared hsensitive access ?_
        rw [howner]
        rintro _ ⟨⟩
        exact hsame
      · obtain ⟨hsubjects, hdeny⟩ := hplain rule (Policy.ownerFor_eq_some howner).1
        have hallows : rule.allows subject (subjectName subject) = false := by
          rw [OwnedPath.allows, hsubjects, beq_false_of_ne hsame]
          rfl
        have hdecide : Policy.decide config subject target access =
            Policy.promptForCrossOwnerAccess config access rule.path := by
          simp [Policy.decide, hname, howner, hallows, hdeny, Policy.sharedPathAllows,
            Policy.sensitiveDevToolAccess, hshared, hsensitive, Selection.maxByKey]
        refine .inr ⟨hname, rule, ?_⟩
        rw [hdecide]
        cases access <;> exact ⟨_, rfl, hsame, rfl, rfl⟩

/-- An access is asked about that is foreign, and every other is allowed. -/
theorem enforced_decide {learner final : AuditLearner}
    (haliases : ConfigAliases learner.homeDir learner.pathAliases) {told : List Access}
    (hcounts : final.observations = countsOf (learner.keysOf told)) (devTools : List String)
    (failOpen : Bool) (subject : ProcessSubject) (target : Path) (access : AccessKind) :
    let policy := learner.enforced (final.writeOutput.2.policy devTools failOpen)
    (policy.decide subject target access = .allow ∧
        ((policy.decisionPath target).fileName ≠ some (utf8 ".gitignore") →
          ¬ Foreign learner told subject target)) ∨
      (policy.decisionPath target).fileName ≠ some (utf8 ".gitignore") ∧
      Foreign learner told subject target ∧ ∃ reason scope, reason.isCrossOwner = true ∧
        policy.decide subject target access =
          .prompt reason (Policy.defaultDecision policy.config) scope := by
  intro policy
  have haggregated := aggregated_of_counts hcounts
  have hplain : ∀ rule ∈ policy.config.ownedPaths,
      rule.allowedSubjects = [] ∧ rule.denyNonOwner = false := by
    intro rule hrule
    obtain ⟨learned, hlearned, rfl⟩ := List.mem_map.mp hrule
    exact ⟨allowedSubjects_candidate hlearned, rfl⟩
  have hgoverning : ∀ {rule}, Policy.ownerFor policy.config (policy.decisionPath target) = some rule →
      SoleSubject (learner.keysOf told) rule.path rule.owner ∧
        (policy.decisionPath target).startsWith rule.path = true := by
    intro rule hrule
    obtain ⟨hmem, hover, -⟩ := Policy.ownerFor_eq_some hrule
    obtain ⟨learned, hlearned, rfl⟩ := List.mem_map.mp hmem
    exact ⟨haggregated.owner learned hlearned, hover⟩
  rcases @decide_learned policy.config rfl rfl hplain subject
    (policy.decisionPath target) access with ⟨hallow, howner⟩ | ⟨hname, rule, reason, hrule, hne,
      hreason, hdecide⟩
  · refine .inl ⟨hallow, ?_⟩
    rintro hname ⟨root, owner, hsole, hover, hne⟩
    obtain ⟨learned, hlearned, hsame⟩ := (haggregated.owned root).mpr ⟨owner, hsole⟩
    cases hfound : Policy.ownerFor policy.config (policy.decisionPath target) with
    | none =>
      -- the rule learned for the root is over the path
      rw [Policy.ownerFor, Selection.maxByKey_eq_none, List.filter_eq_nil_iff] at hfound
      refine hfound learned.rule (List.mem_map_of_mem hlearned) ?_
      rw [Path.startsWith_iff] at hover ⊢
      exact (same_iff.mp hsame).symm ▸ hover
    | some rule =>
      obtain ⟨hsole', hover'⟩ := hgoverning hfound
      rw [hsole.unique haliases hsole' hover hover', howner hname rule hfound] at hne
      exact hne rfl
  · obtain ⟨hsole, hover⟩ := hgoverning hrule
    exact .inr ⟨hname, ⟨rule.path, rule.owner, hsole, hover, hne⟩, reason, rule.path, hreason, hdecide⟩

/-- What an audit run has written to its output file is what it counted. -/
theorem audit_file {setup : AuditSetup} {learner : AuditLearner}
    (hnew : learner.observations = .empty) {s : AuditSession}
    (h : Reachable (auditLoop setup (some learner)) anyStep s) (hrunning : s.pc.running = true)
    {learned : LearnedConfig} (hfile : s.runtime.file = some learned) :
    ∃ final : AuditLearner, final.observations = countsOf (learner.keysOf s.runtime.told) ∧
      learned = final.writeOutput.2 := by
  have hs : AuditSession.Observes setup learner s := AuditSession.observes_reachable h
  obtain ⟨hsucceeds, hwritten⟩ := hs.written hrunning
  obtain ⟨final, hcounts, houtput⟩ := finalOutput_spec hnew hsucceeds
  refine ⟨final, hcounts, ?_⟩
  rw [hwritten] at hfile
  have hsome : learner.finalOutput s.runtime.told = some learned := hfile
  rw [houtput] at hsome
  split at hsome
  · cases hsome
  · exact (Option.some.inj hsome).symm

/-- Take a run of an audit with a new learner, as far as the audit has not failed, and any
run of a guard that has loaded the file the audit has written. Whatever resembles an access
that the audit observed is allowed by the policy, and a foreign access is asked about. A
dialog comes up only for a foreign access, as a cross-owner one, and another response than
`Allow` is a `Deny` that a user has chosen for a foreign access. -/
theorem learned_policy_asks_strangers (setup : AuditSetup) (learner : AuditLearner)
    (hnew : learner.observations = .empty)
    (haliases : ConfigAliases learner.homeDir learner.pathAliases) (s : AuditSession)
    (h : Reachable (auditLoop setup (some learner)) anyStep s) (hrunning : s.pc.running = true)
    (learned : LearnedConfig) (hfile : s.runtime.file = some learned) (root : Table)
    (hroot : learned.document = some root) (config : PolicyConfig)
    (hconfig : readPolicyConfig root = some config) :
    let policy := learner.enforced config
    (∀ a ∈ s.runtime.told, ∀ subject target, Resembles learner a subject target →
      ∀ access, policy.decide subject target access = .allow) ∧
    (∀ subject target access, Foreign learner s.runtime.told subject target →
      (policy.decisionPath target).fileName ≠ some (utf8 ".gitignore") →
        ∃ reason scope, policy.decide subject target access = .prompt reason .allow scope) ∧
    ∀ backend paths excludedPaths io t,
      let g := guardOf policy backend paths excludedPaths io
      Reachable (guardRun g) (fun _ a => ShownBy backend a) t →
      (∀ job, t.HasJob job → job.reason.isCrossOwner = true ∧
        ∃ event ∈ t.world.handed, event.target = .ok job.targetPath ∧
          Foreign learner s.runtime.told event.subject job.targetPath) ∧
      ∀ before after ev d ok, t.world.trace = before ++ .responded ev d ok :: after → d ≠ .allow →
        ∃ e event target evaluation, ev = some e ∧ t.world.handed[e]? = some event ∧
          event.target = .ok target ∧ Foreign learner s.runtime.told event.subject target ∧
          evaluateGuardAccess g event target = .ok evaluation ∧ d = .deny ∧
          ChosenBefore g backend t.world before e evaluation .deny := by
  intro policy
  obtain ⟨final, hcounts, rfl⟩ := audit_file hnew h hrunning hfile
  obtain rfl := Option.some.inj (hconfig.symm.trans (readPolicyConfig_document hroot))
  have hdecide := enforced_decide haliases hcounts defaultDevTools defaultFailOpen
  have hprompt : ∀ {subject target access reason default scope},
      policy.decide subject target access = .prompt reason default scope →
        Foreign learner s.runtime.told subject target ∧ reason.isCrossOwner = true := by
    intro subject target access reason default scope heq
    rcases hdecide subject target access with ⟨hallow, -⟩ | ⟨-, hforeign, _, _, hreason, hprompt⟩
    · cases hallow.symm.trans heq
    · obtain ⟨rfl, -, -⟩ := Decision.prompt.inj (hprompt.symm.trans heq)
      exact ⟨hforeign, hreason⟩
  have hnever : ∀ subject target access, policy.decide subject target access ≠ .deny := by
    intro subject target access hdeny
    rcases hdecide subject target access with ⟨hallow, -⟩ | ⟨-, -, _, _, -, hprompt⟩
    · cases hallow.symm.trans hdeny
    · cases hprompt.symm.trans hdeny
  refine ⟨?_, ?_, ?_⟩
  · intro a ha subject target hresembles access
    rcases hdecide subject target access with ⟨hallow, -⟩ | ⟨-, hforeign, -⟩
    · exact hallow
    · exact absurd hforeign (hresembles.not_foreign haliases ha)
  · intro subject target access hforeign hname
    rcases hdecide subject target access with ⟨-, hnot⟩ | ⟨-, -, reason, scope, -, hprompt⟩
    · exact absurd hforeign (hnot hname)
    · exact ⟨reason, scope, hprompt⟩
  · intro backend paths excludedPaths io t g ht
    constructor
    · intro job hjob
      obtain ⟨event, hmem, hasks⟩ := (backed_reachable rfl ht).asks job hjob
      obtain ⟨evaluation, scope, hevaluation, hdecision, -⟩ := hasks.evaluated
      obtain ⟨hforeign, hreason⟩ :=
        hprompt ((evaluated_decision rfl hevaluation).symm.trans hdecision)
      exact ⟨hreason, event, hmem, hasks.target, hforeign⟩
    · intro before after ev d ok htrace hne
      obtain ⟨e, event, target, evaluation, reason, scope, hev, hevent, htarget, hdecision,
        hevaluate, hdeny, hchosen⟩ := denied_by_user hnever rfl ht htrace hne
      exact ⟨e, event, target, evaluation, hev, hevent, htarget, (hprompt hdecision).1, hevaluate,
        hdeny, hchosen⟩

def sshConfig : Path := Path.ofString "/home/u/.ssh/config"

def sshMoves : List AuditMove :=
  [.readBatch [{ catEvent fanOpen 5 with target := .ok sshConfig },
    { catEvent fanCloseNowrite 5 with target := .ok sshConfig }] (.ok ()), .handle, .handle]

/-- An audit sees `cat` read a file of `~/.ssh`. -/
def sshAudited : AuditSession :=
  runFrom (auditLoop piAudit (some catLearner)) anyStep (.start (some catLearner)) sshMoves

def sshLearned : LearnedConfig where
  ownedPaths := [⟨Path.ofString "/home/u/.ssh", "cat", []⟩]
  observations := [⟨"cat", Path.ofString "/home/u/.ssh", .read, 1⟩]

def sshPolicy : StaticPolicy :=
  catLearner.enforced (sshLearned.policy defaultDevTools defaultFailOpen)

def curl : ProcessIdentity :=
  { catGeneration 42 100 with executable := Path.ofString "/usr/bin/curl" }

def sshGuard : Guard := guardOf sshPolicy authdPrompt [Path.ofString "/home/u"] [] fun _ => true

/-- authd reports a refusal. -/
def refusing : Surroundings where
  spawn _ _ := .error "no such command"
  exchange _ _ := ⟨.ok (), .ok (), .ok (), .ok [], .ok (), .ok [0], fun _ => .ok .denied⟩

/-- `curl` wants to read the file, and the user refuses. -/
def curlMoves : List Move :=
  [.poll true, .readBatch [{ sessionOpens with target := .ok sshConfig, inspected := some curl }]
    (.ok ()), .handle, .record, .workerRecv,
    .workerResolve (fun _ _ => true) (authdPrompt.askAnswer refusing), .workerNotify, .endBatch,
    .poll false, .readWake, .readWake, .tryRecv]

def curlRefused : GuardState := runFrom (guardRun sshGuard) anyStep .initial curlMoves

theorem learned_policy_asks_strangers_ssh :
    sshPolicy.decide (catGeneration 42 100).subject sshConfig .write = .allow ∧
      curlRefused.world.trace[2]? = some (.responded (some 0) .deny true) ∧
      Foreign catLearner [⟨(catGeneration 42 100).subject, sshConfig, .read⟩] curl.subject
        sshConfig := by
  have htold : sshAudited.runtime.told = [⟨(catGeneration 42 100).subject, sshConfig, .read⟩] := rfl
  have haliases : ConfigAliases catLearner.homeDir catLearner.pathAliases := by
    constructor <;> simp [catLearner, AuditLearner.new, configSymlinkAliases]
  obtain ⟨root, hroot⟩ : ∃ root, sshLearned.document = some root :=
    Option.isSome_iff_exists.mp (by decide)
  obtain ⟨hallowed, -, hguard⟩ := learned_policy_asks_strangers piAudit catLearner rfl haliases
    sshAudited ⟨_, rfl, runFrom_steps (by decide)⟩ rfl sshLearned rfl root hroot
    (sshLearned.policy defaultDevTools defaultFailOpen) (readPolicyConfig_document hroot)
  rw [htold] at hallowed hguard
  refine ⟨?_, rfl, ?_⟩
  · refine hallowed _ List.mem_cons_self _ _ ⟨rfl, rfl, ?_, ?_⟩ .write
    · intro root hroot
      have hssh : configRootForHomeOrAlias sshConfig catLearner.homeDir catLearner.pathAliases =
          some (Path.ofString "/home/u/.ssh") := by decide
      obtain rfl := Option.some.inj (hroot.symm.trans hssh)
      decide
    · intro _ link hlink
      cases hlink
  · have hreachable : Reachable (guardRun sshGuard) (fun _ a => ShownBy authdPrompt a) curlRefused :=
      ⟨.initial, rfl, exec_steps_of_labels (show exec _ anyStep _ curlMoves = _ from rfl)
        (by simp [curlMoves, ShownBy])⟩
    obtain ⟨e, event, target, evaluation, he, hevent, htarget, hforeign, -⟩ :=
      (hguard authdPrompt [Path.ofString "/home/u"] [] (fun _ => true) curlRefused hreachable).2
        (curlRefused.world.trace.take 2) (curlRefused.world.trace.drop 3) (some 0) .deny true rfl
        (by decide)
    obtain rfl := Option.some.inj he
    obtain rfl := Option.some.inj hevent
    obtain rfl : sshConfig = target := Except.ok.inj htarget
    exact hforeign

end ConfigGuard
