import ConfigGuard.Policy.Alias

/-!
# Ancestry authorizations

`AncestryAuthorization` of `prompt.rs`: the helper's executable and the
process above it that carries a configured owner's name.
-/

namespace ConfigGuard
open OsPath

/-- What `PathBuf` compares and hashes: the components. -/
abbrev PathKey := List Component

structure AncestryAuthorization where
  subjectExecutable : Path
  ownerAncestor : ProcessAncestor
  deriving DecidableEq, Repr

structure AncestryAuthorizationKey where
  subjectExecutable : PathKey
  ownerExecutable : PathKey
  deriving DecidableEq, Repr

def executableName (executable : Path) : String :=
  (executable.fileName.bind toStr).getD "unknown"

def ancestorMatchesOwner (ancestor : ProcessAncestor) (ownerSubject : String) : Bool :=
  executableName ancestor.executable == ownerSubject

/-- The loop of `owner_chain_root`: the last ancestor of the chain, given up
at the first one without a start time. -/
def chainRoot : Option ProcessAncestor → List ProcessAncestor → Option ProcessAncestor
  | root, [] => root
  | _, ancestor :: chain =>
    if ancestor.startTimeTicks.isSome then chainRoot (some ancestor) chain else none

def ownerChain (process : ProcessIdentity) (ownerSubject : String) : List ProcessAncestor :=
  (process.ancestorProcesses.dropWhile fun ancestor =>
    !ancestorMatchesOwner ancestor ownerSubject).takeWhile fun ancestor =>
      ancestorMatchesOwner ancestor ownerSubject

def ownerChainRoot (process : ProcessIdentity) (ownerSubject : String) : Option ProcessAncestor :=
  chainRoot none (ownerChain process ownerSubject)

namespace AncestryAuthorization

def new (process : ProcessIdentity) (ownerSubject : String) (decision : Decision) :
    Option AncestryAuthorization :=
  match decision with
  | .prompt reason _ _ =>
    if reason.isCrossOwner then
      match process.executable, ownerChainRoot process ownerSubject with
      | some executable, some owner => some ⟨executable, owner⟩
      | _, _ => none
    else none
  | .allow | .deny => none

def key (authorization : AncestryAuthorization) : AncestryAuthorizationKey where
  subjectExecutable := authorization.subjectExecutable.components
  ownerExecutable := authorization.ownerAncestor.executable.components

/-- `current` is `is_process_generation_current` at the moment of the call. -/
def ownerIsCurrent (current : Int → Nat → Bool) (authorization : AncestryAuthorization) : Bool :=
  authorization.ownerAncestor.startTimeTicks.any fun ticks =>
    current authorization.ownerAncestor.pid ticks

end AncestryAuthorization

/-- The authorization the guard asks for along with a decision. -/
def authorizationFor (policy : AccessPolicy) (process : ProcessIdentity) (decision : Decision) :
    Option AncestryAuthorization :=
  (policy.authorizationOwnerSubject process.subject).bind fun owner =>
    AncestryAuthorization.new process owner decision

/-- An authorization is only ever built for a cross-owner prompt and the
process's own executable. -/
theorem new_eq_some {process : ProcessIdentity} {owner : String} {decision : Decision}
    {authorization : AncestryAuthorization}
    (h : AncestryAuthorization.new process owner decision = some authorization) :
    (∃ reason default scope, decision = .prompt reason default scope ∧
      reason.isCrossOwner = true) ∧
    process.executable = some authorization.subjectExecutable ∧
    ownerChainRoot process owner = some authorization.ownerAncestor := by
  cases decision with
  | allow => cases h
  | deny => cases h
  | prompt reason default scope =>
    simp only [AncestryAuthorization.new] at h
    split at h
    · rename_i hreason
      split at h
      · rename_i hexe howner
        rw [← Option.some.inj h]
        exact ⟨⟨reason, default, scope, rfl, hreason⟩, hexe, howner⟩
      · cases h
    · cases h

/-- The nearest ancestor whose executable name some owned path names as owner. -/
def nearestOwner (config : PolicyConfig) (process : ProcessIdentity) : Option ProcessAncestor :=
  process.ancestorProcesses.find? fun ancestor =>
    config.ownedPaths.any fun owned => Policy.ownerMatchesAncestor owned ancestor.executable

/-- `ancestors` lists the executables of `ancestor_processes`, as procfs inspection builds it. -/
def AncestorsListed (process : ProcessIdentity) : Prop :=
  process.ancestors = process.ancestorProcesses.map (·.executable)

/-- The first unbroken run of ancestors with the nearest owner's name ends at
that owner: no ancestor of the same name stands directly above it. -/
def OwnerRunEndsAtNearest (config : PolicyConfig) (process : ProcessIdentity) : Prop :=
  ∃ before run nearest after,
    nearestOwner config process = some nearest ∧
    process.ancestorProcesses = before ++ (run ++ nearest :: after) ∧
    (∀ a ∈ before, executableName a.executable ≠ executableName nearest.executable) ∧
    (∀ a ∈ run, executableName a.executable = executableName nearest.executable) ∧
    ∀ a ∈ after.head?, executableName a.executable ≠ executableName nearest.executable

theorem chainRoot_eq_some {chain : List ProcessAncestor} {root : Option ProcessAncestor}
    {ancestor : ProcessAncestor} (h : chainRoot root chain = some ancestor) :
    (root.toList ++ chain).getLast? = some ancestor := by
  induction chain generalizing root with
  | nil =>
    rw [chainRoot] at h
    simp [h]
  | cons a chain ih =>
    rw [chainRoot] at h
    split at h
    · have hlast := ih h
      cases root <;> simpa using hlast
    · cases h

theorem ownerChainRoot_last {process : ProcessIdentity} {owner : String}
    {ancestor : ProcessAncestor} (h : ownerChainRoot process owner = some ancestor) :
    (ownerChain process owner).getLast? = some ancestor := by
  simpa using chainRoot_eq_some h

theorem executableName_of_matches {owned : OwnedPath} {executable : Path}
    (h : Policy.ownerMatchesAncestor owned executable = true) :
    executableName executable = owned.owner := by
  rw [executableName, beq_iff_eq.mp h]
  rfl

/-- The name the policy looks up is that of the nearest configured owner. -/
theorem authorizationOwnerSubject_nearest {config : PolicyConfig} {process : ProcessIdentity}
    (hlisted : AncestorsListed process) {owner : String}
    (h : Policy.authorizationOwnerSubject config process.subject = some owner) :
    ∃ nearest, nearestOwner config process = some nearest ∧
      executableName nearest.executable = owner := by
  have hanc : process.subject.ancestors = process.ancestorProcesses.map (·.executable) := hlisted
  rw [Policy.authorizationOwnerSubject, hanc] at h
  unfold nearestOwner
  generalize process.ancestorProcesses = chain at h ⊢
  induction chain with
  | nil => cases h
  | cons a as ih =>
    rw [List.map_cons, List.findSome?_cons] at h
    cases hfind : config.ownedPaths.find? (Policy.ownerMatchesAncestor · a.executable) with
    | none =>
      have hnone : (config.ownedPaths.any (Policy.ownerMatchesAncestor · a.executable)) = false := by
        rw [List.any_eq_false]
        intro owned howned
        exact (List.find?_eq_none.mp hfind) owned howned
      rw [hfind] at h
      rw [List.find?_cons_of_neg (by simpa using hnone)]
      exact ih h
    | some owned =>
      have hmatches : Policy.ownerMatchesAncestor owned a.executable = true :=
        List.find?_some (p := (Policy.ownerMatchesAncestor · a.executable)) hfind
      have hany : (config.ownedPaths.any (Policy.ownerMatchesAncestor · a.executable)) = true :=
        List.any_eq_true.mpr ⟨owned, List.mem_of_find?_eq_some hfind, hmatches⟩
      rw [hfind] at h
      refine ⟨a, List.find?_cons_of_pos hany, ?_⟩
      exact (executableName_of_matches hmatches).trans (Option.some.inj h)

/-- The chain is the first run of ancestors with the owner's name. -/
theorem ownerChain_eq {process : ProcessIdentity} {owner : String}
    {before run after : List ProcessAncestor} {nearest : ProcessAncestor}
    (hsplit : process.ancestorProcesses = before ++ (run ++ nearest :: after))
    (hnearest : executableName nearest.executable = owner)
    (hbefore : ∀ a ∈ before, executableName a.executable ≠ owner)
    (hrun : ∀ a ∈ run, executableName a.executable = owner)
    (hafter : ∀ a ∈ after.head?, executableName a.executable ≠ owner) :
    ownerChain process owner = run ++ [nearest] := by
  have hdrop : (process.ancestorProcesses.dropWhile fun a => !ancestorMatchesOwner a owner) =
      run ++ nearest :: after := by
    rw [hsplit, List.dropWhile_append_of_pos (by simpa [ancestorMatchesOwner] using hbefore)]
    cases run with
    | nil => simp [ancestorMatchesOwner, hnearest]
    | cons a run => simp [ancestorMatchesOwner, hrun a List.mem_cons_self]
  have htake : after.takeWhile (fun a => ancestorMatchesOwner a owner) = [] := by
    cases after with
    | nil => rfl
    | cons a after =>
      rw [List.takeWhile_cons_of_neg]
      simpa [ancestorMatchesOwner] using hafter a rfl
  rw [ownerChain, hdrop,
    List.takeWhile_append_of_pos (by simpa [ancestorMatchesOwner] using hrun),
    List.takeWhile_cons_of_pos (by simpa [ancestorMatchesOwner] using hnearest), htake]

theorem ownerChain_split (process : ProcessIdentity) (owner : String) :
    ∃ before after, process.ancestorProcesses = before ++ (ownerChain process owner ++ after) ∧
      (∀ a ∈ before, executableName a.executable ≠ owner) ∧
      (∀ a ∈ ownerChain process owner, executableName a.executable = owner) ∧
      ∀ a ∈ after.head?, executableName a.executable ≠ owner := by
  let p := fun a : ProcessAncestor => ancestorMatchesOwner a owner
  refine ⟨process.ancestorProcesses.takeWhile fun a => !p a,
    (process.ancestorProcesses.dropWhile fun a => !p a).dropWhile p, ?_, ?_, ?_, ?_⟩
  · rw [ownerChain, List.takeWhile_append_dropWhile, List.takeWhile_append_dropWhile]
  · intro a ha
    simpa [p, ancestorMatchesOwner] using List.mem_takeWhile_imp ha
  · intro a ha
    simpa [ancestorMatchesOwner] using List.mem_takeWhile_imp ha
  · intro a ha
    have hhead := List.head?_dropWhile_not p (process.ancestorProcesses.dropWhile fun a => !p a)
    rw [Option.mem_def.mp ha] at hhead
    simpa [p, ancestorMatchesOwner] using hhead

/-- The owner recorded is the last of a run of ancestors with one name. -/
theorem authorizationFor_eq_some {policy : StaticPolicy} {process : ProcessIdentity}
    {decision : Decision} {authorization : AncestryAuthorization}
    (hlisted : AncestorsListed process)
    (h : authorizationFor policy.toAccessPolicy process decision = some authorization) :
    process.executable = some authorization.subjectExecutable ∧
    ∃ nearest, nearestOwner policy.config process = some nearest ∧
      (ownerChain process (executableName nearest.executable)).getLast? =
        some authorization.ownerAncestor := by
  obtain ⟨owner, howner, hnew⟩ := Option.bind_eq_some_iff.mp h
  obtain ⟨_, hexe, hroot⟩ := new_eq_some hnew
  obtain ⟨nearest, hnearest, hname⟩ := authorizationOwnerSubject_nearest hlisted howner
  refine ⟨hexe, nearest, hnearest, ?_⟩
  rw [hname]
  exact ownerChainRoot_last hroot

/-- The recorded owner is the nearest configured one exactly when the run of
its name ends at it; two processes for which it does and whose authorizations
have one key stand below owners with one executable path. -/
theorem authorization_nearestOwner_iff (policy : StaticPolicy) (process : ProcessIdentity)
    (decision : Decision) (authorization : AncestryAuthorization)
    (hlisted : AncestorsListed process)
    (h : authorizationFor policy.toAccessPolicy process decision = some authorization) :
    ((process.executable = some authorization.subjectExecutable ∧
        nearestOwner policy.config process = some authorization.ownerAncestor) ↔
      OwnerRunEndsAtNearest policy.config process) ∧
    ∀ other otherDecision otherAuthorization, AncestorsListed other →
      authorizationFor policy.toAccessPolicy other otherDecision = some otherAuthorization →
      OwnerRunEndsAtNearest policy.config process → OwnerRunEndsAtNearest policy.config other →
      authorization.key = otherAuthorization.key →
      (nearestOwner policy.config process).map (·.executable.components) =
        (nearestOwner policy.config other).map (·.executable.components) := by
  have hends : ∀ p d a, AncestorsListed p →
      authorizationFor policy.toAccessPolicy p d = some a →
      OwnerRunEndsAtNearest policy.config p →
      nearestOwner policy.config p = some a.ownerAncestor := by
    rintro p d a hp ha ⟨before, run, nearest, after, hnearest, hsplit, hbefore, hrun, hafter⟩
    obtain ⟨_, nearest', hnearest', hlast⟩ := authorizationFor_eq_some hp ha
    obtain rfl := Option.some.inj (hnearest.symm.trans hnearest')
    rw [ownerChain_eq hsplit rfl hbefore hrun hafter, List.getLast?_concat] at hlast
    rw [hnearest, hlast]
  obtain ⟨hexe, nearest, hnearest, hlast⟩ := authorizationFor_eq_some hlisted h
  refine ⟨⟨?_, fun hcond => ⟨hexe, hends _ _ _ hlisted h hcond⟩⟩, ?_⟩
  · rintro ⟨_, howner⟩
    -- the run found by the chain search ends at the owner it returns
    obtain ⟨before, after, hsplit, hbefore, hrun, hafter⟩ :=
      ownerChain_split process (executableName nearest.executable)
    obtain rfl := Option.some.inj (hnearest.symm.trans howner)
    obtain ⟨run, hchain⟩ := List.getLast?_eq_some_iff.mp hlast
    rw [hchain] at hsplit hrun
    refine ⟨before, run, authorization.ownerAncestor, after, hnearest, ?_, hbefore, ?_, hafter⟩
    · simpa using hsplit
    · intro a ha
      exact hrun a (List.mem_append_left _ ha)
  · intro other otherDecision otherAuthorization hother hauth hcond hcond' hkey
    rw [hends _ _ _ hlisted h hcond, hends _ _ _ hother hauth hcond']
    exact congrArg (some ·.ownerExecutable) hkey

def piRule : OwnedPath where
  path := Path.ofString "/home/u/.pi"
  owner := "pi"

def piPolicy : StaticPolicy where
  config := { ownedPaths := [piRule] }
  pathAliases := []

/-- A `pi` below another one at a different path. -/
def localPi : ProcessAncestor where
  pid := 7
  executable := Path.ofString "/home/u/bin/pi"
  startTimeTicks := some 70

def optPi : ProcessAncestor where
  pid := 8
  executable := Path.ofString "/opt/pi/pi"
  startTimeTicks := some 80

def bashShell : ProcessAncestor where
  pid := 9
  executable := Path.ofString "/usr/bin/bash"
  startTimeTicks := some 75

def helperBelow (chain : List ProcessAncestor) : ProcessIdentity :=
  { ProcessIdentity.unknown 42 with
    executable := some (Path.ofString "/usr/bin/cat")
    ancestors := chain.map (·.executable)
    ancestorProcesses := chain }

/-- A generation of the helper below `localPi`. -/
def catGeneration (pid : Int) (startTimeTicks : Nat) : ProcessIdentity :=
  { helperBelow [localPi] with pid := pid, startTimeTicks := some startTimeTicks }

def piSession : Path := Path.ofString "/home/u/.pi/session"

def crossOwnerPrompt : Decision := .prompt .crossOwnerRead .deny (Path.ofString "/home/u/.ssh")

def catUnder (owner : ProcessAncestor) : AncestryAuthorization where
  subjectExecutable := Path.ofString "/usr/bin/cat"
  ownerAncestor := owner

/-- With a shell between the two, the local `pi` is the one recorded. -/
theorem authorization_nearestOwner_localPi :
    OwnerRunEndsAtNearest piPolicy.config (helperBelow [localPi, bashShell, optPi]) :=
  (authorization_nearestOwner_iff piPolicy (helperBelow [localPi, bashShell, optPi])
    crossOwnerPrompt (catUnder localPi) rfl (by decide)).1.mp ⟨rfl, by decide⟩

/-- Below a local `pi` started by another `pi`, the owner recorded is the outer
one, and a grant made there serves a helper of the outer one alone. -/
theorem ownerChainRoot_passes_nearest :
    ¬ ((∀ (policy : StaticPolicy) (process : ProcessIdentity) (decision : Decision)
        (authorization : AncestryAuthorization), AncestorsListed process →
        authorizationFor policy.toAccessPolicy process decision = some authorization →
        process.executable = some authorization.subjectExecutable ∧
          nearestOwner policy.config process = some authorization.ownerAncestor)) ∧
    ¬ (∀ (policy : StaticPolicy) (process other : ProcessIdentity) (decision : Decision)
        (authorization otherAuthorization : AncestryAuthorization),
        AncestorsListed process → AncestorsListed other →
        authorizationFor policy.toAccessPolicy process decision = some authorization →
        authorizationFor policy.toAccessPolicy other decision = some otherAuthorization →
        authorization.key = otherAuthorization.key →
        (nearestOwner policy.config process).map (·.executable.components) =
          (nearestOwner policy.config other).map (·.executable.components)) := by
  constructor
  · intro h
    have hnearest := (h piPolicy (helperBelow [localPi, optPi]) crossOwnerPrompt (catUnder optPi)
      rfl (by decide)).2
    exact absurd hnearest (by decide)
  · intro h
    have hnearest := h piPolicy (helperBelow [localPi, optPi]) (helperBelow [optPi])
      crossOwnerPrompt (catUnder optPi) (catUnder optPi) rfl rfl (by decide) (by decide) rfl
    exact absurd hnearest (by decide)

end ConfigGuard
