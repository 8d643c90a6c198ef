import ConfigGuard.Library.Transition
import ConfigGuard.Prompt.Ancestry
import Mathlib.Data.List.AList
import Mathlib.Data.Finset.Insert

/-!
# Prompt decisions and their cache

`prompt_resolution.rs`: a prompt decision is settled by an ancestry grant, by
the cached answer of its process generation or by its default, else the prompt
is asked and its answer cached.
-/

namespace ConfigGuard
open OsPath Transition

abbrev Env := AList fun _ : String => String

structure PromptDecisionKey where
  pid : Int
  startTimeTicks : Nat
  executable : PathKey
  access : AccessKind
  reason : DecisionReason
  deriving DecidableEq, Repr

namespace PromptDecisionKey

def new (process : ProcessIdentity) (access : AccessKind) (decision : Decision) :
    Option PromptDecisionKey :=
  process.executable.bind fun executable =>
    process.startTimeTicks.bind fun startTimeTicks =>
      match decision with
      | .prompt reason _ _ => some ⟨process.pid, startTimeTicks, executable.components, access, reason⟩
      | .allow | .deny => none

/-- `current` is `is_process_generation_current` at the moment of the call. -/
def isCurrentProcess (current : Int → Nat → Bool) (key : PromptDecisionKey) : Bool :=
  current key.pid key.startTimeTicks

theorem new_reason {process : ProcessIdentity} {access : AccessKind} {decision : Decision}
    {key : PromptDecisionKey} (h : new process access decision = some key) :
    ∃ default scope, decision = .prompt key.reason default scope := by
  obtain ⟨executable, _, h⟩ := Option.bind_eq_some_iff.mp h
  obtain ⟨ticks, _, h⟩ := Option.bind_eq_some_iff.mp h
  cases decision with
  | allow => cases h
  | deny => cases h
  | prompt reason default scope =>
    obtain rfl := Option.some.inj h
    exact ⟨default, scope, rfl⟩

end PromptDecisionKey

inductive PromptAnswer where
  | explicit (decision : Decision)
  | default (decision : Decision)
  deriving DecidableEq, Repr

namespace PromptAnswer

def intoDecision : PromptAnswer → Decision
  | explicit decision | default decision => decision

def isExplicit : PromptAnswer → Bool
  | explicit _ => true
  | default _ => false

end PromptAnswer

structure PromptRequest where
  subject : ProcessSubject
  targetPath : Path
  reason : DecisionReason
  defaultDecision : Decision
  env : Env
  authorization : Option AncestryAuthorization

/-- A backend at the moment it is used: what it would answer to each request. -/
structure Prompt where
  askAnswer : PromptRequest → Except String PromptAnswer
  requiresGraphicalSession : Bool

inductive PromptOutcome where
  | answer (decision : Decision) (explicit : Bool)
  | failure
  deriving DecidableEq, Repr

def askPrompt (prompt : Prompt) (request : PromptRequest) : PromptOutcome :=
  match prompt.askAnswer request with
  | .ok answer => .answer answer.intoDecision answer.isExplicit
  | .error _ => .failure

structure PromptDecisionCache where
  decisions : AList fun _ : PromptDecisionKey => Decision
  ancestryAuthorizations : Finset AncestryAuthorizationKey
  deriving DecidableEq

namespace PromptDecisionCache

/-- The cache a guard run starts with. -/
def empty : PromptDecisionCache := ⟨∅, ∅⟩

def get (cache : PromptDecisionCache) (key : PromptDecisionKey) : Option Decision :=
  cache.decisions.lookup key

def insertDecision (cache : PromptDecisionCache) (key : PromptDecisionKey) (decision : Decision) :
    PromptDecisionCache :=
  match decision with
  | .allow | .deny => { cache with decisions := cache.decisions.insert key decision }
  | .prompt _ _ _ => cache

def allowsAuthorization (cache : PromptDecisionCache)
    (authorization : Option AncestryAuthorization) : Bool :=
  authorization.any fun authorization => decide (authorization.key ∈ cache.ancestryAuthorizations)

def insertAuthorization (cache : PromptDecisionCache) (authorization : AncestryAuthorization) :
    PromptDecisionCache :=
  { cache with ancestryAuthorizations := insert authorization.key cache.ancestryAuthorizations }

end PromptDecisionCache

def cachePromptDecision (cache : PromptDecisionCache) (key : Option PromptDecisionKey)
    (decision : Decision) : PromptDecisionCache :=
  match key with
  | some key => cache.insertDecision key decision
  | none => cache

def cachePromptAnswer (cache : PromptDecisionCache) (key : Option PromptDecisionKey)
    (authorization : Option AncestryAuthorization) (decision : Decision) (explicit : Bool) :
    PromptDecisionCache :=
  let cached := cachePromptDecision cache key decision
  match authorization with
  | some authorization =>
    if explicit = true ∧ decision = .allow then cached.insertAuthorization authorization else cached
  | none => cached

def cachedPromptDecision (cache : PromptDecisionCache) (key : Option PromptDecisionKey) :
    Option Decision :=
  key.bind cache.get

def hasGraphicalSession (env : Env) : Bool :=
  (env.lookup "WAYLAND_DISPLAY").any fun value => value != ""

/-- The decision that needs no prompt, if there is one, and the cache after it. -/
def immediatePromptDecision (requiresGraphicalSession : Bool) (cache : PromptDecisionCache)
    (key : Option PromptDecisionKey) (authorization : Option AncestryAuthorization) (env : Env)
    (decision : Decision) : Option Decision × PromptDecisionCache :=
  match decision with
  | .allow | .deny => (some decision, cache)
  | .prompt _ default _ =>
    if cache.allowsAuthorization authorization then (some .allow, cache)
    else match cachedPromptDecision cache key with
      | some decision => (some decision, cache)
      | none =>
        if requiresGraphicalSession && !hasGraphicalSession env then
          (some default, cachePromptDecision cache key default)
        else (none, cache)

structure PolicyPromptRequest where
  authorization : Option AncestryAuthorization
  subject : ProcessSubject
  targetPath : Path
  env : Env
  decision : Decision

/-- Only prompt decisions are turned into requests. -/
def buildPolicyPromptRequest (request : PolicyPromptRequest) : Option PromptRequest :=
  match request.decision with
  | .prompt reason default _ =>
    some ⟨request.subject, request.targetPath, reason, default, request.env, request.authorization⟩
  | .allow | .deny => none

def promptForPolicyDecisionWithAuthorization (prompt : Prompt) (cache : PromptDecisionCache)
    (key : Option PromptDecisionKey) (request : PolicyPromptRequest) :
    Decision × PromptDecisionCache :=
  match immediatePromptDecision prompt.requiresGraphicalSession cache key request.authorization
      request.env request.decision with
  | (some decision, cache) => (decision, cache)
  | (none, cache) =>
    match buildPolicyPromptRequest request with
    -- unreachable: decisions that are no prompts resolve immediately
    | none => (request.decision, cache)
    | some policyRequest =>
      match askPrompt prompt policyRequest with
      | .answer decision explicit =>
        (decision, cachePromptAnswer cache key request.authorization decision explicit)
      | .failure => (policyRequest.defaultDecision, cache)

def promptForPolicyDecision (prompt : Prompt) (cache : PromptDecisionCache)
    (key : Option PromptDecisionKey) (subject : ProcessSubject) (targetPath : Path) (env : Env)
    (decision : Decision) : Decision × PromptDecisionCache :=
  promptForPolicyDecisionWithAuthorization prompt cache key
    ⟨none, subject, targetPath, env, decision⟩

theorem get_insertDecision {cache : PromptDecisionCache} {key other : PromptDecisionKey}
    {decision d : Decision} (h : (cache.insertDecision key decision).get other = some d) :
    cache.get other = some d ∨ other = key ∧ d = decision := by
  have hinsert : ∀ e, (cache.decisions.insert key e).lookup other = some d →
      cache.get other = some d ∨ other = key ∧ d = e := by
    intro e he
    by_cases hkey : other = key
    · subst hkey
      rw [AList.lookup_insert] at he
      exact .inr ⟨rfl, (Option.some.inj he).symm⟩
    · rw [AList.lookup_insert_ne hkey] at he
      exact .inl he
  cases decision with
  | allow => exact hinsert _ h
  | deny => exact hinsert _ h
  | prompt => exact .inl h

theorem get_insertDecision_self {cache : PromptDecisionCache} {key : PromptDecisionKey}
    {decision : Decision} (h : decision = .allow ∨ decision = .deny) :
    (cache.insertDecision key decision).get key = some decision := by
  rcases h with rfl | rfl <;> exact AList.lookup_insert _

theorem get_insertDecision_ne {cache : PromptDecisionCache} {key other : PromptDecisionKey}
    (hne : other ≠ key) (decision : Decision) :
    (cache.insertDecision key decision).get other = cache.get other := by
  cases decision with
  | allow => exact AList.lookup_insert_ne hne
  | deny => exact AList.lookup_insert_ne hne
  | prompt => rfl

@[simp] theorem insertDecision_authorizations (cache : PromptDecisionCache)
    (key : PromptDecisionKey) (decision : Decision) :
    (cache.insertDecision key decision).ancestryAuthorizations = cache.ancestryAuthorizations := by
  cases decision <;> rfl

@[simp] theorem cachePromptDecision_authorizations (cache : PromptDecisionCache)
    (key : Option PromptDecisionKey) (decision : Decision) :
    (cachePromptDecision cache key decision).ancestryAuthorizations =
      cache.ancestryAuthorizations := by
  cases key with
  | none => rfl
  | some key => exact insertDecision_authorizations cache key decision

theorem get_cachePromptDecision {cache : PromptDecisionCache} {key : Option PromptDecisionKey}
    {other : PromptDecisionKey} {decision d : Decision}
    (h : (cachePromptDecision cache key decision).get other = some d) :
    cache.get other = some d ∨ key = some other ∧ d = decision := by
  cases key with
  | none => exact .inl h
  | some key =>
    rcases get_insertDecision h with h | ⟨rfl, rfl⟩
    · exact .inl h
    · exact .inr ⟨rfl, rfl⟩

theorem get_cachePromptDecision_ne {cache : PromptDecisionCache} {key : Option PromptDecisionKey}
    {other : PromptDecisionKey} (hne : key ≠ some other) (decision : Decision) :
    (cachePromptDecision cache key decision).get other = cache.get other := by
  cases key with
  | none => rfl
  | some key => exact get_insertDecision_ne (fun h => hne (congrArg some h.symm)) decision

/-- Recording an authorization leaves the answers alone. -/
@[simp] theorem get_cachePromptAnswer (cache : PromptDecisionCache)
    (key : Option PromptDecisionKey) (authorization : Option AncestryAuthorization)
    (decision : Decision) (explicit : Bool) (other : PromptDecisionKey) :
    (cachePromptAnswer cache key authorization decision explicit).get other =
      (cachePromptDecision cache key decision).get other := by
  unfold cachePromptAnswer
  cases authorization with
  | none => rfl
  | some authorization =>
    dsimp only
    split <;> rfl

/-- An authorization is recorded by an explicit allow, and by nothing else. -/
theorem mem_cachePromptAnswer {cache : PromptDecisionCache} {key : Option PromptDecisionKey}
    {authorization : Option AncestryAuthorization} {decision : Decision} {explicit : Bool}
    {granted : AncestryAuthorizationKey}
    (h : granted ∈
      (cachePromptAnswer cache key authorization decision explicit).ancestryAuthorizations) :
    granted ∈ cache.ancestryAuthorizations ∨
      explicit = true ∧ decision = .allow ∧ ∃ a, authorization = some a ∧ a.key = granted := by
  unfold cachePromptAnswer at h
  cases authorization with
  | none => exact .inl (by simpa using h)
  | some authorization =>
    dsimp only at h
    split at h
    · rename_i hexplicit
      have hmem : granted = authorization.key ∨ granted ∈ cache.ancestryAuthorizations := by
        simpa [PromptDecisionCache.insertAuthorization] using h
      rcases hmem with rfl | hmem
      · exact .inr ⟨hexplicit.1, hexplicit.2, authorization, rfl, rfl⟩
      · exact .inl hmem
    · exact .inl (by simpa using h)

theorem allowsAuthorization_iff {cache : PromptDecisionCache}
    {authorization : Option AncestryAuthorization} :
    cache.allowsAuthorization authorization = true ↔
      ∃ a, authorization = some a ∧ a.key ∈ cache.ancestryAuthorizations := by
  cases authorization <;> simp [PromptDecisionCache.allowsAuthorization]

/-- The four ways a prompt decision is settled or left to the prompt. -/
theorem immediatePromptDecision_cases (requiresGraphicalSession : Bool)
    (cache : PromptDecisionCache) (key : Option PromptDecisionKey)
    (authorization : Option AncestryAuthorization) (env : Env) (reason : DecisionReason)
    (default : Decision) (scope : Path) :
    let result := immediatePromptDecision requiresGraphicalSession cache key authorization env
      (.prompt reason default scope)
    (cache.allowsAuthorization authorization = true ∧ result = (some .allow, cache)) ∨
    cache.allowsAuthorization authorization = false ∧
      ((∃ d, cachedPromptDecision cache key = some d ∧ result = (some d, cache)) ∨
        cachedPromptDecision cache key = none ∧
          (result = (some default, cachePromptDecision cache key default) ∨
            result = (none, cache))) := by
  dsimp only [immediatePromptDecision]
  by_cases hauth : cache.allowsAuthorization authorization = true
  · exact .inl ⟨hauth, by rw [if_pos hauth]⟩
  · refine .inr ⟨Bool.eq_false_iff.mpr hauth, ?_⟩
    rw [if_neg hauth]
    cases hcached : cachedPromptDecision cache key with
    | some d => exact .inl ⟨d, rfl, rfl⟩
    | none =>
      refine .inr ⟨rfl, ?_⟩
      dsimp only
      split
      · exact .inl rfl
      · exact .inr rfl

/-- Only a prompt decision is left to the prompt, and then the cache is as before. -/
theorem immediatePromptDecision_none {requiresGraphicalSession : Bool}
    {cache : PromptDecisionCache} {key : Option PromptDecisionKey}
    {authorization : Option AncestryAuthorization} {env : Env} {decision : Decision}
    (h : (immediatePromptDecision requiresGraphicalSession cache key authorization env
      decision).1 = none) :
    (∃ reason default scope, decision = .prompt reason default scope) ∧
      immediatePromptDecision requiresGraphicalSession cache key authorization env decision =
        (none, cache) := by
  cases decision with
  | allow => cases h
  | deny => cases h
  | prompt reason default scope =>
    refine ⟨⟨reason, default, scope, rfl⟩, ?_⟩
    rcases immediatePromptDecision_cases requiresGraphicalSession cache key authorization env
      reason default scope with ⟨_, himm⟩ | ⟨_, ⟨_, _, himm⟩ | ⟨_, himm | himm⟩⟩
    · rw [himm] at h
      cases h
    · rw [himm] at h
      cases h
    · rw [himm] at h
      cases h
    · exact himm

end ConfigGuard
