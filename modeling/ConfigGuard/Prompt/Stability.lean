import ConfigGuard.Prompt.Resolution

/-!
# How long an explicit answer lasts

Runs of the synchronous resolver over one cache: the answer given for a process
generation is kept, but an ancestry grant is looked up before it.
-/

namespace ConfigGuard
open OsPath Transition

/-- One call of the resolver. -/
structure Resolution where
  prompt : Prompt
  key : Option PromptDecisionKey
  request : PolicyPromptRequest

def resolve (cache : PromptDecisionCache) (r : Resolution) : Decision × PromptDecisionCache :=
  promptForPolicyDecisionWithAuthorization r.prompt cache r.key r.request

def resolutions : System PromptDecisionCache Resolution where
  init cache := cache = .empty
  step cache r := some (resolve cache r).2

def immediateFor (cache : PromptDecisionCache) (r : Resolution) :
    Option Decision × PromptDecisionCache :=
  immediatePromptDecision r.prompt.requiresGraphicalSession cache r.key r.request.authorization
    r.request.env r.request.decision

/-- The prompt is put to the backend, which answers explicitly. -/
structure AnsweredExplicitly (cache : PromptDecisionCache) (r : Resolution) (d : Decision) :
    Prop where
  notImmediate : (immediateFor cache r).1 = none
  answered : ∃ request, buildPolicyPromptRequest r.request = some request ∧
    r.prompt.askAnswer request = .ok (.explicit d)

/-- A resolution keeps every cached answer: what it caches itself had none. -/
theorem resolve_retains {cache : PromptDecisionCache} {key : PromptDecisionKey} {d : Decision}
    (h : cache.get key = some d) (r : Resolution) : (resolve cache r).2.get key = some d := by
  have hkeep : ∀ e, cachedPromptDecision cache r.key = none →
      (cachePromptDecision cache r.key e).get key = some d := by
    intro e hnone
    have hne : r.key ≠ some key := by
      intro hk
      rw [hk] at hnone
      exact absurd (hnone.symm.trans h) (by simp)
    rw [get_cachePromptDecision_ne hne, h]
  unfold resolve promptForPolicyDecisionWithAuthorization
  cases hdecision : r.request.decision with
  | allow => exact h
  | deny => exact h
  | prompt reason default scope =>
    rcases immediatePromptDecision_cases r.prompt.requiresGraphicalSession cache r.key
      r.request.authorization r.request.env reason default scope with
      ⟨_, himm⟩ | ⟨_, ⟨d', _, himm⟩ | ⟨hnone, himm | himm⟩⟩
    · rw [himm]
      exact h
    · rw [himm]
      exact h
    · rw [himm]
      exact hkeep default hnone
    · rw [himm]
      simp only [buildPolicyPromptRequest, hdecision]
      cases askPrompt r.prompt _ with
      | failure => exact h
      | answer decision explicit =>
        dsimp only
        rw [get_cachePromptAnswer]
        exact hkeep decision hnone

/-- An explicit answer is cached for the process generation it was asked for. -/
theorem resolve_caches {cache : PromptDecisionCache} {r : Resolution} {key : PromptDecisionKey}
    {d : Decision} (hkey : r.key = some key) (hd : d = .allow ∨ d = .deny)
    (h : AnsweredExplicitly cache r d) : (resolve cache r).2.get key = some d := by
  obtain ⟨hnone, request, hrequest, hanswer⟩ := h
  have himm : immediatePromptDecision r.prompt.requiresGraphicalSession cache r.key
      r.request.authorization r.request.env r.request.decision = (none, cache) :=
    (immediatePromptDecision_none hnone).2
  rw [resolve, promptForPolicyDecisionWithAuthorization, himm]
  simp only [hrequest, askPrompt, hanswer, PromptAnswer.intoDecision]
  rw [get_cachePromptAnswer, hkey]
  exact get_insertDecision_self hd

theorem steps_retain {cache later : PromptDecisionCache} {key : PromptDecisionKey} {d : Decision}
    (h : cache.get key = some d) (hsteps : Steps resolutions anyStep cache later) :
    later.get key = some d := by
  refine hsteps.keeps (I := fun c => c.get key = some d) ?_ h
  intro c r c' hc _ hstep
  rw [← Option.some.inj hstep]
  exact resolve_retains hc r

/-- Once cached, an answer decides every prompt decision that no grant covers. -/
theorem resolve_of_cached {cache : PromptDecisionCache} {r : Resolution}
    {key : PromptDecisionKey} {d : Decision} (h : cache.get key = some d) (hkey : r.key = some key)
    (hprompt : ∃ reason default scope, r.request.decision = .prompt reason default scope) :
    (resolve cache r).1 =
      if cache.allowsAuthorization r.request.authorization then .allow else d := by
  obtain ⟨reason, default, scope, hdecision⟩ := hprompt
  have hcached : cachedPromptDecision cache (some key) = some d := h
  have himm : immediatePromptDecision r.prompt.requiresGraphicalSession cache (some key)
      r.request.authorization r.request.env (.prompt reason default scope) =
        (some (if cache.allowsAuthorization r.request.authorization then .allow else d),
          cache) := by
    by_cases hauth : cache.allowsAuthorization r.request.authorization = true
    · simp [immediatePromptDecision, hauth]
    · simp [immediatePromptDecision, hauth, hcached]
  rw [resolve, promptForPolicyDecisionWithAuthorization, hdecision, hkey, himm]

/-- After an explicit answer for a process generation, a later access of that
generation gets the answer exactly if it was Allow or no grant covers it then. -/
theorem explicitAnswer_stable_iff (cache : PromptDecisionCache) (asked : Resolution)
    (key : PromptDecisionKey) (d : Decision) (hkey : asked.key = some key) (hd : d = .allow ∨ d = .deny)
    (hanswer : AnsweredExplicitly cache asked d) (later : PromptDecisionCache)
    (hlater : Steps resolutions anyStep (resolve cache asked).2 later) (again : Resolution)
    (hagain : again.key = some key)
    (hprompt : ∃ reason default scope, again.request.decision = .prompt reason default scope) :
    (resolve later again).1 = d ↔
      d = .allow ∨ later.allowsAuthorization again.request.authorization = false := by
  have hget : later.get key = some d := steps_retain (resolve_caches hkey hd hanswer) hlater
  rw [resolve_of_cached hget hagain hprompt]
  rcases hd with rfl | rfl
  · simp
  · simp

/-- The resolution of a read of pi's files by a process, as the guard sets it up. -/
def readOfPi (process : ProcessIdentity) (answer : PromptAnswer) : Resolution :=
  let decision := piPolicy.decide process.subject piSession .read
  { prompt := ⟨fun _ => .ok answer, false⟩
    key := PromptDecisionKey.new process .read decision
    request :=
      { authorization := authorizationFor piPolicy.toAccessPolicy process decision
        subject := process.subject
        targetPath := piSession
        env := ∅
        decision := decision } }

def deniedRead : Resolution := readOfPi (catGeneration 42 100) (.explicit .deny)

def grantedRead : Resolution := readOfPi (catGeneration 43 200) (.explicit .allow)

def catGenerationKey : PromptDecisionKey where
  pid := 42
  startTimeTicks := 100
  executable := (Path.ofString "/usr/bin/cat").components
  access := .read
  reason := .crossOwnerRead

theorem deniedRead_answered : AnsweredExplicitly .empty deniedRead .deny :=
  ⟨by decide, _, rfl, rfl⟩

theorem deniedRead_decision :
    ∃ reason default scope, deniedRead.request.decision = .prompt reason default scope :=
  ⟨.crossOwnerRead, .allow, Path.ofString "/home/u/.pi", by decide⟩

/-- Asked again at once, the denied generation is denied again. -/
theorem explicitAnswer_stable_denied :
    (resolve (resolve .empty deniedRead).2 deniedRead).1 = .deny :=
  (explicitAnswer_stable_iff .empty deniedRead catGenerationKey .deny (by decide)
    (.inr rfl) deniedRead_answered _ (.refl _) deniedRead (by decide) deniedRead_decision).mpr
    (.inr (by decide))

/-- The denied generation is allowed once another one of the same helper and
owner has been granted. -/
theorem grant_overrides_denial :
    ¬ ∀ (cache : PromptDecisionCache) (asked : Resolution) (key : PromptDecisionKey)
      (d : Decision) (later : PromptDecisionCache) (again : Resolution),
      Reachable resolutions anyStep cache → asked.key = some key → d = .allow ∨ d = .deny →
      AnsweredExplicitly cache asked d →
      Steps resolutions anyStep (resolve cache asked).2 later → again.key = some key →
      (∃ reason default scope, again.request.decision = .prompt reason default scope) →
      (resolve later again).1 = d := by
  intro h
  have hdeny := h .empty deniedRead catGenerationKey .deny
    (resolve (resolve .empty deniedRead).2 grantedRead).2 deniedRead (.of_init rfl) (by decide)
    (.inr rfl) deniedRead_answered (Steps.single trivial rfl) (by decide) deniedRead_decision
  exact absurd hdeny (by decide)

end ConfigGuard
