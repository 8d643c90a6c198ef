import ConfigGuard.Guard.Refinement

/-!
# Provenance of allowed prompts

Every Allow written for an event whose policy decision is a prompt, traced back
through the cache to an answer of the worker or to a configured default.
-/

namespace ConfigGuard
open OsPath Transition

theorem allowsAuthorization_none (cache : PromptDecisionCache) :
    cache.allowsAuthorization none = false := rfl

/-- An event about a sensitive path has no authorization, so no grant settles it. -/
theorem sensitive_not_authorized {g : Guard} {event : GuardEvent} {evaluation : GuardEvaluation}
    {reason : DecisionReason} {default : Decision} {scope : Path}
    (hevaluation : evaluationOf g event = some evaluation)
    (hdecision : evaluation.policyDecision = .prompt reason default scope)
    (hsensitive : reason.isCrossOwner = false) (cache : PromptDecisionCache) :
    cache.allowsAuthorization evaluation.authorization = false := by
  cases hauthorization : evaluation.authorization with
  | none => exact allowsAuthorization_none cache
  | some a =>
    obtain ⟨reason', default', scope', hdecision', hcross⟩ :=
      (evaluation_prompt hevaluation).2 a hauthorization
    rw [hdecision] at hdecision'
    obtain ⟨rfl, -, -⟩ := Decision.prompt.inj hdecision'
    rw [hsensitive] at hcross
    cases hcross

/-- Every response is for an event handed to the guard. Where the policy's
decision on it is a prompt and the kernel is told to allow the access, there was
before the response an explicit Allow to a cross-owner prompt with the same
authorization key, or an Allow to a prompt with the same key, for an event
without a key to the very prompt it was queued on, or the default of the event
or of an earlier one with its key is Allow. Every authorization in the cache
goes back to an explicit Allow to a cross-owner prompt, and none settles an
event about a sensitive path. -/
theorem allow_provenance (g : Guard) (s : GuardState) (h : Reachable (guardRun g) anyStep s) :
    (∀ before after ev d ok, s.world.trace = before ++ .responded ev d ok :: after →
      ∃ e event, ev = some e ∧ s.world.handed[e]? = some event ∧
        ∀ evaluation reason default scope, evaluationOf g event = some evaluation →
          evaluation.policyDecision = .prompt reason default scope →
          responseCode d = fanAllow →
          (reason.isCrossOwner = true ∧ ∃ job a b, .answered job (.answer .allow true) ∈ before ∧
            evaluation.authorization = some a ∧ job.authorization = some b ∧ b.key = a.key ∧
            job.reason.isCrossOwner = true) ∨
          (∃ job d' explicit, .answered job (.answer d' explicit) ∈ before ∧
            responseCode d' = fanAllow ∧ job.key = evaluation.promptKey ∧
            (evaluation.promptKey = none → .queued (some e) job.id ∈ before)) ∨
          responseCode default = fanAllow ∨
          ∃ e' event' evaluation' key reason' default' scope', e' < e ∧
            s.world.handed[e']? = some event' ∧ evaluationOf g event' = some evaluation' ∧
            evaluation.promptKey = some key ∧ evaluation'.promptKey = some key ∧
            evaluation'.policyDecision = .prompt reason' default' scope' ∧
            responseCode default' = fanAllow) ∧
    (∀ granted ∈ s.coordinator.promptCache.ancestryAuthorizations, GrantedBy s.world granted) ∧
    ∀ event evaluation reason default scope, evaluationOf g event = some evaluation →
      evaluation.policyDecision = .prompt reason default scope → reason.isCrossOwner = false →
      s.coordinator.promptCache.allowsAuthorization evaluation.authorization = false := by
  have hconsistent := consistent_reachable h
  refine ⟨?_, hconsistent.origin.authorizations, ?_⟩
  · intro before after ev d ok htrace
    obtain ⟨e, event, hev, hevent, hgrounded⟩ :=
      justified_split (tidy_reachable h).justified htrace
    refine ⟨e, event, hev, hevent, ?_⟩
    intro evaluation reason default scope hevaluation hdecision hallow
    cases hgrounded with
    | unwatched target htarget hwatched =>
      -- the policy is asked about watched targets only
      obtain ⟨target', htarget', hwatched', _⟩ := evaluationOf_eq_some hevaluation
      obtain rfl := Except.ok.inj (htarget.symm.trans htarget')
      exact absurd (hwatched.symm.trans hwatched') Bool.false_ne_true
    | policy evaluation' hevaluation' hpolicy hfinal =>
      obtain rfl := Option.some.inj (hevaluation.symm.trans hevaluation')
      rw [hdecision] at hpolicy
      subst hpolicy
      rcases hfinal with hfinal | hfinal <;> cases hfinal
    | prompt evaluation' reason' default' scope' hevaluation' hdecision' hgrounded =>
      obtain rfl := Option.some.inj (hevaluation.symm.trans hevaluation')
      rw [hdecision] at hdecision'
      obtain ⟨rfl, rfl, rfl⟩ := Decision.prompt.inj hdecision'
      cases hgrounded with
      | granted job a b hanswered ha hb hkey =>
        obtain ⟨reason', default', scope', hprompt, hcross⟩ :=
          (evaluation_prompt hevaluation).2 a ha
        rw [hdecision] at hprompt
        obtain ⟨rfl, -, -⟩ := Decision.prompt.inj hprompt
        have hmem : Observation.answered job (.answer .allow true) ∈ s.world.trace := by
          rw [htrace]
          exact List.mem_append_left _ hanswered
        exact .inl ⟨hcross, job, a, b, hanswered, ha, hb, hkey,
          hconsistent.across.answered _ _ hmem b hb⟩
      | answered job explicit hanswered hkey hqueued =>
        exact .inr (.inl ⟨job, d, explicit, hanswered, hallow, hkey, hqueued⟩)
      | default hd =>
        subst hd
        exact .inr (.inr (.inl hallow))
      | defaultOfKey e' event' evaluation' key reason' scope' hearlier hhanded hevaluation' hkey
          hkey' hdecision' =>
        exact .inr (.inr (.inr ⟨e', event', evaluation', key, reason', d, scope', hearlier, hhanded,
          hevaluation', hkey, hkey', hdecision', hallow⟩))
  · intro event evaluation reason default scope hevaluation hdecision hsensitive
    exact sensitive_not_authorized hevaluation hdecision hsensitive _

/-- The prompt of `asked` is allowed, and the answer reaches the event. -/
def allowedMoves : List Move :=
  askedMoves ++ [.workerResolve (fun _ _ => true) (fun _ => .ok (.explicit .allow)), .workerNotify,
    .endBatch, .poll false, .readWake, .readWake, .tryRecv]

def allowed : GuardState := runFrom (guardRun piGuard) anyStep .initial allowedMoves

theorem allowed_reachable : Reachable (guardRun piGuard) anyStep allowed :=
  ⟨.initial, rfl, runFrom_steps (by decide)⟩

theorem allow_provenance_allowed : GrantedBy allowed.world (catUnder localPi).key :=
  (allow_provenance piGuard allowed allowed_reachable).2.1 _ (by decide)

end ConfigGuard
