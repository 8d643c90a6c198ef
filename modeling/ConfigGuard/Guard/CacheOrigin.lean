import ConfigGuard.Guard.Channels

/-!
# Where cached decisions come from

Everything in the guard's prompt cache goes back to an answer of the worker or
to the default of an event with the same key.
-/

namespace ConfigGuard
open OsPath Transition

/-- The decision `d` was an answer to a prompt with the key, or the default of
an event with it. -/
def Originates (g : Guard) (w : World) (key : PromptDecisionKey) (d : Decision) : Prop :=
  (∃ job explicit, .answered job (.answer d explicit) ∈ w.trace ∧ job.key = some key) ∨
  ∃ (e : EventId) (event : GuardEvent) (evaluation : GuardEvaluation) (reason : DecisionReason)
    (scope : Path), w.handed[e]? = some event ∧
    evaluationOf g event = some evaluation ∧ evaluation.promptKey = some key ∧
    evaluation.policyDecision = .prompt reason d scope

/-- An explicit Allow to a cross-owner prompt with the authorization key. -/
def GrantedBy (w : World) (granted : AncestryAuthorizationKey) : Prop :=
  ∃ job a, .answered job (.answer .allow true) ∈ w.trace ∧ job.authorization = some a ∧
    a.key = granted ∧ job.reason.isCrossOwner = true

structure CacheOrigin (g : Guard) (cache : PromptDecisionCache) (w : World) : Prop where
  decisions : ∀ key d, cache.get key = some d → Originates g w key d
  authorizations : ∀ granted ∈ cache.ancestryAuthorizations, GrantedBy w granted

theorem Originates.mono {g : Guard} {w w' : World} {key : PromptDecisionKey} {d : Decision}
    (h : Originates g w key d) (hhanded : w.handed <+: w'.handed) (htrace : w.trace ⊆ w'.trace) :
    Originates g w' key d := by
  rcases h with ⟨job, explicit, hanswered, hkey⟩ | ⟨e, event, evaluation, reason, scope, he, hrest⟩
  · exact .inl ⟨job, explicit, htrace hanswered, hkey⟩
  · refine .inr ⟨e, event, evaluation, reason, scope, ?_, hrest⟩
    obtain ⟨rest, hrest'⟩ := hhanded
    rw [← hrest', List.getElem?_append_left (List.getElem?_eq_some_iff.mp he).1]
    exact he

theorem CacheOrigin.mono {g : Guard} {cache : PromptDecisionCache} {w w' : World}
    (h : CacheOrigin g cache w) (hhanded : w.handed <+: w'.handed) (htrace : w.trace ⊆ w'.trace) :
    CacheOrigin g cache w' := by
  refine ⟨fun key d hget => (h.decisions key d hget).mono hhanded htrace, ?_⟩
  intro granted hgranted
  obtain ⟨job, a, hanswered, hrest⟩ := h.authorizations granted hgranted
  exact ⟨job, a, htrace hanswered, hrest⟩

/-- Every job that carries an authorization asks about an access across owners. -/
def AsksAcross (job : PromptJob) : Prop :=
  ∀ a, job.authorization = some a → job.reason.isCrossOwner = true

structure JobsAskAcross (s : GuardState) : Prop where
  jobs : ∀ job, job ∈ s.jobs ∨ s.worker = .asking job → AsksAcross job
  answered : ∀ job outcome, .answered job outcome ∈ s.world.trace → AsksAcross job

theorem jobsAskAcross_step {g : Guard} {s t : GuardState} {a : Move} (hs : JobsAskAcross s)
    (h : Stepped g s a t) : JobsAskAcross t := by
  obtain ⟨hjobs, hanswered⟩ := hs
  cases h with
  | control => exact ⟨hjobs, hanswered⟩
  | handled event events tail result c w _ _ hhandled =>
    exact ⟨hjobs, fun job outcome hmem => hanswered job outcome (hhandled.quiet.answers _ _ hmem)⟩
  | sent event events tail job prompt c w _ _ hhandled =>
    cases hhandled with
    | sending spec job _ hprepared _ _ hjob =>
      obtain ⟨_, evaluation, scope, hevaluation, hdecision, _, hauthorization⟩ :=
        prepare_prompt hprepared
      constructor
      · rintro other hother
        -- the new job asks across owners because its evaluation did
        by_cases hnew : other = job
        · subst hnew
          intro authorization hsome
          rw [hjob.2.2.1, hauthorization] at hsome
          obtain ⟨reason, default, scope', hprompt, hcross⟩ :=
            (evaluation_prompt hevaluation).2 _ hsome
          rw [hdecision] at hprompt
          rw [hjob.2.2.2.1, (Decision.prompt.inj hprompt).1]
          exact hcross
        · exact hjobs other (by simpa [hnew] using hother)
      · intro other outcome hmem
        rcases List.mem_append.mp hmem with hmem | hmem
        · exact hanswered other outcome hmem
        · cases List.mem_singleton.mp hmem
  | unsent event events tail job prompt c w error _ _ hhandled =>
    refine ⟨hjobs, fun job outcome hmem => hanswered job outcome ?_⟩
    exact hhandled.quiet.answers _ _ ((respondAndCloseEvent_quiet _ _ _ _ _).answers _ _ hmem)
  | recorded => exact ⟨hjobs, hanswered⟩
  | completed closed ready completion completions result c w main _ _ hcompleted =>
    exact ⟨hjobs,
      fun job outcome hmem => hanswered job outcome (hcompleted.quiet.answers _ _ hmem)⟩
  | fellBack =>
    exact ⟨hjobs,
      fun job outcome hmem => hanswered job outcome ((failPrompts_quiet _ _ _).answers _ _ hmem)⟩
  | dropped => exact ⟨hjobs, hanswered⟩
  | joined => exact ⟨hjobs, hanswered⟩
  | received job jobs hworker hjobs' =>
    refine ⟨?_, hanswered⟩
    rintro other (hother | hother)
    · exact hjobs other (.inl (by rw [hjobs']; exact List.mem_cons_of_mem _ hother))
    · obtain rfl := WorkerPc.asking.inj hother
      exact hjobs job (.inl (by rw [hjobs']; exact List.mem_cons_self))
  | resolved job current ask outcome _ hworker =>
    constructor
    · rintro other (hother | hother)
      · exact hjobs other (.inl hother)
      · cases hother
    · intro other outcome' hmem
      rcases List.mem_append.mp hmem with hmem | hmem
      · exact hanswered other outcome' hmem
      · obtain ⟨rfl, _⟩ := Observation.answered.inj (List.mem_singleton.mp hmem)
        exact hjobs _ (.inr hworker)
  | notified hworker =>
    refine ⟨?_, hanswered⟩
    rintro other (hother | hother)
    · exact hjobs other (.inl hother)
    · cases hother
  | stopped _ panicked answers hanswers =>
    constructor
    · rintro other (hother | hother) <;> cases hother
    · intro other outcome hmem
      rcases List.mem_append.mp hmem with hmem | hmem
      · exact hanswered other outcome hmem
      -- an answer of a worker that stops is for the job it was asking about
      · obtain ⟨job, outcome', hworker, heq⟩ := hanswers _ hmem
        obtain ⟨rfl, _⟩ := Observation.answered.inj heq
        exact hjobs _ (.inr hworker)

/-- The completed prompt is the one its completion's job was sent for. -/
theorem completion_answered {s : GuardState} (hs : Channels s) (hrecorded : s.main.recorded = none)
    {completion : PromptCompletion} (hmem : completion ∈ s.completions) {prompt : PendingPrompt}
    (hid : s.coordinator.pending.lookup completion.id = some prompt) :
    ∃ job, .answered job completion.outcome ∈ s.world.trace ∧ job.id = completion.id ∧
      SentFor job prompt := by
  obtain ⟨job, prompt', hanswered, hjob, hprompt', hsent⟩ := hs.completions completion hmem
  obtain rfl := Option.some.inj (hid.symm.trans (lookup_of_mem_prompts hrecorded hprompt'))
  exact ⟨job, hanswered, hjob, hsent⟩

theorem CacheOrigin.cacheAfter {g : Guard} {cache : PromptDecisionCache} {w : World}
    {outcome : PromptOutcome} {prompt : PendingPrompt} {job : PromptJob}
    (h : CacheOrigin g cache w) (hanswered : .answered job outcome ∈ w.trace)
    (hsent : SentFor job prompt) (hacross : AsksAcross job) :
    CacheOrigin g (outcome.cacheAfter cache prompt) w := by
  cases outcome with
  | failure => exact h
  | answer decision explicit =>
    constructor
    · intro key d hget
      rw [PromptOutcome.cacheAfter, get_cachePromptAnswer] at hget
      rcases get_cachePromptDecision hget with hget | ⟨hkey, rfl⟩
      · exact h.decisions key d hget
      · exact .inl ⟨job, explicit, hanswered, hsent.key.symm.trans hkey⟩
    · intro granted hgranted
      rcases mem_cachePromptAnswer hgranted with hgranted | ⟨rfl, rfl, a, ha, hkey⟩
      · exact h.authorizations granted hgranted
      · have hjob : job.authorization = some a := hsent.authorization.symm.trans ha
        exact ⟨job, a, hanswered, hjob, hkey, hacross a hjob⟩

theorem cacheOrigin_step {g : Guard} {s t : GuardState} {a : Move}
    (hchannels : s.main.live = true → Channels s) (hacross : JobsAskAcross s)
    (hs : CacheOrigin g s.coordinator.promptCache s.world) (h : Stepped g s a t) :
    CacheOrigin g t.coordinator.promptCache t.world := by
  cases h with
  | control => exact hs
  | handled event events tail result c w _ _ hhandled =>
    have hpre : s.world.handed <+: w.handed := by
      rw [hhandled.quiet.handed]
      exact List.prefix_append _ _
    have hold : CacheOrigin g s.coordinator.promptCache w :=
      hs.mono hpre hhandled.quiet.subset
    cases hhandled with
    | answered decision cache _ hprepared =>
      rcases prepare_respond hprepared with ⟨hc, _⟩ | ⟨evaluation, hevaluation, _, hc⟩
      · rw [show cache = s.coordinator.promptCache from congrArg (·.promptCache) hc]
        exact hold
      · rw [show cache = _ from congrArg (·.promptCache) hc]
        rcases immediateOf_cache g s.coordinator event evaluation with hcache |
          ⟨reason, default, scope, hdecision, hcache⟩
        · rw [hcache]
          exact hold
        · rw [hcache]
          constructor
          · -- the default of this event is cached under its key
            intro key d hget
            rcases get_cachePromptDecision hget with hget | ⟨hkey, rfl⟩
            · exact hold.decisions key d hget
            · refine .inr ⟨s.world.handed.length, event, evaluation, reason, scope, ?_,
                hevaluation, hkey, hdecision⟩
              rw [handed_respondAndCloseEvent]
              exact List.getElem?_concat_length
          · rw [cachePromptDecision_authorizations]
            exact hold.authorizations
    | _ => exact hold
  | sent event events tail job prompt c w _ _ hhandled =>
    cases hhandled with
    | sending => exact hs.mono (List.prefix_append _ _) (List.subset_append_left _ _)
  | unsent event events tail job prompt c w error _ _ hhandled =>
    have hquiet := hhandled.quiet.trans (respondAndCloseEvent_quiet g.io w event.fd event.mask
      job.defaultDecision)
    cases hhandled with
    | sending =>
      refine hs.mono ?_ hquiet.subset
      rw [hquiet.handed]
      exact List.prefix_append _ _
  | recorded => exact hs
  | completed closed ready completion completions result c w main hmain hcompletions hcompleted =>
    have hold : CacheOrigin g s.coordinator.promptCache w :=
      hs.mono (by rw [hcompleted.quiet.handed]) hcompleted.quiet.subset
    have hsubset := hcompleted.quiet.subset
    cases hcompleted with
    | unknown => exact hold
    | mismatched => exact hold
    | completed prompt hid =>
      obtain ⟨job, hanswered, _, hsent⟩ := completion_answered (hchannels (by rw [hmain]; rfl))
        (by rw [hmain]; rfl) (by rw [hcompletions]; exact List.mem_cons_self) hid
      exact hold.cacheAfter (hsubset hanswered) hsent (hacross.answered _ _ hanswered)
  | fellBack order error =>
    have hquiet := failPrompts_quiet g.io s.world (order.filterMap s.coordinator.pending.lookup)
    exact hs.mono (by rw [hquiet.handed]) hquiet.subset
  | dropped => exact hs
  | joined => exact hs
  | received => exact hs
  | resolved => exact hs.mono (List.prefix_rfl) (List.subset_append_left _ _)
  | notified => exact hs
  | stopped => exact hs.mono (List.prefix_rfl) (List.subset_append_left _ _)

end ConfigGuard
