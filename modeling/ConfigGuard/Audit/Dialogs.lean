import ConfigGuard.Audit.Observations
import ConfigGuard.Library.Chronicle
import ConfigGuard.Prompt.Stability

/-!
# The dialogs of the audit loop

What the user has decided, as a book with one answer for a key, and that the
cache of the audit loop is this book.
-/

namespace ConfigGuard
open OsPath Transition AppendOnly

namespace AuditRecord

/-- The final decision a record enters in the book for a key. A dialog that
failed enters none. -/
def settles (key : PromptDecisionKey) : AuditRecord → Option Decision
  | userDecided _ _ other _ _ decision dialog =>
    if other = some key ∧ dialog ≠ some .failure ∧ (decision = .allow ∨ decision = .deny) then
      some decision
    else none
  | decided _ _ _ | observed _ | wrote _ _ => none

/-- What the book holds for a key: the first decision that was entered. -/
def book (records : List AuditRecord) (key : PromptDecisionKey) : Option Decision :=
  records.findSome? (settles key)

/-- The backend needs a graphical session, and the environment has none. -/
def Headless (requiresGraphicalSession : Bool) (env : Env) : Prop :=
  requiresGraphicalSession = true ∧ hasGraphicalSession env = false

/-- What the user decides, given what has been decided before: what the book
holds, without a dialog; else the default, without one where no graphical session
is there for it or after one that failed; else the answer. -/
inductive Decides (requiresGraphicalSession : Bool) (before : List AuditRecord)
    (key : Option PromptDecisionKey) (env : Env) (default : Decision) :
    Decision → Option PromptOutcome → Prop
  | booked {decision : Decision} (h : key.bind (book before) = some decision) :
    Decides requiresGraphicalSession before key env default decision none
  | headless (h : key.bind (book before) = none)
    (hheadless : Headless requiresGraphicalSession env) :
    Decides requiresGraphicalSession before key env default default none
  | failed (h : key.bind (book before) = none)
    (hsession : ¬ Headless requiresGraphicalSession env) :
    Decides requiresGraphicalSession before key env default default (some .failure)
  | answered {decision : Decision} {explicit : Bool} (h : key.bind (book before) = none)
    (hsession : ¬ Headless requiresGraphicalSession env) :
    Decides requiresGraphicalSession before key env default decision
      (some (.answer decision explicit))

/-- The user is asked about a decision of the policy that is a prompt, under a key
with its reason, in the mode with prompts. -/
def Fits (setup : AuditSetup) (before : List AuditRecord) : AuditRecord → Prop
  | userDecided _ _ key env policyDecision userDecision dialog =>
    ∃ policy requires reason default scope, setup.mode = .auditPrompt policy requires ∧
      policyDecision = .prompt reason default scope ∧
      (∀ k, key = some k → k.reason = reason) ∧
      Decides requires before key env default userDecision dialog
  | decided _ _ _ | observed _ | wrote _ _ => True

end AuditRecord

namespace AuditRuntime

/-- The cache is the book of what was decided, and holds no grant. -/
structure Booked (setup : AuditSetup) (s : AuditRuntime) : Prop where
  records : Chronicle (AuditRecord.Fits setup) s.records
  book : ∀ key, s.promptCache.get key = AuditRecord.book s.records key
  grants : s.promptCache.ancestryAuthorizations = ∅

section

variable {setup : AuditSetup} {s : AuditRuntime}

/-- A record that is no decision of the user's enters nothing. -/
theorem Booked.record (hs : Booked setup s) {r : AuditRecord}
    (hfits : AuditRecord.Fits setup s.records r)
    (hsettles : ∀ key, AuditRecord.settles key r = none) : Booked setup (s.record r) where
  records := .snoc hs.records hfits
  book key := by
    have hrecords : (s.record r).records = s.records ++ [r] := rfl
    rw [hrecords, AuditRecord.book, findSome?_concat, hsettles key, Option.or_none]
    exact hs.book key
  grants := hs.grants

theorem booked_observe (hs : Booked setup s) (a : Access) :
    Booked setup (s.observe setup a).2 := by
  unfold observe
  split
  · exact hs
  · dsimp only
    have htold : ∀ learner, Booked setup ({ s with learner := learner }.record (.observed a)) :=
      fun learner => Booked.record (s := { s with learner := learner })
        ⟨hs.records, hs.book, hs.grants⟩ trivial fun _ => rfl
    split
    · exact htold _
    · unfold writeOutput
      split
      · exact (htold _).record trivial fun _ => rfl
      · exact htold _

/-- Without an authorization a prompt decision is settled by the cached answer, by
the default or by the prompt. -/
theorem promptForPolicyDecision_cases (prompt : Prompt) (cache : PromptDecisionCache)
    (key : Option PromptDecisionKey) (subject : ProcessSubject) (target : Path) (env : Env)
    (reason : DecisionReason) (default : Decision) (scope : Path) :
    let immediate := immediatePromptDecision prompt.requiresGraphicalSession cache key none env
      (.prompt reason default scope)
    let result := promptForPolicyDecision prompt cache key subject target env
      (.prompt reason default scope)
    (∃ d, cachedPromptDecision cache key = some d ∧ immediate = (some d, cache) ∧
        result = (d, cache)) ∨
      cachedPromptDecision cache key = none ∧
        (AuditRecord.Headless prompt.requiresGraphicalSession env ∧
            (∃ cache', immediate = (some default, cache')) ∧
            result = (default, cachePromptDecision cache key default) ∨
          ¬ AuditRecord.Headless prompt.requiresGraphicalSession env ∧ immediate = (none, cache) ∧
            ((∃ d explicit, askPrompt prompt ⟨subject, target, reason, default, env, none⟩ =
                .answer d explicit ∧ result = (d, cachePromptDecision cache key d)) ∨
              askPrompt prompt ⟨subject, target, reason, default, env, none⟩ = .failure ∧
                result = (default, cache))) := by
  dsimp only [promptForPolicyDecision, promptForPolicyDecisionWithAuthorization,
    buildPolicyPromptRequest, immediatePromptDecision]
  have hgrant : ¬ cache.allowsAuthorization none = true := Bool.false_ne_true
  rw [if_neg hgrant]
  cases cachedPromptDecision cache key with
  | some d => exact .inl ⟨d, rfl, rfl, rfl⟩
  | none =>
    refine .inr ⟨rfl, ?_⟩
    dsimp only
    have hheadless : (prompt.requiresGraphicalSession && !hasGraphicalSession env) = true ↔
        AuditRecord.Headless prompt.requiresGraphicalSession env := by
      rw [Bool.and_eq_true, Bool.not_eq_true', AuditRecord.Headless]
    split
    · rename_i hnone
      exact .inl ⟨hheadless.mp hnone, ⟨_, rfl⟩, rfl⟩
    · rename_i hsession
      refine .inr ⟨hheadless.not.mp hsession, rfl, ?_⟩
      cases askPrompt prompt ⟨subject, target, reason, default, env, none⟩ with
      | answer d explicit => exact .inl ⟨d, explicit, rfl, rfl⟩
      | failure => exact .inr ⟨rfl, rfl⟩

/-- What is cached is what is entered in the book. -/
theorem get_cachePromptDecision_book {cache : PromptDecisionCache} {records : List AuditRecord}
    (hbook : ∀ k, cache.get k = AuditRecord.book records k) {key : Option PromptDecisionKey}
    (hnone : cachedPromptDecision cache key = none) (pid : Int) (a : Access)
    (env : Env) (policyDecision d : Decision) {dialog : Option PromptOutcome}
    (hdialog : dialog ≠ some .failure) (k : PromptDecisionKey) :
    (cachePromptDecision cache key d).get k =
      AuditRecord.book (records ++ [.userDecided pid a key env policyDecision d dialog]) k := by
  rw [AuditRecord.book, findSome?_concat, ← AuditRecord.book, ← hbook k]
  by_cases hkey : key = some k
  · subst hkey
    have hget : cache.get k = none := hnone
    rw [hget, Option.none_or]
    by_cases hfinal : d = .allow ∨ d = .deny
    · have hself : (cache.insertDecision k d).get k = some d := get_insertDecision_self hfinal
      rw [AuditRecord.settles, if_pos ⟨rfl, hdialog, hfinal⟩]
      exact hself
    · rw [AuditRecord.settles, if_neg (fun h => hfinal h.2.2)]
      cases d with
      | allow => exact absurd (.inl rfl) hfinal
      | deny => exact absurd (.inr rfl) hfinal
      | prompt => exact hget
  · rw [AuditRecord.settles, if_neg (fun h => hkey h.1), Option.or_none]
    exact get_cachePromptDecision_ne hkey d

theorem cachedPromptDecision_book {cache : PromptDecisionCache} {records : List AuditRecord}
    (hbook : ∀ k, cache.get k = AuditRecord.book records k) (key : Option PromptDecisionKey) :
    cachedPromptDecision cache key = key.bind (AuditRecord.book records) := by
  cases key with
  | none => rfl
  | some k => exact hbook k

theorem booked_promptOnPolicyViolation (hs : Booked setup s) {policy : AccessPolicy}
    {requires : Bool} (hmode : setup.mode = .auditPrompt policy requires)
    (askAnswer : PromptRequest → Except String PromptAnswer) (pid : Int)
    (process : ProcessIdentity) (a : Access) (env : Env) (decision : Decision) :
    Booked setup (s.promptOnPolicyViolation ⟨askAnswer, requires⟩ pid process a env decision) := by
  cases decision with
  | allow => exact hs
  | deny => exact hs
  | prompt reason default scope =>
    let key := PromptDecisionKey.new process a.access (.prompt reason default scope)
    have hreason : ∀ k, key = some k → k.reason = reason := by
      intro k hk
      obtain ⟨_, _, h⟩ := PromptDecisionKey.new_reason hk
      exact (Decision.prompt.inj h).1.symm
    have hfits : ∀ {d dialog}, AuditRecord.Decides requires s.records key env default d dialog →
        AuditRecord.Fits setup s.records
          (.userDecided pid a key env (.prompt reason default scope) d dialog) := fun h =>
      ⟨policy, requires, reason, default, scope, hmode, rfl, hreason, h⟩
    rw [promptOnPolicyViolation, dialog]
    dsimp only
    rcases promptForPolicyDecision_cases ⟨askAnswer, requires⟩ s.promptCache key a.subject a.target
      env reason default scope with ⟨d, hcached, himmediate, hresult⟩ |
        ⟨hnone, ⟨hheadless, ⟨cache', himmediate⟩, hresult⟩ |
          ⟨hsession, himmediate, ⟨d, explicit, hanswer, hresult⟩ | ⟨hfailed, hresult⟩⟩⟩
    · rw [hresult, himmediate]
      rw [cachedPromptDecision_book hs.book] at hcached
      refine ⟨.snoc hs.records (hfits (.booked hcached)), ?_, hs.grants⟩
      intro k
      show s.promptCache.get k = AuditRecord.book (s.records ++ [_]) k
      rw [AuditRecord.book, findSome?_concat, ← AuditRecord.book, ← hs.book k]
      by_cases hkey : key = some k
      · rw [hkey, Option.bind_some] at hcached
        rw [hs.book k, hcached, Option.some_or]
      · rw [AuditRecord.settles, if_neg (fun h => hkey h.1), Option.or_none]
    · rw [hresult, himmediate]
      have hempty := hnone
      rw [cachedPromptDecision_book hs.book] at hempty
      exact ⟨.snoc hs.records (hfits (.headless hempty hheadless)),
        get_cachePromptDecision_book hs.book hnone _ _ _ _ _ nofun,
        (cachePromptDecision_authorizations _ _ _).trans hs.grants⟩
    · rw [hresult, himmediate]
      dsimp only [buildPolicyPromptRequest, Option.map]
      rw [hanswer]
      have hempty := hnone
      rw [cachedPromptDecision_book hs.book] at hempty
      exact ⟨.snoc hs.records (hfits (.answered hempty hsession)),
        get_cachePromptDecision_book hs.book hnone _ _ _ _ _ nofun,
        (cachePromptDecision_authorizations _ _ _).trans hs.grants⟩
    · rw [hresult, himmediate]
      dsimp only [buildPolicyPromptRequest, Option.map]
      rw [hfailed]
      have hempty := hnone
      rw [cachedPromptDecision_book hs.book] at hempty
      refine ⟨.snoc hs.records (hfits (.failed hempty hsession)), ?_, hs.grants⟩
      intro k
      show s.promptCache.get k = AuditRecord.book (s.records ++ [_]) k
      rw [AuditRecord.book, findSome?_concat, ← AuditRecord.book, ← hs.book k,
        AuditRecord.settles, if_neg (fun h => h.2.1 rfl), Option.or_none]

theorem booked_evaluate (hs : Booked setup s) (event : AuditDelivery) (process : ProcessIdentity)
    (a : Access) : Booked setup (evaluate setup event process a s).2 := by
  unfold evaluate
  cases hmode : setup.mode with
  | audit policy =>
    dsimp only
    unfold decideEvent
    split
    · exact booked_observe hs a
    · split
      · exact hs
      · exact booked_observe (hs.record (r := .decided _ _ _) trivial fun _ => rfl) a
  | auditPrompt policy requires =>
    dsimp only
    unfold auditPromptEvent
    split
    · exact hs
    · exact booked_observe
        (booked_promptOnPolicyViolation (hs.record (r := .decided _ _ _) trivial fun _ => rfl)
          hmode _ _ _ _ _ _) a

theorem booked_decideAuditMode (hs : Booked setup s) (event : AuditDelivery) (target : Path)
    (object : AuditObjectId) : Booked setup (s.decideAuditMode setup event target object).2 := by
  unfold decideAuditMode
  split
  · exact ⟨hs.records, hs.book, hs.grants⟩
  · dsimp only
    refine evaluateAll_keeps (I := Booked setup) ?_ ⟨hs.records, hs.book, hs.grants⟩
    exact fun a _ t ht => booked_evaluate ht event _ a

theorem booked_evaluateEvent (hs : Booked setup s) (event : AuditDelivery) (target : Path) :
    Booked setup (evaluateEvent setup event target s).2 := by
  unfold evaluateEvent
  split
  · split
    · exact hs
    · rename_i object _
      have hdecided := booked_decideAuditMode hs event target object
      split
      · rename_i heq
        rw [heq] at hdecided
        exact hdecided
      · rename_i heq
        rw [heq] at hdecided
        exact ⟨hdecided.records, hdecided.book, hdecided.grants⟩
  · exact ⟨hs.records, hs.book, hs.grants⟩

theorem booked_handleEvent (hs : Booked setup s) (event : AuditDelivery) :
    Booked setup (s.handleEvent setup event).2 := by
  have hdescriptor : Booked setup (s.handleEventWithDescriptor setup event).2 := by
    unfold handleEventWithDescriptor
    split
    · exact hs
    · rename_i target _
      split
      · dsimp only
        split
        · exact ⟨hs.records, hs.book, hs.grants⟩
        · exact booked_evaluateEvent (s := { s with
            caches := s.caches.recordExecIdentity Path.display (event.execEvent target) })
            ⟨hs.records, hs.book, hs.grants⟩ event target
      · exact booked_evaluateEvent hs event target
  unfold handleEvent
  split
  · exact hs
  · exact ⟨hdescriptor.records, hdescriptor.book, hdescriptor.grants⟩

end

end AuditRuntime

namespace AuditSession

theorem booked_reachable {setup : AuditSetup} {learner : Option AuditLearner} {s : AuditSession}
    (h : Reachable (auditLoop setup learner) anyStep s) :
    AuditRuntime.Booked setup s.runtime := by
  refine Reachable.invariant (I := fun s => AuditRuntime.Booked setup s.runtime) ?_ ?_ h
  · rintro s rfl
    exact ⟨.nil, fun _ => rfl, rfl⟩
  · intro s a t hs _ hst
    rcases step_stepped hst with ⟨-, hruntime, -⟩ | ⟨event, -, -, hruntime, -, -⟩
    · rw [hruntime]
      exact hs
    · rw [hruntime]
      exact AuditRuntime.booked_handleEvent (s := s.runtime.handOver event)
        ⟨hs.records, hs.book, hs.grants⟩ event

end AuditSession

/-- What has been entered for a key is what is decided for it later, without a
dialog. -/
theorem AuditRecord.Decides.of_booked {requires : Bool} {before : List AuditRecord}
    {k : PromptDecisionKey} {env : Env} {default d decision : Decision}
    {dialog : Option PromptOutcome}
    (h : Decides requires before (some k) env default decision dialog)
    (hbook : book before k = some d) : dialog = none ∧ decision = d := by
  cases h with
  | booked h => exact ⟨rfl, Option.some.inj (h.symm.trans hbook)⟩
  | headless h => cases hbook.symm.trans h
  | failed h => cases hbook.symm.trans h
  | answered h => cases hbook.symm.trans h

/-- No run of the audit loop leads to a grant. Each decision of the user is the one
entered for its key before, without a dialog, else the default or the answer of a
dialog, which is not shown where a graphical session is needed and missing. Once a
final decision is entered for a key there is no dialog for it any more, and the
decision stays. -/
theorem audit_prompt_asks_once (setup : AuditSetup) (learner : Option AuditLearner)
    (s : AuditSession) (h : Reachable (auditLoop setup learner) anyStep s) :
    s.runtime.promptCache.ancestryAuthorizations = ∅ ∧
    ∀ before after pid a key env policyDecision decision dialog,
      s.runtime.records =
        before ++ .userDecided pid a key env policyDecision decision dialog :: after →
      (∃ policy requires reason default scope, setup.mode = .auditPrompt policy requires ∧
        policyDecision = .prompt reason default scope ∧ (∀ k, key = some k → k.reason = reason) ∧
        AuditRecord.Decides requires before key env default decision dialog) ∧
      ∀ k, key = some k → dialog ≠ some .failure → decision = .allow ∨ decision = .deny →
        ∀ pid' a' env' policyDecision' decision' dialog',
          .userDecided pid' a' (some k) env' policyDecision' decision' dialog' ∈ after →
            dialog' = none ∧ decision' = decision := by
  have hs : AuditRuntime.Booked setup s.runtime := AuditSession.booked_reachable h
  refine ⟨hs.grants, ?_⟩
  intro before after pid a key env policyDecision decision dialog hrecords
  have hchronicle := hs.records
  rw [hrecords] at hchronicle
  obtain ⟨policy, requires, reason, default, scope, hmode, hprompt, hreason, hdecides⟩ :=
    hchronicle.fits
  refine ⟨⟨policy, requires, reason, default, scope, hmode, hprompt, hreason, hdecides⟩, ?_⟩
  rintro k rfl hdialog hfinal pid' a' env' policyDecision' decision' dialog' hmem
  obtain ⟨mid, rest, rfl⟩ := List.append_of_mem hmem
  -- the first of the two records enters the decision, unless it was there before
  have hentered : AuditRecord.book
      (before ++ [.userDecided pid a (some k) env policyDecision decision dialog]) k =
        some decision := by
    rw [AuditRecord.book, findSome?_concat, ← AuditRecord.book]
    cases hbook : AuditRecord.book before k with
    | some d => rw [(hdecides.of_booked hbook).2, Option.some_or]
    | none => rw [AuditRecord.settles, if_pos ⟨rfl, hdialog, hfinal⟩, Option.none_or]
  have hbefore : AuditRecord.book
      (before ++ .userDecided pid a (some k) env policyDecision decision dialog :: mid) k =
        some decision := by
    rw [List.append_cons]
    exact findSome?_append_of_some hentered mid
  rw [← List.cons_append, ← List.append_assoc] at hchronicle
  obtain ⟨_, _, _, _, _, _, _, -, hlater⟩ := hchronicle.fits
  exact hlater.of_booked hbefore

/-- The `cat` opens and closes the file twice; the user is asked about the first. -/
def catAskedTwice : AuditSession :=
  runFrom (auditLoop piAudit none) anyStep (.start none)
    [.readBatch [catEvent (fanOpen ||| fanCloseNowrite) 5, catEvent (fanOpen ||| fanCloseNowrite) 5]
      (.ok ()), .handle, .handle]

def piRead : Access := ⟨(catGeneration 42 100).subject, piSession, .read⟩

def catPrompt : Decision := .prompt .crossOwnerRead .allow (Path.ofString "/home/u/.pi")

/-- What is recorded up to the second decision of the user's. -/
def catAskedBefore : List AuditRecord :=
  [.decided 42 piRead catPrompt,
    .userDecided 42 piRead (some catGenerationKey) ∅ catPrompt .deny
      (some (.answer .deny true)),
    .decided 42 piRead catPrompt]

theorem audit_prompt_asks_once_cat :
    catAskedTwice.runtime.promptCache.ancestryAuthorizations = ∅ ∧
    ∃ policy requires reason default scope, piAudit.mode = .auditPrompt policy requires ∧
      catPrompt = .prompt reason default scope ∧
      AuditRecord.Decides requires catAskedBefore (some catGenerationKey) ∅ default .deny none :=
  let ⟨hgrants, hdecided⟩ :=
    audit_prompt_asks_once piAudit none catAskedTwice ⟨_, rfl, runFrom_steps (by decide)⟩
  let ⟨⟨policy, requires, reason, default, scope, hmode, hprompt, _, hdecides⟩, _⟩ :=
    hdecided catAskedBefore [] 42 piRead (some catGenerationKey) ∅ catPrompt .deny none rfl
  ⟨hgrants, policy, requires, reason, default, scope, hmode, hprompt, hdecides⟩

end ConfigGuard
