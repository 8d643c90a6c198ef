import ConfigGuard.Guard.Origins
import ConfigGuard.Guard.StalePrompt
import ConfigGuard.Guard.StrictDenial
import ConfigGuard.Prompt.Waiting

/-!
# Decisions that a user makes

Runs of the guard that `run_guard` starts, with a static policy and one of the
backends. Wherever such a run departs from the configured default, the user of a
dialog has chosen so.
-/

namespace ConfigGuard
open OsPath Transition

/-- The decision that the exit status of a command stands for. -/
def chosenByExit (code : Int) : Option Decision :=
  if code = 0 then some .allow else if code = 1 then some .deny else none

def AuthResponse.chosen : AuthResponse → Option Decision
  | success => some .allow
  | denied | authFailed => some .deny
  | unknownTarget | error => none

namespace PromptBackend

/-- The user of the dialog for the request chooses the decision: authd says so, or the
exit status of the command that a poll before the deadline finds. -/
def Chooses (backend : PromptBackend) (around : Surroundings) (request : PromptRequest)
    (d : Decision) : Prop :=
  match backend with
  | nonInteractive _ => False
  | authd socketPath _ => ∃ response,
    callAuthd socketPath (around.exchange socketPath (.exec (authRequest request))) = .ok response ∧
      response.chosen = some d
  | command path timeout => ∃ child n code, around.spawn path (commandArgs request) = .ok child ∧
    child.reading (n + 1) < child.reading 0 + timeout ∧
    (∀ i < n, child.tryWait i = .ok none) ∧ child.tryWait n = .ok (some ⟨some code⟩) ∧
    chosenByExit code = some d

variable {backend : PromptBackend} {around : Surroundings} {request : PromptRequest} {d : Decision}

theorem Chooses.final (h : backend.Chooses around request d) : d = .allow ∨ d = .deny := by
  cases backend with
  | nonInteractive timeout => cases h
  | authd socketPath timeout =>
    obtain ⟨response, -, hchosen⟩ := h
    cases response <;> cases hchosen <;> simp
  | command path timeout =>
    obtain ⟨child, n, code, -, -, -, -, hchosen⟩ := h
    rw [chosenByExit] at hchosen
    split at hchosen
    · exact .inl (Option.some.inj hchosen).symm
    · split at hchosen
      · exact .inr (Option.some.inj hchosen).symm
      · cases hchosen

theorem authdAnswer_explicit {response : Except AuthdError AuthResponse} {default : Decision}
    (h : authdAnswer response default = .explicit d) :
    ∃ r, response = .ok r ∧ r.chosen = some d := by
  cases response with
  | error error => cases h
  | ok r => cases r <;> cases h <;> exact ⟨_, rfl, rfl⟩

theorem authdAnswer_default {response : Except AuthdError AuthResponse} {default : Decision}
    (h : authdAnswer response default = .default d) : d = default := by
  cases response with
  | error error => exact (PromptAnswer.default.inj h).symm
  | ok r => cases r <;> cases h <;> rfl

/-- An explicit answer is the user's choice. -/
theorem chooses_of_explicit (h : backend.askAnswer around request = .ok (.explicit d)) :
    backend.Chooses around request d := by
  cases backend with
  | nonInteractive timeout => cases h
  | authd socketPath timeout => exact authdAnswer_explicit (Except.ok.inj h)
  | command path timeout =>
    rw [askAnswer] at h
    split at h
    · cases h
    · rename_i child hspawn
      obtain ⟨m, hstops⟩ := child.waitLoop_stops (child.reading 0 + timeout) request.defaultDecision
      obtain ⟨n, code, hearly, hwaiting, hexited, hcode⟩ := (hstops.explicit_iff d).mp h
      refine ⟨child, n, code, hspawn, hearly, hwaiting, hexited, ?_⟩
      rcases hcode with ⟨rfl, rfl⟩ | ⟨rfl, rfl⟩ <;> rfl

/-- An answer that is not explicit is the default of the request. -/
theorem eq_of_default (h : backend.askAnswer around request = .ok (.default d)) :
    d = request.defaultDecision := by
  cases backend with
  | nonInteractive timeout => exact (PromptAnswer.default.inj (Except.ok.inj h)).symm
  | authd socketPath timeout => exact authdAnswer_default (Except.ok.inj h)
  | command path timeout =>
    rw [askAnswer] at h
    split at h
    · cases h
    · rename_i child hspawn
      obtain ⟨m, hstops⟩ := child.waitLoop_stops (child.reading 0 + timeout) request.defaultDecision
      exact hstops.eq_of_default h

/-- What the answer of a dialog that a job leads to goes back to. -/
theorem answer_cases {explicit : Bool}
    (h : askPrompt ⟨backend.askAnswer around, backend.requiresGraphicalSession⟩ request =
      .answer d explicit) :
    explicit = true ∧ backend.Chooses around request d ∨
      explicit = false ∧ d = request.defaultDecision := by
  unfold askPrompt at h
  split at h
  · rename_i answer hanswer
    obtain ⟨rfl, rfl⟩ := PromptOutcome.answer.inj h
    cases answer with
    | explicit d => exact .inl ⟨rfl, chooses_of_explicit hanswer⟩
    | default d => exact .inr ⟨rfl, eq_of_default hanswer⟩
  · cases h

end PromptBackend

/-- The guard of `run_guard`. -/
def guardOf (policy : StaticPolicy) (backend : PromptBackend) (paths excludedPaths : List Path)
    (io : IoResults) : Guard where
  policy := policy.toAccessPolicy
  paths := paths
  excludedPaths := excludedPaths
  requiresGraphicalSession := backend.requiresGraphicalSession
  io := io

/-- Dialogs are shown by the backend. -/
def ShownBy (backend : PromptBackend) : Move → Prop
  | .workerResolve _ askAnswer => ∃ around, askAnswer = backend.askAnswer around
  | _ => True

/-- Every job asks about an event, and every answer is the choice of a user or the default
of its job. -/
structure Backed (g : Guard) (backend : PromptBackend) (s : GuardState) : Prop where
  asks : ∀ job, s.HasJob job → ∃ event ∈ s.world.handed, AsksAbout g event job
  answers : ∀ job d explicit, .answered job (.answer d explicit) ∈ s.world.trace →
    explicit = true ∧ (∃ around, backend.Chooses around job.request d) ∨
      explicit = false ∧ d = job.defaultDecision

theorem backed_step {g : Guard} {backend : PromptBackend} {s t : GuardState} {a : Move}
    (hrequires : g.requiresGraphicalSession = backend.requiresGraphicalSession)
    (hs : Backed g backend s) (hshown : ShownBy backend a) (h : s.step g a = some t) :
    Backed g backend t := by
  constructor
  · intro job hjob
    rcases hasJob_step h hjob with hold | ⟨_, event, _, _, _, hmem, hasks, _⟩
    · obtain ⟨event, hmem, hasks⟩ := hs.asks job hold
      exact ⟨event, (step_inv h).handed.subset hmem, hasks⟩
    · exact ⟨event, hmem, hasks⟩
  · intro job d explicit hanswered
    by_cases hresolve : ∃ current askAnswer, a = .workerResolve current askAnswer
    · obtain ⟨current, askAnswer, rfl⟩ := hresolve
      obtain ⟨around, rfl⟩ := hshown
      obtain ⟨job', outcome, _, houtcome, hcases⟩ := workerResolve_cases h
      have hworld : t.world = s.world.observe (.answered job' outcome) := by
        rcases hcases with ⟨_, rfl⟩ | ⟨_, rfl⟩ <;> rfl
      rw [hworld, World.trace_observe, List.mem_append, List.mem_singleton] at hanswered
      rcases hanswered with hold | hnew
      · exact hs.answers job d explicit hold
      · obtain ⟨rfl, rfl⟩ := Observation.answered.inj hnew
        rw [resolvePromptJob_eq, hrequires] at houtcome
        split at houtcome
        · cases houtcome
        · rcases PromptBackend.answer_cases houtcome.symm with ⟨hexplicit, hchooses⟩ | hdefault
          · exact .inl ⟨hexplicit, around, hchooses⟩
          · exact .inr hdefault
    · have hsame := answers_step (fun current askAnswer heq => hresolve ⟨current, askAnswer, heq⟩) h
      exact hs.answers job d explicit (mem_answers.mp (hsame ▸ mem_answers.mpr hanswered))

theorem backed_reachable {g : Guard} {backend : PromptBackend} {s : GuardState}
    (hrequires : g.requiresGraphicalSession = backend.requiresGraphicalSession)
    (h : Reachable (guardRun g) (fun _ a => ShownBy backend a) s) : Backed g backend s := by
  refine h.invariant (I := Backed g backend) ?_ fun s a t hs hshown hstep =>
    backed_step hrequires hs hshown hstep
  rintro _ rfl
  constructor
  · rintro job ((hjob | hjob) | ⟨_, hjob⟩) <;> cases hjob
  · intro job d explicit hanswered
    cases hanswered

/-- The default of every prompt is the configured one. -/
theorem decide_default {config : PolicyConfig} {subject : ProcessSubject} {target : Path}
    {access : AccessKind} {reason : DecisionReason} {default : Decision} {scope : Path}
    (h : Policy.decide config subject target access = .prompt reason default scope) :
    default = Policy.defaultDecision config := by
  have hprompt : ∀ {reason' scope'},
      Policy.prompt config reason' scope' = .prompt reason default scope →
      default = Policy.defaultDecision config := fun heq => (Decision.prompt.inj heq).2.1.symm
  unfold Policy.decide at h
  dsimp only at h
  split at h
  · cases h
  · split at h
    · cases h
    · split at h
      · cases h
      · split at h
        · cases h
        · split at h
          · cases access <;> exact hprompt h
          · split at h
            · cases access <;> exact hprompt h
            · cases h

theorem evaluated_decision {g : Guard} {policy : StaticPolicy} {event : GuardEvent} {target : Path}
    {evaluation : GuardEvaluation} (hpolicy : g.policy = policy.toAccessPolicy)
    (h : evaluateGuardAccess g event target = .ok evaluation) :
    evaluation.policyDecision = policy.decide event.subject target (accessKind event.mask) := by
  unfold evaluateGuardAccess at h
  rw [hpolicy] at h
  rw [← Except.ok.inj h]
  rfl

theorem defaultDecision_final (config : PolicyConfig) :
    Policy.defaultDecision config = .allow ∨ Policy.defaultDecision config = .deny := by
  rw [Policy.defaultDecision]
  split
  · exact .inl rfl
  · exact .inr rfl

/-- A user has chosen the decision in a dialog for an event that was handed to the guard: for
the key of this event or, where it has none, for the very prompt it was queued on; or
the choice was to allow all accesses below the owner that this event is below. -/
def ChosenBefore (g : Guard) (backend : PromptBackend) (w : World) (before : List Observation)
    (e : EventId) (evaluation : GuardEvaluation) (d : Decision) : Prop :=
  ∃ job around, .answered job (.answer d true) ∈ before ∧ backend.Chooses around job.request d ∧
    (∃ asked ∈ w.handed, AsksAbout g asked job) ∧
    (job.key = evaluation.promptKey ∧
        (evaluation.promptKey = none → .queued (some e) job.id ∈ before) ∨
      d = .allow ∧ ∃ a b, evaluation.authorization = some a ∧ job.authorization = some b ∧
        b.key = a.key)

/-- What a prompt is answered with is the configured default, or a choice of a user. -/
theorem PromptGrounded.chosen {g : Guard} {policy : StaticPolicy} {backend : PromptBackend}
    {s : GuardState} (hpolicy : g.policy = policy.toAccessPolicy) (hs : Backed g backend s)
    {before : List Observation} (hbefore : before ⊆ s.world.trace) {e : EventId}
    {evaluation : GuardEvaluation} {d : Decision}
    (h : PromptGrounded g s.world.handed before e evaluation
      (Policy.defaultDecision policy.config) d) :
    d = Policy.defaultDecision policy.config ∨
      ChosenBefore g backend s.world before e evaluation d := by
  have hdefault : ∀ {event target evaluation reason default scope},
      evaluateGuardAccess g event target = .ok evaluation →
      evaluation.policyDecision = .prompt reason default scope →
      default = Policy.defaultDecision policy.config := by
    intro event target evaluation reason default scope hevaluation hdecision
    rw [evaluated_decision hpolicy hevaluation] at hdecision
    exact decide_default hdecision
  have hasked : ∀ {job outcome}, .answered job outcome ∈ before →
      ∃ asked ∈ s.world.handed, AsksAbout g asked job := fun hanswered =>
    hs.asks _ (.inr ⟨_, hbefore hanswered⟩)
  cases h with
  | granted job a b hanswered ha hb hkey hd =>
    subst hd
    right
    rcases hs.answers job .allow true (hbefore hanswered) with ⟨-, around, hchooses⟩ | ⟨hfalse, -⟩
    · exact ⟨job, around, hanswered, hchooses, hasked hanswered, .inr ⟨rfl, a, b, ha, hb, hkey⟩⟩
    · cases hfalse
  | answered job explicit hanswered hkey hqueued =>
    rcases hs.answers job d explicit (hbefore hanswered) with ⟨rfl, around, hchooses⟩ | ⟨-, hd⟩
    · exact .inr ⟨job, around, hanswered, hchooses, hasked hanswered, .inl ⟨hkey, hqueued⟩⟩
    · -- the dialog came to no choice: its answer is the default of the event it was for
      obtain ⟨asked, -, hasks⟩ := hasked hanswered
      obtain ⟨evaluation', scope, hevaluation, hdecision, -⟩ := hasks.evaluated
      exact .inl (hd.trans (hdefault hevaluation hdecision))
  | default hd => exact .inl hd
  | defaultOfKey e' event' evaluation' key reason scope _ _ hevaluation' _ _ hdecision' =>
    obtain ⟨target, -, -, hevaluate⟩ := evaluationOf_eq_some hevaluation'
    exact .inl (hdefault hevaluate hdecision')

/-- The grounds of a response where a static policy decides. -/
theorem response_cases {policy : StaticPolicy} {backend : PromptBackend}
    {paths excludedPaths : List Path} {io : IoResults} {allowed : GuardState → Move → Prop}
    {s : GuardState}
    (h : Reachable (guardRun (guardOf policy backend paths excludedPaths io)) allowed s)
    {before after : List Observation} {ev : Option EventId} {d : Decision} {ok : Bool}
    (htrace : s.world.trace = before ++ .responded ev d ok :: after) :
    ∃ e event target, ev = some e ∧ s.world.handed[e]? = some event ∧ event.target = .ok target ∧
      (isWatchedPath target paths excludedPaths = false ∧ d = .allow ∨
        isWatchedPath target paths excludedPaths = true ∧ ∃ evaluation,
          evaluateGuardAccess (guardOf policy backend paths excludedPaths io) event target =
            .ok evaluation ∧
          (policy.decide event.subject target (accessKind event.mask) = d ∧
              (d = .allow ∨ d = .deny) ∨
            ∃ reason scope, policy.decide event.subject target (accessKind event.mask) =
                .prompt reason (Policy.defaultDecision policy.config) scope ∧
              PromptGrounded (guardOf policy backend paths excludedPaths io) s.world.handed before e
                evaluation (Policy.defaultDecision policy.config) d)) := by
  obtain ⟨e, event, hev, hevent, hgrounded⟩ := justified_split (tidy_reachable h).justified htrace
  cases hgrounded with
  | unwatched target htarget hwatched hd =>
    exact ⟨e, event, target, hev, hevent, htarget, .inl ⟨hwatched, hd⟩⟩
  | policy evaluation hevaluation hd hfinal =>
    obtain ⟨target, htarget, hwatched, hevaluate⟩ := evaluationOf_eq_some hevaluation
    have hdecide := (evaluated_decision rfl hevaluate).symm.trans hd
    exact ⟨e, event, target, hev, hevent, htarget,
      .inr ⟨hwatched, evaluation, hevaluate, .inl ⟨hdecide, hfinal⟩⟩⟩
  | prompt evaluation reason default scope hevaluation hdecision hgrounded =>
    obtain ⟨target, htarget, hwatched, hevaluate⟩ := evaluationOf_eq_some hevaluation
    have hdecide := (evaluated_decision rfl hevaluate).symm.trans hdecision
    obtain rfl := decide_default hdecide
    exact ⟨e, event, target, hev, hevent, htarget,
      .inr ⟨hwatched, evaluation, hevaluate, .inr ⟨reason, scope, hdecide, hgrounded⟩⟩⟩

/-- In every run of the guard with a static policy and a backend, each response is for an
event that was handed to it and whose path it could read: `Allow` outside the watched
paths; what the policy decides on the access; or, where the policy decides for a
prompt, the configured default or the choice of a user. -/
theorem responses_follow_policy (policy : StaticPolicy) (backend : PromptBackend)
    (paths excludedPaths : List Path) (io : IoResults) (s : GuardState)
    (h : Reachable (guardRun (guardOf policy backend paths excludedPaths io))
      (fun _ a => ShownBy backend a) s)
    (before after : List Observation) (ev : Option EventId) (d : Decision) (ok : Bool)
    (htrace : s.world.trace = before ++ .responded ev d ok :: after) :
    ∃ e event target, ev = some e ∧ s.world.handed[e]? = some event ∧ event.target = .ok target ∧
      (d = .allow ∨ d = .deny) ∧
      (isWatchedPath target paths excludedPaths = false ∧ d = .allow ∨
        isWatchedPath target paths excludedPaths = true ∧
          let decision := policy.decide event.subject target (accessKind event.mask)
          (decision = d ∨ ∃ reason scope evaluation,
            decision = .prompt reason (Policy.defaultDecision policy.config) scope ∧
            evaluateGuardAccess (guardOf policy backend paths excludedPaths io) event target =
              .ok evaluation ∧
            (d = Policy.defaultDecision policy.config ∨
              ChosenBefore (guardOf policy backend paths excludedPaths io) backend s.world before e
                evaluation d))) := by
  have hbefore : before ⊆ s.world.trace := by
    rw [htrace]
    exact List.subset_append_left _ _
  obtain ⟨e, event, target, hev, hevent, htarget, hcases⟩ := response_cases h htrace
  rcases hcases with ⟨hwatched, hd⟩ | ⟨hwatched, evaluation, hevaluate, ⟨hdecide, hfinal⟩ |
    ⟨reason, scope, hdecide, hgrounded⟩⟩
  · exact ⟨e, event, target, hev, hevent, htarget, .inl hd, .inl ⟨hwatched, hd⟩⟩
  · exact ⟨e, event, target, hev, hevent, htarget, hfinal, .inr ⟨hwatched, .inl hdecide⟩⟩
  · have hchosen := hgrounded.chosen rfl (backed_reachable rfl h) hbefore
    refine ⟨e, event, target, hev, hevent, htarget, ?_, .inr ⟨hwatched, .inr
      ⟨reason, scope, evaluation, hdecide, hevaluate, hchosen⟩⟩⟩
    rcases hchosen with hdefault | ⟨_, _, _, hchooses, _⟩
    · rw [hdefault]
      exact defaultDecision_final policy.config
    · exact hchooses.final

/-- Where the policy denies nothing itself and fails open, a denial is a user's choice. -/
theorem denied_by_user {policy : StaticPolicy} {backend : PromptBackend}
    {paths excludedPaths : List Path} {io : IoResults} {s : GuardState}
    (hpolicy : ∀ subject target access, policy.decide subject target access ≠ .deny)
    (hopen : Policy.defaultDecision policy.config = .allow)
    (h : Reachable (guardRun (guardOf policy backend paths excludedPaths io))
      (fun _ a => ShownBy backend a) s)
    {before after : List Observation} {ev : Option EventId} {d : Decision} {ok : Bool}
    (htrace : s.world.trace = before ++ .responded ev d ok :: after) (hne : d ≠ .allow) :
    ∃ e event target evaluation reason scope, ev = some e ∧ s.world.handed[e]? = some event ∧
      event.target = .ok target ∧
      policy.decide event.subject target (accessKind event.mask) = .prompt reason .allow scope ∧
      evaluateGuardAccess (guardOf policy backend paths excludedPaths io) event target =
        .ok evaluation ∧
      d = .deny ∧ ChosenBefore (guardOf policy backend paths excludedPaths io) backend s.world before
        e evaluation .deny := by
  have hbefore : before ⊆ s.world.trace := by
    rw [htrace]
    exact List.subset_append_left _ _
  obtain ⟨e, event, target, hev, hevent, htarget, hcases⟩ := response_cases h htrace
  rcases hcases with ⟨-, hd⟩ | ⟨-, evaluation, hevaluate, ⟨hdecide, hfinal⟩ |
    ⟨reason, scope, hdecide, hgrounded⟩⟩
  · exact absurd hd hne
  · exact absurd (hfinal.resolve_left hne ▸ hdecide) (hpolicy _ _ _)
  · rcases hgrounded.chosen rfl (backed_reachable rfl h) hbefore with hdefault | hchosen
    · exact absurd (hdefault.trans hopen) hne
    · obtain rfl : d = .deny := by
        obtain ⟨_, _, _, hchooses, -⟩ := hchosen
        exact hchooses.final.resolve_left hne
      exact ⟨e, event, target, evaluation, reason, scope, hev, hevent, htarget, hopen ▸ hdecide,
        hevaluate, rfl, hchosen⟩

/-- The policy about pi's files, failing closed. -/
def closedPi : StaticPolicy := { piPolicy with config := { piPolicy.config with failOpen := false } }

def authdPrompt : PromptBackend := .build (Path.ofString "/run/authd.sock") none 35000

/-- authd reports success. -/
def agreeing : Surroundings where
  spawn _ _ := .error "no such command"
  exchange _ _ := ⟨.ok (), .ok (), .ok (), .ok [], .ok (), .ok [0], fun _ => .ok .success⟩

def consentGuard : Guard :=
  guardOf closedPi authdPrompt [Path.ofString "/home/u"] [] fun _ => true

/-- The `cat` below pi belongs to a graphical session. -/
def sessionOpens : GuardEvent :=
  { catOpens with env := AList.insert "WAYLAND_DISPLAY" "wayland-0" ∅ }

def consentMoves : List Move :=
  [.poll true, .readBatch [sessionOpens] (.ok ()), .handle, .record, .workerRecv,
    .workerResolve (fun _ _ => true) (authdPrompt.askAnswer agreeing), .workerNotify, .endBatch,
    .poll false, .readWake, .readWake, .tryRecv]

def consented : GuardState := runFrom (guardRun consentGuard) anyStep .initial consentMoves

theorem consented_reachable :
    Reachable (guardRun consentGuard) (fun _ a => ShownBy authdPrompt a) consented := by
  refine ⟨.initial, rfl, exec_steps_of_labels (show exec _ anyStep _ consentMoves = _ from rfl) ?_⟩
  simp [consentMoves, ShownBy]

theorem responses_follow_policy_consented :
    ∃ job around, .answered job (.answer .allow true) ∈ consented.world.trace ∧
      authdPrompt.Chooses around job.request .allow := by
  obtain ⟨e, event, target, he, hevent, htarget, -, hcases⟩ :=
    responses_follow_policy closedPi authdPrompt [Path.ofString "/home/u"] [] (fun _ => true)
      consented consented_reachable (consented.world.trace.take 2) (consented.world.trace.drop 3)
      (some 0) .allow true rfl
  obtain rfl := Option.some.inj he
  obtain rfl : event = sessionOpens := (Option.some.inj hevent).symm
  obtain rfl : target = piSession := (Except.ok.inj htarget).symm
  rcases hcases with ⟨hwatched, -⟩ | ⟨-, hdecided | ⟨_, _, _, _, _, hdefault | hchosen⟩⟩
  · exact absurd hwatched (by decide)
  · exact absurd hdecided (by decide)
  · exact absurd hdefault (by decide)
  · obtain ⟨job, around, hanswered, hchooses, -⟩ := hchosen
    exact ⟨job, around, List.mem_of_mem_take hanswered, hchooses⟩

end ConfigGuard
