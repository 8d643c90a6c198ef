import ConfigGuard.Guard.Tickets

/-!
# What the events of a prompt receive

An event that was queued for a prompt is answered by the job of that prompt, or
with its own default if the job gives no answer.
-/

namespace ConfigGuard
open OsPath Transition AssocList

/-- The configured default of the prompt decision on an event. -/
def DefaultOf (g : Guard) (w : World) (e : EventId) (d : Decision) : Prop :=
  ∃ event evaluation reason scope, w.handed[e]? = some event ∧
    evaluationOf g event = some evaluation ∧ evaluation.policyDecision = .prompt reason d scope

/-- The job `id` gives an event the decision `d`: its answer, or the event's
default where it has failed, or where the worker has stopped without ending it. -/
def Decides (g : Guard) (s : GuardState) (id : PromptId) (e : EventId) (d : Decision) : Prop :=
  (∃ job explicit, job.id = id ∧ .answered job (.answer d explicit) ∈ s.world.trace) ∨
  DefaultOf g s.world e d ∧
    ((∃ job, job.id = id ∧ .answered job .failure ∈ s.world.trace) ∨
      s.worker.isStopped = true ∧ ∀ job outcome, job.id = id →
        .answered job outcome ∉ s.world.trace)

/-- What an event gets from the outcome of its job. -/
def Gives (g : Guard) (w : World) (e : EventId) (d : Decision) : PromptOutcome → Prop
  | .answer decision _ => d = decision
  | .failure => DefaultOf g w e d

structure Delivered (g : Guard) (s : GuardState) : Prop where
  once : ∀ e id id', .queued (some e) id ∈ s.world.trace →
    .queued (some e) id' ∈ s.world.trace → id = id'
  sent : ∀ e id, .queued (some e) id ∈ s.world.trace → id < s.coordinator.nextId
  waiting : ∀ e id d ok, .queued (some e) id ∈ s.world.trace →
    .responded (some e) d ok ∈ s.world.trace →
      id ∉ s.promptIds ∧ ∀ job ∈ s.unanswered, job.id ≠ id
  decided : ∀ e id d ok, .queued (some e) id ∈ s.world.trace →
    .responded (some e) d ok ∈ s.world.trace → Decides g s id e d

section

variable (io : IoResults) (w : World) {e : EventId} {id : PromptId} {ev : Option EventId}
  {d : Decision} {ok : Bool}

theorem responded_respondAndCloseEvent (fd : Int) (mask : UInt64) (decision : Decision)
    (h : .responded ev d ok ∈ (respondAndCloseEvent io w fd mask decision).2.trace) :
    .responded ev d ok ∈ w.trace ∨ ev = w.eventOf fd ∧ d = decision := by
  rw [trace_respondAndCloseEvent, List.mem_append] at h
  exact h.imp_right settlement_responded

theorem queued_respondAndCloseEvent (fd : Int) (mask : UInt64) (decision : Decision)
    (h : .queued ev id ∈ (respondAndCloseEvent io w fd mask decision).2.trace) :
    .queued ev id ∈ w.trace := by
  rw [trace_respondAndCloseEvent, List.mem_append] at h
  exact h.resolve_right settlement_not_queued

/-- Each response is for an event of the list, open at the start. -/
theorem responded_respondToEvents (decisionFor : PendingEvent → Decision)
    (events : List PendingEvent)
    (h : .responded (some e) d ok ∈ (respondToEvents io decisionFor w events).2.trace) :
    .responded (some e) d ok ∈ w.trace ∨
      ∃ event ∈ events, w.eventOf event.fd = some e ∧ d = decisionFor event := by
  induction events generalizing w with
  | nil => exact .inl h
  | cons event events ih =>
    rcases ih _ h with h | ⟨other, hmem, hopen, hd⟩
    · rcases responded_respondAndCloseEvent io w _ _ _ h with h | ⟨hev, hd⟩
      · exact .inl h
      · exact .inr ⟨event, List.mem_cons_self, hev.symm, hd⟩
    · have hopen := ((eventOf_respondAndCloseEvent_eq_some _ _ _ _ _).mp hopen).2
      exact .inr ⟨other, List.mem_cons_of_mem _ hmem, hopen, hd⟩

theorem queued_respondToEvents (decisionFor : PendingEvent → Decision) (events : List PendingEvent)
    (h : .queued ev id ∈ (respondToEvents io decisionFor w events).2.trace) :
    .queued ev id ∈ w.trace := by
  induction events generalizing w with
  | nil => exact h
  | cons event events ih => exact queued_respondAndCloseEvent io w _ _ _ (ih _ h)

/-- What is open after a list of events has been answered was open before. -/
theorem eventOf_respondToEvents (decisionFor : PendingEvent → Decision)
    (events : List PendingEvent) {fd : Int}
    (h : (respondToEvents io decisionFor w events).2.eventOf fd = some e) :
    w.eventOf fd = some e := by
  induction events generalizing w with
  | nil => exact h
  | cons event events ih =>
    exact ((eventOf_respondAndCloseEvent_eq_some _ _ _ _ _).mp (ih _ h)).2

theorem responded_failPrompts (prompts : List PendingPrompt)
    (h : .responded (some e) d ok ∈ (PromptCoordinator.failPrompts io w prompts).2.trace) :
    .responded (some e) d ok ∈ w.trace ∨ ∃ prompt ∈ prompts, ∃ event ∈ prompt.events,
      w.eventOf event.fd = some e ∧ d = event.defaultDecision := by
  induction prompts generalizing w with
  | nil => exact .inl h
  | cons prompt prompts ih =>
    have hfirst : ∀ {w'}, (respondWithDefaults io w prompt.events).2 = w' →
        .responded (some e) d ok ∈ w'.trace →
        .responded (some e) d ok ∈ w.trace ∨ ∃ prompt' ∈ prompt :: prompts,
          ∃ event ∈ prompt'.events, w.eventOf event.fd = some e ∧ d = event.defaultDecision := by
      rintro _ rfl h
      rcases responded_respondToEvents io w _ _ h with h | h
      · exact .inl h
      · exact .inr ⟨prompt, List.mem_cons_self, h⟩
    rw [PromptCoordinator.failPrompts] at h
    split at h
    · rename_i hresult
      exact hfirst (congrArg (·.2) hresult) h
    · rename_i w' hresult
      rcases ih _ h with h | ⟨prompt', hmem, event, hevent, hopen, hd⟩
      · exact hfirst (congrArg (·.2) hresult) h
      · have hw' : (respondWithDefaults io w prompt.events).2 = w' := congrArg (·.2) hresult
        rw [← hw'] at hopen
        exact .inr ⟨prompt', List.mem_cons_of_mem _ hmem, event, hevent,
          eventOf_respondToEvents io w _ _ hopen, hd⟩

theorem queued_failPrompts (prompts : List PendingPrompt)
    (h : .queued ev id ∈ (PromptCoordinator.failPrompts io w prompts).2.trace) :
    .queued ev id ∈ w.trace := by
  induction prompts generalizing w with
  | nil => exact h
  | cons prompt prompts ih =>
    rw [PromptCoordinator.failPrompts] at h
    split at h
    · rename_i w' hresult
      have hw' : (respondWithDefaults io w prompt.events).2 = w' := congrArg (·.2) hresult
      exact queued_respondToEvents io w _ _ (hw' ▸ h)
    · rename_i w' hresult
      have hw' : (respondWithDefaults io w prompt.events).2 = w' := congrArg (·.2) hresult
      exact queued_respondToEvents io w _ _ (hw' ▸ ih _ h)

end

theorem DefaultOf.mono {g : Guard} {w w' : World} {e : EventId} {d : Decision}
    (h : DefaultOf g w e d) (hhanded : w.handed <+: w'.handed) : DefaultOf g w' e d := by
  obtain ⟨event, evaluation, reason, scope, hevent, hrest⟩ := h
  exact ⟨event, evaluation, reason, scope, handed_of_prefix hhanded hevent, hrest⟩

section

variable {g : Guard} {s t : GuardState} {a : Move} {e : EventId} {id : PromptId}

/-- The next event has neither been queued nor answered. -/
theorem next_not_queued (hqueues : QueuesPrompts g s.world) (id : PromptId) :
    .queued (some s.world.handed.length) id ∉ s.world.trace := by
  intro hmem
  obtain ⟨e, _, _, he, hget, _⟩ := hqueues _ _ hmem
  obtain rfl := Option.some.inj he
  exact absurd (List.getElem?_eq_some_iff.mp hget).1 (Nat.lt_irrefl _)

theorem next_not_responded (htidy : Tidy g s.ledger) (d : Decision) (ok : Bool) :
    .responded (some s.world.handed.length) d ok ∉ s.world.trace := by
  intro hmem
  obtain ⟨before, after, htrace⟩ := List.append_of_mem hmem
  obtain ⟨e, _, he, hget, _⟩ := justified_split htidy.justified htrace
  obtain rfl := Option.some.inj he
  exact absurd (List.getElem?_eq_some_iff.mp hget).1 (Nat.lt_irrefl _)

theorem Delivered.waiting_step (hs : Delivered g s) (h : Stepped g s a t) {d : Decision} {ok : Bool}
    (hid : .queued (some e) id ∈ s.world.trace)
    (hresponse : .responded (some e) d ok ∈ s.world.trace) :
    id ∉ t.promptIds ∧ ∀ job ∈ t.unanswered, job.id ≠ id := by
  obtain ⟨hpending, hjobs⟩ := hs.waiting e id d ok hid hresponse
  have hlt := hs.sent e id hid
  constructor
  · intro hmem
    rcases h.promptIds hmem with hmem | rfl
    · exact hpending hmem
    · exact absurd hlt (Nat.lt_irrefl _)
  · intro job hjob hsame
    rcases h.unanswered hjob with hjob | hnew
    · exact hjobs job hjob hsame
    · rw [← hsame, hnew.id] at hlt
      exact absurd hlt (Nat.lt_irrefl _)

theorem Delivered.decided_step (hs : Delivered g s) (h : Stepped g s a t) {d : Decision} {ok : Bool}
    (hid : .queued (some e) id ∈ s.world.trace)
    (hresponse : .responded (some e) d ok ∈ s.world.trace) : Decides g t id e d := by
  rcases hs.decided e id d ok hid hresponse with ⟨job, explicit, hjob, hanswer⟩ |
    ⟨hdefault, ⟨job, hjob, hfailure⟩ | ⟨hstopped, hnone⟩⟩
  · exact .inl ⟨job, explicit, hjob, h.trace hanswer⟩
  · exact .inr ⟨hdefault.mono h.handed, .inl ⟨job, hjob, h.trace hfailure⟩⟩
  · refine .inr ⟨hdefault.mono h.handed, .inr ⟨h.stays_stopped hstopped, ?_⟩⟩
    intro job outcome hjob hanswer
    rcases h.answered hanswer with hanswer | hunanswered
    · exact hnone job outcome hjob hanswer
    · exact (hs.waiting e id d ok hid hresponse).2 job hunanswered hjob

/-- Steps that queue no event. A job is answered before its events are, and the
new responses are to events queued for a job that is done. -/
theorem Delivered.advance (hs : Delivered g s) (h : Stepped g s a t)
    (hqueued : ∀ e id, .queued (some e) id ∈ t.world.trace → .queued (some e) id ∈ s.world.trace)
    (hresponded : ∀ e d ok, .responded (some e) d ok ∈ t.world.trace →
      .responded (some e) d ok ∈ s.world.trace ∨ ∀ id, .queued (some e) id ∈ s.world.trace →
        id ∉ t.promptIds ∧ (∀ job ∈ t.unanswered, job.id ≠ id) ∧ Decides g t id e d) :
    Delivered g t := by
  refine ⟨?_, ?_, ?_, ?_⟩
  · intro e id id' hid hid'
    exact hs.once e id id' (hqueued e id hid) (hqueued e id' hid')
  · intro e id hid
    exact (hs.sent e id (hqueued e id hid)).trans_le h.nextId_le
  · intro e id d ok hid hresponse
    have hid := hqueued e id hid
    rcases hresponded e d ok hresponse with hold | hnew
    · exact hs.waiting_step h hid hold
    · exact ⟨(hnew id hid).1, (hnew id hid).2.1⟩
  · intro e id d ok hid hresponse
    have hid := hqueued e id hid
    rcases hresponded e d ok hresponse with hold | hnew
    · exact hs.decided_step h hid hold
    · exact (hnew id hid).2.2

variable (id) in
/-- Steps that queue the next event and respond to none. -/
theorem Delivered.queue (hs : Delivered g s) (h : Stepped g s a t) (htidy : Tidy g s.ledger)
    (hqueues : QueuesPrompts g s.world)
    (hqueued : ∀ e id', .queued (some e) id' ∈ t.world.trace →
      .queued (some e) id' ∈ s.world.trace ∨ e = s.world.handed.length ∧ id' = id)
    (hid : id < t.coordinator.nextId)
    (hresponded : ∀ e d ok, .responded (some e) d ok ∈ t.world.trace →
      .responded (some e) d ok ∈ s.world.trace) : Delivered g t := by
  -- what has been answered was queued before
  have hold : ∀ e id' d ok, .queued (some e) id' ∈ t.world.trace →
      .responded (some e) d ok ∈ t.world.trace → .queued (some e) id' ∈ s.world.trace := by
    intro e id' d ok hmem hresponse
    refine (hqueued e id' hmem).resolve_right ?_
    rintro ⟨rfl, -⟩
    exact next_not_responded htidy d ok (hresponded _ d ok hresponse)
  refine ⟨?_, ?_, ?_, ?_⟩
  · intro e id₁ id₂ h₁ h₂
    rcases hqueued e id₁ h₁ with h₁ | ⟨rfl, rfl⟩
    · rcases hqueued e id₂ h₂ with h₂ | ⟨rfl, rfl⟩
      · exact hs.once e id₁ id₂ h₁ h₂
      · exact absurd h₁ (next_not_queued hqueues id₁)
    · rcases hqueued _ id₂ h₂ with h₂ | ⟨_, rfl⟩
      · exact absurd h₂ (next_not_queued hqueues id₂)
      · rfl
  · intro e id' hmem
    rcases hqueued e id' hmem with hmem | ⟨_, rfl⟩
    · exact (hs.sent e id' hmem).trans_le h.nextId_le
    · exact hid
  · intro e id' d ok hmem hresponse
    exact hs.waiting_step h (hold e id' d ok hmem hresponse) (hresponded e d ok hresponse)
  · intro e id' d ok hmem hresponse
    exact hs.decided_step h (hold e id' d ok hmem hresponse) (hresponded e d ok hresponse)

/-- An event of a prompt was queued for it. -/
theorem queued_of_prompt (htidy : Tidy g s.ledger) {prompt : PendingPrompt}
    (hprompt : (id, prompt) ∈ s.prompts) {event : PendingEvent} (hevent : event ∈ prompt.events)
    (hopen : s.world.eventOf event.fd = some e) :
    .queued (some e) id ∈ s.world.trace ∧ DefaultOf g s.world e event.defaultDecision := by
  have hheld : (⟨id, prompt.key, event⟩ : HeldEvent) ∈ s.ledger.held :=
    List.mem_flatMap.mpr ⟨(id, prompt), hprompt, List.mem_map_of_mem hevent⟩
  obtain ⟨e', event', hholds⟩ := htidy.holds _ hheld
  obtain rfl := Option.some.inj (hopen.symm.trans hholds.opened)
  obtain ⟨evaluation, reason, scope, hevaluation, hdecision, _⟩ := hholds.heldFor.prompted
  exact ⟨hholds.queued, event', evaluation, reason, scope, hholds.handed, hevaluation, hdecision⟩

/-- A response to the event being handled is to one that has not been queued. -/
theorem Delivered.answerNext (hs : Delivered g s) (h : Stepped g s a t)
    (hqueues : QueuesPrompts g s.world) {event : GuardEvent} {decision : Decision}
    (hnonneg : 0 ≤ event.fd) (hworld : t.world =
      (respondAndCloseEvent g.io (s.world.handOver event) event.fd event.mask decision).2) :
    Delivered g t := by
  refine hs.advance h ?_ ?_
  · intro e id hid
    rw [hworld] at hid
    exact queued_respondAndCloseEvent g.io (s.world.handOver event) _ _ _ hid
  · intro e d ok hresponse
    rw [hworld] at hresponse
    refine (responded_respondAndCloseEvent g.io (s.world.handOver event) _ _ _ hresponse).imp_right ?_
    rintro ⟨he, _⟩ id hid
    rw [World.eventOf_handOver_self s.world hnonneg] at he
    obtain rfl := Option.some.inj he
    exact absurd hid (next_not_queued hqueues id)

/-- Steps that make observations other than queueing an event and responding to one. -/
theorem Delivered.observe (hs : Delivered g s) (h : Stepped g s a t) (more : List Observation)
    (htrace : t.world.trace = s.world.trace ++ more)
    (hmore : ∀ o ∈ more, (∀ ev id, o ≠ .queued ev id) ∧ ∀ ev d ok, o ≠ .responded ev d ok) :
    Delivered g t := by
  refine hs.advance h ?_ ?_
  · intro e id hid
    rw [htrace, List.mem_append] at hid
    exact hid.resolve_right fun hmem => (hmore _ hmem).1 _ _ rfl
  · intro e d ok hresponse
    rw [htrace, List.mem_append] at hresponse
    exact .inl (hresponse.resolve_right fun hmem => (hmore _ hmem).2 _ _ _ rfl)

theorem delivered_handled {event : GuardEvent} {events : List GuardEvent}
    {tail : Except String Unit} {result : Except GuardError Unit} {c : PromptCoordinator}
    {w : World} (hs : Delivered g s) (h : Stepped g s a t) (hconsistent : Consistent g s)
    (htidy : Tidy g s.ledger) (hqueues : QueuesPrompts g s.world)
    (hmain : s.main = .serving (event :: events) tail)
    (hhandled : Handled g s.coordinator (s.world.handOver event) event (.finished result, c, w))
    (hc : t.coordinator = c) (hw : t.world = w) : Delivered g t := by
  have hsilent : w = s.world.handOver event → Delivered g t := by
    intro hworld
    refine hs.observe h [] ?_ ?_
    · rw [hw, hworld]
      exact (List.append_nil _).symm
    · intro o hmem
      cases hmem
  cases hhandled with
  | rejected => exact hsilent rfl
  | answered decision cache hevent => exact hs.answerNext h hqueues (fd_nonneg hevent) hw
  | unprepared =>
    refine hs.observe h _ (by rw [hw, trace_closeDescriptor]; rfl) ?_
    intro o hmem
    rw [List.mem_singleton.mp hmem]
    exact ⟨fun _ _ => Observation.noConfusion, fun _ _ _ => Observation.noConfusion⟩
  | appended spec key id prompt hevent _ hspec hkey hid =>
    have hopen := World.eventOf_handOver_self s.world (fd_nonneg hevent)
    refine hs.queue id h htidy hqueues ?_ ?_ ?_
    · intro e id' hmem
      rw [hw, World.trace_observe, List.mem_append, List.mem_singleton, hopen] at hmem
      refine hmem.imp_right ?_
      intro heq
      obtain ⟨he, rfl⟩ := Observation.queued.inj heq
      exact ⟨Option.some.inj he, rfl⟩
    · rw [hc]
      have hmem : id ∈ s.promptIds :=
        mem_promptIds.mpr (.inr (AList.lookup_isSome.mp (by rw [hid]; rfl)))
      exact (hconsistent.kept (by rw [hmain]; rfl)).fresh id hmem
    · intro e d ok hmem
      rw [hw, World.trace_observe, List.mem_append, List.mem_singleton] at hmem
      exact hmem.resolve_right nofun
  | dangling => exact hsilent rfl
  | exhausted => exact hsilent rfl

/-- The events of a completed prompt get its outcome. -/
theorem delivered_completed {completion : PromptCompletion} {completions : List PromptCompletion}
    {prompt : PendingPrompt} (hs : Delivered g s) (h : Stepped g s a t)
    (hconsistent : Consistent g s) (htidy : Tidy g s.ledger) (htickets : Tickets s)
    (hlive : s.main.live = true) (hrecorded : s.main.recorded = none)
    (hcompletions : s.completions = completion :: completions)
    (hid : s.coordinator.pending.lookup completion.id = some prompt)
    (hgone : completion.id ∉ t.promptIds) (hunanswered : t.unanswered = s.unanswered)
    (hworld : t.world = (respondToEvents g.io completion.outcome.decisionFor s.world
      prompt.events).2) : Delivered g t := by
  obtain ⟨job, hanswered, hjob, _⟩ := completion_answered (hconsistent.channels hlive) hrecorded
    (by rw [hcompletions]; exact List.mem_cons_self) hid
  refine hs.advance h ?_ ?_
  · intro e id hmem
    rw [hworld] at hmem
    exact queued_respondToEvents _ _ _ _ hmem
  · intro e d ok hresponse
    rw [hworld] at hresponse
    refine (responded_respondToEvents _ _ _ _ hresponse).imp_right ?_
    rintro ⟨event, hevent, hopen, rfl⟩ id hqueued
    obtain ⟨hqueued', hdefault⟩ :=
      queued_of_prompt htidy (GuardState.mem_prompts.mpr (.inr hid)) hevent hopen
    obtain rfl := hs.once e id completion.id hqueued hqueued'
    refine ⟨hgone, ?_, ?_⟩
    · intro other hother hsame
      rw [hunanswered] at hother
      exact htickets.not_answered hanswered hother (hjob.trans hsame.symm)
    · cases houtcome : completion.outcome with
      | answer decision explicit =>
        rw [houtcome] at hanswered
        exact .inl ⟨job, explicit, hjob, h.trace hanswered⟩
      | failure =>
        rw [houtcome] at hanswered
        exact .inr ⟨hdefault.mono h.handed, .inl ⟨job, hjob, h.trace hanswered⟩⟩

/-- An answered job would have been completed before the fallback. -/
theorem not_answered_of_failing (hconsistent : Consistent g s) (htickets : Tickets s)
    (hmain : s.main = .failing) (hid : id ∈ s.promptIds) :
    ∀ job outcome, job.id = id → .answered job outcome ∉ s.world.trace := by
  rintro job outcome rfl hanswer
  have hlive : s.main.live = true := by rw [hmain]; rfl
  have hwaits := htickets.onItsWay hlive job _ (mem_answers.mpr hanswer) hid
  rw [hconsistent.gone.drained hmain] at hwaits
  cases hwaits

/-- The events of the prompts that are still pending when the worker has
stopped get their defaults. -/
theorem delivered_fellBack {order : List PromptId} (hs : Delivered g s) (h : Stepped g s a t)
    (hconsistent : Consistent g s) (htidy : Tidy g s.ledger) (htickets : Tickets s)
    (hmain : s.main = .failing) (hnone : t.promptIds = [])
    (hunanswered : t.unanswered = s.unanswered)
    (hworld : t.world = (PromptCoordinator.failPrompts g.io s.world
      (order.filterMap s.coordinator.pending.lookup)).2) : Delivered g t := by
  have hquiet := failPrompts_quiet g.io s.world (order.filterMap s.coordinator.pending.lookup)
  refine hs.advance h ?_ ?_
  · intro e id hmem
    rw [hworld] at hmem
    exact queued_failPrompts _ _ _ hmem
  · intro e d ok hresponse
    rw [hworld] at hresponse
    refine (responded_failPrompts _ _ _ hresponse).imp_right ?_
    rintro ⟨prompt, hprompt, event, hevent, hopen, rfl⟩ id hqueued
    obtain ⟨id', _, hid'⟩ := List.mem_filterMap.mp hprompt
    obtain ⟨hqueued', hdefault⟩ :=
      queued_of_prompt htidy (GuardState.mem_prompts.mpr (.inr hid')) hevent hopen
    obtain rfl := hs.once e id id' hqueued hqueued'
    have hstopped := h.stays_stopped (hconsistent.gone.seen (by rw [hmain]; rfl))
    refine ⟨by rw [hnone]; exact List.not_mem_nil, ?_,
      .inr ⟨hdefault.mono h.handed, .inr ⟨hstopped, ?_⟩⟩⟩
    · intro job hjob
      rw [hunanswered, unanswered_of_failing hconsistent.gone hmain] at hjob
      cases hjob
    · intro job outcome hjob hanswer
      rw [hworld] at hanswer
      exact not_answered_of_failing hconsistent htickets hmain
        (mem_promptIds_of_prompt (GuardState.mem_prompts.mpr (.inr hid'))) job outcome hjob
        (hquiet.answers _ _ hanswer)

theorem delivered_step (hconsistent : Consistent g s) (htidy : Tidy g s.ledger)
    (hqueues : QueuesPrompts g s.world) (htickets : Tickets s) (hs : Delivered g s)
    (h : Stepped g s a t) : Delivered g t := by
  have hstep := h
  have hstill : t.world.trace = s.world.trace → Delivered g t := by
    intro htrace
    refine hs.observe hstep [] (by rw [htrace, List.append_nil]) ?_
    intro o hmem
    cases hmem
  -- of the moves that observe something, only an answer of the main loop can deliver
  cases h with
  | control => exact hstill rfl
  | handled event events tail result c w hmain _ hhandled =>
    exact delivered_handled hs hstep hconsistent htidy hqueues hmain hhandled rfl rfl
  | sent event events tail job prompt c w hmain _ hhandled =>
    cases hhandled with
    | sending spec _ hevent _ _ _ hjob =>
      have hopen := World.eventOf_handOver_self s.world (fd_nonneg hevent)
      refine hs.queue job.id hstep htidy hqueues ?_ ?_ ?_
      · intro e id' hmem
        rw [World.trace_observe, List.mem_append, List.mem_singleton, hopen] at hmem
        refine hmem.imp_right ?_
        intro heq
        obtain ⟨he, rfl⟩ := Observation.queued.inj heq
        exact ⟨Option.some.inj he, rfl⟩
      · rw [hjob.1]
        exact Nat.lt_succ_self _
      · intro e d ok hmem
        rw [World.trace_observe, List.mem_append, List.mem_singleton] at hmem
        exact hmem.resolve_right nofun
  | unsent event events tail job prompt c w error hmain _ hhandled =>
    cases hhandled with
    | sending spec _ hevent => exact hs.answerNext hstep hqueues (fd_nonneg hevent) rfl
  | recorded => exact hstill rfl
  | completed closed ready completion completions result c w main hmain hcompletions hcompleted
      hmain' =>
    have hlive : s.main.live = true := by rw [hmain]; rfl
    have hrecorded : s.main.recorded = none := by rw [hmain]; rfl
    have hrecorded' : main.recorded = none := recorded_of_completed hmain'
    obtain ⟨prompt, hid, _, _, rfl, rfl⟩ :=
      (hconsistent.kept hlive).completed hrecorded hcompletions hcompleted
    refine delivered_completed hs hstep hconsistent htidy htickets hlive hrecorded hcompletions hid
      ?_ rfl rfl
    -- the completed prompt is gone from the map, and none is being recorded
    intro hmem
    rcases mem_promptIds.mp hmem with ⟨_, hprompt⟩ | hmem
    · cases hrecorded'.symm.trans hprompt
    · exact (AList.mem_erase.mp hmem).1 rfl
  | fellBack order error hmain =>
    exact delivered_fellBack hs hstep hconsistent htidy htickets hmain rfl rfl rfl
  | dropped => exact hstill rfl
  | joined => exact hstill rfl
  | received => exact hstill rfl
  | resolved job current ask outcome =>
    refine hs.observe hstep _ (World.trace_observe _ _) ?_
    intro o hmem
    rw [List.mem_singleton.mp hmem]
    exact ⟨fun _ _ => Observation.noConfusion, fun _ _ _ => Observation.noConfusion⟩
  | notified => exact hstill rfl
  | stopped _ panicked observed hobserved =>
    refine hs.observe hstep observed rfl ?_
    intro o hmem
    obtain ⟨job, outcome, _, rfl⟩ := hobserved o hmem
    exact ⟨fun _ _ => Observation.noConfusion, fun _ _ _ => Observation.noConfusion⟩

end

theorem delivered_initial (g : Guard) : Delivered g .initial := by
  refine ⟨?_, ?_, ?_, ?_⟩
  · intro e id id' hmem
    cases hmem
  · intro e id hmem
    cases hmem
  · intro e id d ok hmem
    cases hmem
  · intro e id d ok hmem
    cases hmem

theorem delivered_reachable {g : Guard} {s : GuardState} {P : GuardState → Move → Prop}
    (h : Reachable (guardRun g) P s) : Delivered g s := by
  refine h.invariant_with (J := fun s => Reachable (guardRun g) P s) (fun _ hr => hr) ?_ ?_
  · rintro _ rfl
    exact delivered_initial g
  · intro s a t hr _ hs _ hstep
    exact delivered_step (consistent_reachable hr) (tidy_reachable hr)
      (queuesPrompts_reachable hr) (tickets_reachable hr) hs (step_inv hstep)

/-- The outcome of a job decides the events queued for it. -/
theorem Decides.gives {g : Guard} {s : GuardState} (htickets : Tickets s) {job : PromptJob}
    {outcome : PromptOutcome} (hanswered : .answered job outcome ∈ s.world.trace) {e : EventId}
    {d : Decision} (h : Decides g s job.id e d) : Gives g s.world e d outcome := by
  rcases h with ⟨other, explicit, hid, hanswer⟩ | ⟨hdefault, ⟨other, hid, hfailure⟩ | ⟨_, hnone⟩⟩
  · obtain ⟨_, rfl⟩ := htickets.unique hanswered hanswer hid.symm
    exact rfl
  · obtain ⟨_, rfl⟩ := htickets.unique hanswered hfailure hid.symm
    exact hdefault
  · exact absurd hanswered (hnone job outcome rfl)

/-- The event is held for the prompt, has been answered, or asks for no answer. -/
def Retained (l : Ledger) (e : EventId) (id : PromptId) : Prop :=
  (∃ h ∈ l.held, h.id = id ∧ l.world.eventOf h.event.fd = some e) ∨
  (∃ d ok, .responded (some e) d ok ∈ l.world.trace) ∨
  ∃ event, l.world.handed[e]? = some event ∧ isPermissionEvent event.mask = false

/-- Only events queued for prompts that are `lost` are neither held nor answered. -/
def Kept (lost : PromptId → Prop) (l : Ledger) : Prop :=
  ∀ e id, .queued (some e) id ∈ l.world.trace → ¬ lost id → Retained l e id

section

variable {g : Guard} {drops : GuardEvent → Prop} {lost : PromptId → Prop} {w w' : World}
  {held held' : List HeldEvent}

theorem Retained.mono {e : EventId} {id : PromptId} (h : Retained ⟨w, held⟩ e id)
    (hhanded : w.handed <+: w'.handed) (htrace : w.trace ⊆ w'.trace) (hheld : held ⊆ held')
    (hopen : ∀ h ∈ held, ∀ e, w.eventOf h.event.fd = some e → w'.eventOf h.event.fd = some e) :
    Retained ⟨w', held'⟩ e id := by
  rcases h with ⟨h, hmem, hsame, hopened⟩ | ⟨d, ok, hresponse⟩ | ⟨event, hget, hmask⟩
  · exact .inl ⟨h, hheld hmem, hsame, hopen h hmem e hopened⟩
  · exact .inr (.inl ⟨d, ok, htrace hresponse⟩)
  · exact .inr (.inr ⟨event, handed_of_prefix hhanded hget, hmask⟩)

/-- Settling a held event answers it, where it asks for an answer. -/
theorem Kept.settle {h : HeldEvent} (ht : Tidy g ⟨w, h :: held⟩) (hl : Kept lost ⟨w, h :: held⟩)
    (d : Decision) :
    Kept lost ⟨(respondAndCloseEvent g.io w h.event.fd h.event.mask d).2, held⟩ := by
  have hquiet := respondAndCloseEvent_quiet g.io w h.event.fd h.event.mask d
  have hdistinct := ht.distinct
  rw [List.map_cons, List.nodup_cons] at hdistinct
  obtain ⟨e₀, event₀, hholds⟩ := ht.holds h List.mem_cons_self
  intro e id hid hkept
  rcases hl e id (queued_respondAndCloseEvent _ _ _ _ _ hid) hkept with
    ⟨other, hmem, hsame, hopened⟩ | ⟨d', ok, hresponse⟩ | ⟨event, hget, hmask⟩
  · rcases List.mem_cons.mp hmem with rfl | hmem
    · have he : w.eventOf other.event.fd = some e := hopened
      by_cases hpermission : isPermissionEvent other.event.mask = true
      · refine .inr (.inl ⟨d, g.io w.trace.length, ?_⟩)
        rw [trace_respondAndCloseEvent, settlement, if_pos hpermission, he]
        exact List.mem_append_right _ List.mem_cons_self
      · obtain rfl := Option.some.inj (he.symm.trans hholds.opened)
        refine .inr (.inr ⟨event₀, ?_, ?_⟩)
        · rw [handed_respondAndCloseEvent]
          exact hholds.handed
        · rw [hholds.heldFor.mask]
          exact Bool.eq_false_iff.mpr hpermission
    · have hne : other.event.fd ≠ h.event.fd := by
        intro heq
        exact hdistinct.1 (heq ▸ List.mem_map_of_mem hmem)
      exact .inl ⟨other, hmem, hsame,
        (eventOf_respondAndCloseEvent_eq_some _ _ _ _ _).mpr ⟨hne, hopened⟩⟩
  · exact .inr (.inl ⟨d', ok, hquiet.subset hresponse⟩)
  · refine .inr (.inr ⟨event, ?_, hmask⟩)
    rw [handed_respondAndCloseEvent]
    exact hget

theorem Kept.motion {l l' : Ledger} (ht : Tidy g l) (hl : Kept lost l)
    (h : Motion g drops (fun h => lost h.id) l l') : Kept lost l' := by
  intro e id hid hkept
  cases h with
  | reorder w held held' hperm =>
    exact (hl e id hid hkept).mono List.prefix_rfl (List.Subset.refl _) hperm.subset (fun _ _ _ h => h)
  | note w held job outcome =>
    rcases List.mem_append.mp hid with hid | hnew
    · exact (hl e id hid hkept).mono List.prefix_rfl (List.subset_append_left _ _) (List.Subset.refl _)
        (fun _ _ _ h => h)
    · cases List.mem_singleton.mp hnew
  | reject w held event hfree =>
    exact (hl e id hid hkept).mono (List.prefix_append _ _) (List.Subset.refl _) (List.Subset.refl _)
      (fun _ _ _ => World.eventOf_handOver_of_some hfree)
  | discard w held event hfree hvalid =>
    rcases List.mem_append.mp hid with hid | hnew
    · refine (hl e id hid hkept).mono (List.prefix_append _ _) (List.subset_append_left _ _)
        (List.Subset.refl _) ?_
      intro h hmem e hopened
      rw [eventOf_closeDescriptor_ne _ _ (ht.fd_ne hfree (fd_nonneg hvalid) h hmem)]
      exact World.eventOf_handOver_of_some hfree hopened
    · cases List.mem_singleton.mp hnew
  | answer w held event d hfree hvalid =>
    have hquiet := respondAndCloseEvent_quiet g.io (w.handOver event) event.fd event.mask d
    have hid := queued_respondAndCloseEvent g.io (w.handOver event) _ _ _ hid
    refine (hl e id hid hkept).mono ?_ hquiet.subset (List.Subset.refl _) ?_
    · rw [handed_respondAndCloseEvent]
      exact List.prefix_append _ _
    · intro h hmem e hopened
      rw [eventOf_respondAndCloseEvent_ne _ _ _ _ _ (ht.fd_ne hfree (fd_nonneg hvalid) h hmem)]
      exact World.eventOf_handOver_of_some hfree hopened
  | hold w held event h hfree hheld =>
    rcases List.mem_append.mp hid with hid | hnew
    · exact (hl e id hid hkept).mono (List.prefix_append _ _) (List.subset_append_left _ _)
        (List.subset_cons_self _ _) (fun _ _ _ => World.eventOf_handOver_of_some hfree)
    · obtain ⟨he, rfl⟩ := Observation.queued.inj (List.mem_singleton.mp hnew)
      obtain rfl := Option.some.inj he
      refine .inl ⟨h, List.mem_cons_self, rfl, ?_⟩
      rw [World.eventOf_observe, ← hheld.fd]
      exact World.eventOf_handOver_self w (fd_nonneg hheld.valid)
  | settle w held h d => exact hl.settle ht d e id hid hkept
  | lose w held h hlost =>
    rcases hl e id hid hkept with ⟨other, hmem, rfl, hopened⟩ | hrest
    · rcases List.mem_cons.mp hmem with rfl | hmem
      · exact absurd hlost hkept
      · exact .inl ⟨other, hmem, rfl, hopened⟩
    · exact .inr hrest

theorem Kept.motions {l l' : Ledger} (ht : Tidy g l) (hl : Kept lost l)
    (h : Motions g drops (fun h => lost h.id) l l') : Kept lost l' := by
  induction h with
  | refl => exact hl
  | tail hms hm ih => exact ih.motion (ht.motions hms) hm

end

/-- The loop runs: it has neither failed nor returned. -/
def MainPc.running : MainPc → Bool
  | failed _ | joining _ | returned _ => false
  | _ => true

section

variable {g : Guard} {s t : GuardState} {a : Move} {id : PromptId}

theorem live_of_running {main : MainPc} (h : main.running = true) : main.live = true := by
  cases main with
  | joining | returned => cases h
  | _ => rfl

/-- Every step of a loop that has failed ends in a loop that has failed. -/
theorem running_of_step (h : s.step g a = some t) (ht : t.main.running = true) :
    s.main.running = true := by
  cases hmain : s.main with
  | failed | joining | returned =>
    simp only [GuardState.step, GuardState.poll, GuardState.readWake, GuardState.tryRecv,
      GuardState.failPending, GuardState.handle, GuardState.endBatch, GuardState.record,
      GuardState.drop, GuardState.join, GuardState.workerRecv, GuardState.workerResolve,
      GuardState.workerNotify, GuardState.workerFail, GuardState.stopWorker] at h
    grind [MainPc.running]
  | _ => rfl

/-- The loop has ended and the worker has stopped without answering the prompt's job. -/
structure Lost (s : GuardState) (id : PromptId) : Prop where
  ended : s.main.running = false
  stopped : s.worker.isStopped = true
  unanswered : ∀ job outcome, job.id = id → .answered job outcome ∉ s.world.trace

theorem Lost.step (hl : Lost s id) (hgone : WorkerGone s) (h : s.step g a = some t) :
    Lost t id := by
  have hinv := step_inv h
  refine ⟨?_, hinv.stays_stopped hl.stopped, ?_⟩
  · cases ht : t.main.running with
    | false => rfl
    | true => exact absurd ((running_of_step h ht).symm.trans hl.ended) (by decide)
  · intro job outcome hjob hanswered
    rcases hinv.answered hanswered with hold | hnew
    · exact hl.unanswered job outcome hjob hold
    · rw [unanswered_of_stopped hgone hl.stopped] at hnew
      cases hnew

/-- The prompts whose events the fallback may lose. -/
theorem lost_of_failing (hconsistent : Consistent g s) (htickets : Tickets s) {order : List PromptId}
    (h : s.step g (.failPending order) = some t) (hid : id ∈ s.promptIds) : Lost t id := by
  have hanswers := answers_step (fun _ _ => Move.noConfusion) h
  obtain ⟨hmain, hended⟩ : s.main = .failing ∧ t.main.running = false := by
    simp only [GuardState.step, GuardState.failPending] at h
    grind [MainPc.running]
  refine ⟨hended, (step_inv h).stays_stopped (hconsistent.gone.seen (by rw [hmain]; rfl)), ?_⟩
  intro job outcome hjob hanswered
  rw [← mem_answers, hanswers, mem_answers] at hanswered
  exact not_answered_of_failing hconsistent htickets hmain hid job outcome hjob hanswered

theorem kept_step (hconsistent : Consistent g s) (htidy : Tidy g s.ledger) (htickets : Tickets s)
    (hs : Kept (Lost s) s.ledger) (h : s.step g a = some t) (ht : t.main.live = true) :
    Kept (Lost t) t.ledger := by
  have hmotions : Motions g (fun _ => True) (fun h => Lost t h.id) s.ledger t.ledger := by
    refine step_motions hconsistent (step_inv h) (fun _ _ _ _ _ _ => trivial) ?_ ?_
    · rintro ⟨order, rfl⟩ _ held hmem
      exact lost_of_failing hconsistent htickets h (mem_promptIds_of_held hmem)
    · rintro rfl
      simp only [GuardState.step, GuardState.drop] at h
      grind [MainPc.live]
  have hkept : Kept (Lost t) s.ledger :=
    fun e id hid hlost => hs e id hid fun hl => hlost (hl.step hconsistent.gone h)
  exact hkept.motions htidy hmotions

end

theorem kept_reachable {g : Guard} {s : GuardState} {P : GuardState → Move → Prop}
    (h : Reachable (guardRun g) P s) : s.main.live = true → Kept (Lost s) s.ledger := by
  refine h.invariant_with (I := fun s => s.main.live = true → Kept (Lost s) s.ledger)
    (J := fun s => Consistent g s ∧ Tidy g s.ledger ∧ Tickets s)
    (fun _ hr => ⟨consistent_reachable hr, tidy_reachable hr, tickets_reachable hr⟩) ?_ ?_
  · rintro _ rfl _ e id hid
    cases hid
  · rintro s a t ⟨hconsistent, htidy, htickets⟩ _ hs _ hstep ht
    exact kept_step hconsistent htidy htickets (hs (live_of_stepped (step_inv hstep) ht)) hstep ht

/-- The loop is done with the prompt: it has processed its completion, or it runs
and no longer holds it. -/
def GuardState.Done (s : GuardState) (id : PromptId) : Prop :=
  s.main.running = true ∧ id ∉ s.promptIds ∨
  s.main.live = true ∧ (∃ job outcome, job.id = id ∧ .answered job outcome ∈ s.world.trace) ∧
    id ∉ s.completions.map (·.id)

/-- An event queued for a job that is done has been answered, unless it asks for
no answer. -/
theorem responded_of_done {g : Guard} {s : GuardState} {P : GuardState → Move → Prop}
    (h : Reachable (guardRun g) P s) {e : EventId} {id : PromptId}
    (hid : .queued (some e) id ∈ s.world.trace) (hdone : s.Done id) {event : GuardEvent}
    (hget : s.world.handed[e]? = some event) (hmask : isPermissionEvent event.mask = true) :
    ∃ d ok, .responded (some e) d ok ∈ s.world.trace := by
  have hlive : s.main.live = true := by
    rcases hdone with ⟨hrunning, _⟩ | ⟨hlive, _⟩
    · exact live_of_running hrunning
    · exact hlive
  have hkept : ¬ Lost s id := by
    intro hlost
    rcases hdone with ⟨hrunning, _⟩ | ⟨_, ⟨job, outcome, hjob, hanswered⟩, _⟩
    · exact absurd (hrunning.symm.trans hlost.ended) (by decide)
    · exact hlost.unanswered job outcome hjob hanswered
  have hnot : id ∉ s.promptIds := by
    intro hpending
    rcases hdone with ⟨_, hnot⟩ | ⟨_, ⟨job, outcome, rfl, hanswered⟩, hnot⟩
    · exact hnot hpending
    · exact hnot (List.mem_map_of_mem ((tickets_reachable h).onItsWay hlive job outcome
        (mem_answers.mpr hanswered) hpending))
  rcases kept_reachable h hlive e id hid hkept with ⟨held, hmem, rfl, _⟩ | hresponse |
    ⟨event', hget', hmask'⟩
  · exact absurd (mem_promptIds_of_held hmem) hnot
  · exact hresponse
  · obtain rfl := Option.some.inj (hget.symm.trans hget')
    exact absurd (hmask.symm.trans hmask') (by decide)

end ConfigGuard
