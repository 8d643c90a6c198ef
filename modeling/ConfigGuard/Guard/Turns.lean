import ConfigGuard.Guard.Delivery

/-!
# First come, first served

The prompts are numbered in the order in which they are started. The worker takes
their jobs in that order, and their events are answered in it.
-/

namespace ConfigGuard
open OsPath Transition AssocList

/-- The later part of a range has all of it from any of its members on. -/
theorem mem_of_suffix_range {l : List Nat} {n a b : Nat} (h : l <:+ List.range n) (ha : a ∈ l)
    (hab : a ≤ b) (hb : b < n) : b ∈ l := by
  obtain ⟨first, hsplit⟩ := h
  rw [List.range_eq_range', eq_comm, List.range'_eq_append_iff] at hsplit
  obtain ⟨k, hk, -, rfl⟩ := hsplit
  rw [List.mem_range'_1] at ha ⊢
  omega

theorem eq_range_of_prefix {l : List Nat} {n : Nat} (h : l <+: List.range n) :
    l = List.range l.length := by
  have hlength : l.length ≤ n := h.length_le.trans_eq List.length_range
  conv_lhs => rw [List.prefix_iff_eq_take.mp h]
  rw [List.take_range, min_eq_left hlength]

/-- The prompts below `n` have been started; their jobs go to the worker and their
completions back to the loop in the order of their numbers. -/
structure InTurn (s : GuardState) (n : Nat) : Prop where
  started : ∀ id, (∃ ev, .queued ev id ∈ s.world.trace) ↔ id < n
  next : s.main.running = true → s.coordinator.nextId = n
  tickets : s.tickets <+: List.range n
  complete : s.worker.isStopped = false → s.tickets = List.range n
  completions : s.main.live = true →
    s.completions.map (·.id) <:+ (answers s.world.trace).map (·.1.id)

section

variable {g : Guard} {s t : GuardState} {a : Move} {n : Nat}

theorem Handled.queued {c c' : PromptCoordinator} {w w' : World} {event : GuardEvent}
    {handling : Handling} (h : Handled g c w event (handling, c', w')) {ev : Option EventId}
    {id : PromptId} (hid : .queued ev id ∈ w'.trace) :
    .queued ev id ∈ w.trace ∨ id ∈ c.pending := by
  cases h with
  | answered => exact .inl (queued_respondAndCloseEvent _ _ _ _ _ hid)
  | unprepared =>
    rw [trace_closeDescriptor, List.mem_append] at hid
    refine .inl (hid.resolve_right ?_)
    intro hnew
    cases List.mem_singleton.mp hnew
  | appended spec key id' prompt _ _ _ _ hlookup =>
    rw [World.trace_observe, List.mem_append] at hid
    refine hid.imp_right ?_
    intro hnew
    obtain ⟨-, rfl⟩ := Observation.queued.inj (List.mem_singleton.mp hnew)
    exact AList.lookup_isSome.mp (by rw [hlookup]; rfl)
  | _ => exact .inl hid

/-- Steps that start no prompt and answer no job. -/
theorem InTurn.advance (hs : InTurn s n) (h : s.step g a = some t)
    (hqueued : ∀ ev id, .queued ev id ∈ t.world.trace → .queued ev id ∈ s.world.trace ∨ id < n)
    (hnext : t.main.running = true → t.coordinator.nextId = s.coordinator.nextId)
    (hanswers : answers t.world.trace = answers s.world.trace)
    (hunanswered : t.unanswered = s.unanswered ∨
      t.worker.isStopped = true ∧ t.unanswered = [])
    (hcompletions : t.main.live = true → t.completions <:+ s.completions) : InTurn t n := by
  have hinv := step_inv h
  have htickets : t.tickets <+: s.tickets := by
    rw [GuardState.tickets, GuardState.tickets, hanswers]
    rcases hunanswered with hsame | ⟨-, hnone⟩
    · rw [hsame]
    · rw [hnone]
      exact (List.prefix_append_right_inj _).mpr List.nil_prefix
  refine ⟨?_, ?_, htickets.trans hs.tickets, ?_, ?_⟩
  · intro id
    rw [← hs.started id]
    constructor
    · rintro ⟨ev, hid⟩
      rcases hqueued ev id hid with hold | hlt
      · exact ⟨ev, hold⟩
      · exact (hs.started id).mpr hlt
    · rintro ⟨ev, hid⟩
      exact ⟨ev, hinv.trace hid⟩
  · intro ht
    exact (hnext ht).trans (hs.next (running_of_step h ht))
  · intro ht
    have hsame : t.unanswered = s.unanswered := by
      refine hunanswered.resolve_right ?_
      rintro ⟨hstopped, -⟩
      cases ht.symm.trans hstopped
    have hworker : s.worker.isStopped = false := by
      by_contra hstopped
      exact absurd (hinv.stays_stopped (Bool.not_eq_false _ ▸ hstopped)) (by rw [ht]; decide)
    rw [GuardState.tickets, hanswers, hsame]
    exact hs.complete hworker
  · intro ht
    rw [hanswers]
    exact ((hcompletions ht).map _).trans (hs.completions (live_of_stepped hinv ht))

/-- The worker answers the job it holds, which is the next in turn. -/
theorem InTurn.answer (hs : InTurn s n) {current : Int → Nat → Bool}
    {askAnswer : PromptRequest → Except String PromptAnswer}
    (h : s.step g (.workerResolve current askAnswer) = some t) : InTurn t n := by
  obtain ⟨job, outcome, hworker, _, hcases⟩ := workerResolve_cases h
  have hheld : s.tickets =
      (answers s.world.trace).map (·.1.id) ++ [job.id] ++ s.jobs.map (·.id) := by
    rw [GuardState.tickets, GuardState.unanswered, hworker, List.append_assoc]
    rfl
  have hanswers : answers (s.world.observe (.answered job outcome)).trace =
      answers s.world.trace ++ [(job, outcome)] := answers_append _ _
  have hstarted : ∀ id, (∃ ev, Observation.queued ev id ∈
      (s.world.observe (.answered job outcome)).trace) ↔ id < n := by
    intro id
    rw [← hs.started id]
    simp [World.observe]
  rcases hcases with ⟨hlive, rfl⟩ | ⟨hdead, rfl⟩
  · have htickets : GuardState.tickets { s with
        world := s.world.observe (.answered job outcome)
        completions := s.completions ++ [⟨job.id, outcome⟩]
        worker := .notifying } = s.tickets := by
      rw [hheld, GuardState.tickets, hanswers, List.map_append]
      rfl
    refine ⟨hstarted, hs.next, htickets ▸ hs.tickets, ?_, ?_⟩
    · intro _
      rw [htickets]
      exact hs.complete (by rw [hworker]; rfl)
    · intro _
      obtain ⟨first, hfirst⟩ := hs.completions hlive
      refine ⟨first, ?_⟩
      rw [hanswers, List.map_append, List.map_append, ← List.append_assoc, hfirst]
      rfl
  · refine ⟨hstarted, hs.next, ?_, ?_, ?_⟩
    · refine List.IsPrefix.trans ?_ hs.tickets
      rw [hheld, GuardState.tickets, hanswers, List.map_append]
      exact (List.prefix_append_right_inj _).mpr List.nil_prefix
    · intro hstopped
      cases hstopped
    · intro hlive
      exact absurd (hdead.symm.trans hlive) Bool.false_ne_true

/-- A job with the next number is sent to a worker that runs. -/
theorem InTurn.send (hs : InTurn s n) {job : PromptJob} {ev : Option EventId}
    (hrunning : s.main.running = true) (hworker : s.worker.isStopped = false)
    (hid : job.id = s.coordinator.nextId) (hnext : t.coordinator.nextId = s.coordinator.nextId + 1)
    (htrace : t.world.trace = s.world.trace ++ [.queued ev job.id])
    (hunanswered : t.unanswered = s.unanswered ++ [job]) (hlive : s.main.live = true)
    (hcompletions : t.completions = s.completions) : InTurn t (n + 1) := by
  have hn : job.id = n := hid.trans (hs.next hrunning)
  have hanswers : answers t.world.trace = answers s.world.trace := by
    rw [htrace, answers_append]
    exact List.append_nil _
  have htickets : t.tickets = List.range (n + 1) := by
    rw [GuardState.tickets, hanswers, hunanswered, List.map_append, ← List.append_assoc,
      List.range_succ, ← hs.complete hworker, ← hn]
    rfl
  refine ⟨?_, ?_, htickets ▸ List.prefix_rfl, fun _ => htickets, ?_⟩
  · intro id
    rw [Nat.lt_succ_iff_lt_or_eq, ← hs.started id, htrace]
    constructor
    · rintro ⟨ev', hmem⟩
      rcases List.mem_append.mp hmem with hold | hnew
      · exact .inl ⟨ev', hold⟩
      · exact .inr ((Observation.queued.inj (List.mem_singleton.mp hnew)).2.trans hn)
    · rintro (⟨ev', hmem⟩ | rfl)
      · exact ⟨ev', List.mem_append_left _ hmem⟩
      · exact ⟨ev, List.mem_append_right _ (by rw [hn]; exact List.mem_singleton_self _)⟩
  · intro _
    rw [hnext, hs.next hrunning]
  · intro _
    rw [hcompletions, hanswers]
    exact hs.completions hlive

theorem inTurn_step (hconsistent : Consistent g s) (hs : InTurn s n) (h : s.step g a = some t) :
    ∃ n', InTurn t n' := by
  by_cases ha : ∃ current askAnswer, a = .workerResolve current askAnswer
  · obtain ⟨current, askAnswer, rfl⟩ := ha
    exact ⟨n, hs.answer h⟩
  · have hanswers := answers_step (fun current askAnswer heq => ha ⟨current, askAnswer, heq⟩) h
    have hadvance := fun hqueued hnext => hs.advance h hqueued hnext hanswers
    have hinv := step_inv h
    cases hinv with
    | handled event events tail result c w hmain _ hhandled =>
      refine ⟨n, hadvance ?_ (fun _ => hhandled.finished_keeps.1) (.inl rfl)
        (fun _ => List.suffix_rfl)⟩
      intro ev id hid
      refine (hhandled.queued hid).imp_right ?_
      intro hpending
      have hlt := (hconsistent.kept (by rw [hmain]; rfl)).fresh id
        (mem_promptIds.mpr (.inr hpending))
      rwa [hs.next (by rw [hmain]; rfl)] at hlt
    | sent event events tail job prompt c w hmain _ hhandled hworker =>
      cases hhandled with
      | sending spec _ _ _ _ _ hjob =>
        exact ⟨n + 1, hs.send (by rw [hmain]; rfl) hworker hjob.1 rfl (World.trace_observe _ _)
          (List.append_assoc _ _ _).symm (by rw [hmain]; rfl) rfl⟩
    | unsent event events tail job prompt c w error hmain _ hhandled =>
      refine ⟨n, hadvance ?_ nofun (.inl rfl) (fun _ => List.suffix_rfl)⟩
      intro ev id hid
      cases hhandled with
      | sending =>
        exact .inl (queued_respondAndCloseEvent g.io (s.world.handOver event) _ _ _ hid)
    | completed closed ready completion completions result c w main hmain hcompletions hcompleted =>
      refine ⟨n, hadvance ?_ ?_ (.inl rfl) ?_⟩
      · intro ev id hid
        cases hcompleted with
        | completed => exact .inl (queued_respondToEvents _ _ _ _ hid)
        | _ => exact .inl hid
      · intro _
        cases hcompleted <;> rfl
      · intro _
        rw [hcompletions]
        exact List.suffix_cons _ _
    | fellBack =>
      exact ⟨n, hadvance (fun _ _ hid => .inl (queued_failPrompts _ _ _ hid)) nofun (.inl rfl)
        (fun _ => List.suffix_rfl)⟩
    | dropped => exact ⟨n, hadvance (fun _ _ => .inl) nofun (.inl rfl) nofun⟩
    | received job jobs hworker hjobs =>
      refine ⟨n, hadvance (fun _ _ => .inl) (fun _ => rfl) (.inl ?_) (fun _ => List.suffix_rfl)⟩
      rw [GuardState.unanswered, GuardState.unanswered, hworker, hjobs]
      rfl
    | resolved job current ask => exact absurd ⟨current, ask, rfl⟩ ha
    | notified hworker =>
      refine ⟨n, hadvance (fun _ _ => .inl) (fun _ => rfl) (.inl ?_) (fun _ => List.suffix_rfl)⟩
      rw [GuardState.unanswered, GuardState.unanswered, hworker]
      rfl
    | stopped _ panicked observed hobserved =>
      refine ⟨n, hadvance ?_ (fun _ => rfl) (.inr ⟨rfl, rfl⟩) (fun _ => List.suffix_rfl)⟩
      intro ev id hid
      refine .inl ((List.mem_append.mp hid).resolve_right ?_)
      intro hnew
      obtain ⟨_, _, _, heq⟩ := hobserved _ hnew
      cases heq
    | _ =>
      exact ⟨n, hadvance (fun _ _ => .inl) (fun _ => rfl) (.inl rfl) (fun _ => List.suffix_rfl)⟩

theorem inTurn_initial : InTurn .initial 0 := by
  refine ⟨?_, fun _ => rfl, List.prefix_rfl, fun _ => rfl, fun _ => List.suffix_rfl⟩
  intro id
  refine ⟨?_, fun hid => absurd hid (Nat.not_lt_zero id)⟩
  rintro ⟨ev, hid⟩
  cases hid

theorem inTurn_reachable {P : GuardState → Move → Prop} (h : Reachable (guardRun g) P s) :
    ∃ n, InTurn s n := by
  refine Reachable.invariant_with (I := fun s => ∃ n, InTurn s n) (J := Consistent g)
    (fun _ hr => consistent_reachable hr) ?_ ?_ h
  · rintro _ rfl
    exact ⟨0, inTurn_initial⟩
  · rintro s a t hconsistent _ ⟨n, hs⟩ _ hstep
    exact inTurn_step hconsistent hs hstep

/-- An answered job that is no longer on its way back has been answered after all
earlier ones, and they are not on their way back either. -/
theorem InTurn.earlier (hs : InTurn s n) (hlive : s.main.live = true) {job : PromptJob}
    {outcome : PromptOutcome} (hanswered : .answered job outcome ∈ s.world.trace)
    (hback : job.id ∉ s.completions.map (·.id)) {earlier : PromptId} (hlt : earlier < job.id) :
    (∃ job' outcome', job'.id = earlier ∧ .answered job' outcome' ∈ s.world.trace) ∧
      earlier ∉ s.completions.map (·.id) := by
  have hrange := eq_range_of_prefix ((List.prefix_append _ _).trans hs.tickets)
  have hmem : job.id ∈ (answers s.world.trace).map (·.1.id) :=
    List.mem_map_of_mem (f := fun answer => answer.1.id) (mem_answers.mpr hanswered)
  rw [hrange, List.mem_range] at hmem
  constructor
  · have hearlier : earlier ∈ (answers s.world.trace).map (·.1.id) := by
      rw [hrange, List.mem_range]
      exact hlt.trans hmem
    obtain ⟨⟨job', outcome'⟩, hanswer, hid⟩ := List.mem_map.mp hearlier
    exact ⟨job', outcome', hid, mem_answers.mp hanswer⟩
  · intro hwaits
    have hsuffix := hs.completions hlive
    rw [hrange] at hsuffix
    exact hback (mem_of_suffix_range hsuffix hwaits hlt.le hmem)

/-- The events that ask for an answer and were queued for a prompt before one whose
answer has reached its events have all been answered. -/
def ServedInTurn (s : GuardState) : Prop :=
  ∀ job outcome e d ok, .answered job outcome ∈ s.world.trace →
    .queued (some e) job.id ∈ s.world.trace → .responded (some e) d ok ∈ s.world.trace →
    ∀ earlier e' event, earlier < job.id → .queued (some e') earlier ∈ s.world.trace →
      s.world.handed[e']? = some event → isPermissionEvent event.mask = true →
      ∃ d' ok', .responded (some e') d' ok' ∈ s.world.trace

theorem servedInTurn_of_live {P : GuardState → Move → Prop} (h : Reachable (guardRun g) P s)
    (hlive : s.main.live = true) : ServedInTurn s := by
  intro job outcome e d ok hanswered hqueued hresponse earlier e' event hlt hearlier hget hmask
  obtain ⟨n, hs⟩ := inTurn_reachable h
  have hback : job.id ∉ s.completions.map (·.id) := by
    intro hwaits
    have hflight : job.id ∈ s.inFlight := List.mem_append_right _ hwaits
    have hpending := ((consistent_reachable h).kept hlive).inFlight_subset hflight
    exact ((delivered_reachable h).waiting e job.id d ok hqueued hresponse).1 hpending
  exact responded_of_done h hearlier (.inr ⟨hlive, hs.earlier hlive hanswered hback hlt⟩) hget hmask

/-- Once the coordinator is dropped, only answers of the worker are observed. -/
theorem Stepped.dead_world (h : Stepped g s a t) (ht : t.main.live = false) :
    t.world.handed = s.world.handed ∧ ∀ o ∈ t.world.trace,
      o ∈ s.world.trace ∨ ∃ job outcome, o = .answered job outcome := by
  cases h with
  | control _ _ _ _ _ hlive' => cases hlive'.symm.trans ht
  | handled _ _ _ result => cases result <;> cases ht
  | sent | unsent | recorded | fellBack => cases ht
  | completed _ _ _ _ _ _ _ _ _ _ _ hmain' =>
    rcases hmain' with ⟨rfl, _⟩ | ⟨error, rfl, _⟩ <;> cases ht
  | resolved _ _ _ _ _ _ hlive | notified _ hlive => cases hlive.symm.trans ht
  | stopped _ _ observed hobserved =>
    refine ⟨rfl, ?_⟩
    intro o hmem
    refine (List.mem_append.mp hmem).imp_right ?_
    intro hnew
    obtain ⟨job, outcome, _, rfl⟩ := hobserved o hnew
    exact ⟨job, outcome, rfl⟩
  | dropped | joined | received => exact ⟨rfl, fun _ => .inl⟩

theorem servedInTurn_reachable {P : GuardState → Move → Prop} (h : Reachable (guardRun g) P s) :
    ServedInTurn s := by
  refine Reachable.invariant_with (I := ServedInTurn) (J := fun s => Reachable (guardRun g) P s)
    (fun _ hr => hr) ?_ ?_ h
  · rintro _ rfl job outcome e d ok hanswered
    cases hanswered
  · intro s a t hr ht hs _ hstep
    cases hlive : t.main.live with
    | true => exact servedInTurn_of_live ht hlive
    | false =>
      have hinv := step_inv hstep
      obtain ⟨hhanded, htrace⟩ := hinv.dead_world hlive
      have hqueued : ∀ e id, .queued (some e) id ∈ t.world.trace →
          .queued (some e) id ∈ s.world.trace := by
        intro e id hmem
        refine (htrace _ hmem).resolve_right ?_
        rintro ⟨job, outcome, heq⟩
        cases heq
      intro job outcome e d ok hanswered hid hresponse earlier e' event hlt hearlier hget hmask
      have hresponse : .responded (some e) d ok ∈ s.world.trace := by
        refine (htrace _ hresponse).resolve_right ?_
        rintro ⟨job, outcome, heq⟩
        cases heq
      -- the job of an event with a response is answered no more
      have hanswered : .answered job outcome ∈ s.world.trace := by
        refine (hinv.answered hanswered).resolve_right ?_
        intro hjob
        exact ((delivered_reachable hr).waiting e job.id d ok (hqueued _ _ hid) hresponse).2 job
          hjob rfl
      obtain ⟨d', ok', hresponse'⟩ := hs job outcome e d ok hanswered (hqueued _ _ hid) hresponse
        earlier e' event hlt (hqueued _ _ hearlier) (hhanded ▸ hget) hmask
      exact ⟨d', ok', hinv.trace hresponse'⟩

end

/-- In every run the prompts are numbered from 0 in the order in which they are
started. The worker ends its jobs in that order and holds the next one, the others
wait in it; none is left out while the worker runs. An event gets what the worker
has made of its prompt only after all events of earlier prompts have been answered. -/
theorem first_come_first_served (g : Guard) (s : GuardState)
    (h : Reachable (guardRun g) anyStep s) :
    (∃ n, (∀ id, (∃ e, .queued (some e) id ∈ s.world.trace) ↔ id < n) ∧
      (answers s.world.trace).map (·.1.id) ++ s.unanswered.map (·.id) <+: List.range n ∧
      (s.worker.isStopped = false →
        (answers s.world.trace).map (·.1.id) ++ s.unanswered.map (·.id) = List.range n)) ∧
    ∀ job outcome e d ok, .answered job outcome ∈ s.world.trace →
      .queued (some e) job.id ∈ s.world.trace → .responded (some e) d ok ∈ s.world.trace →
      ∀ earlier e' event, earlier < job.id → .queued (some e') earlier ∈ s.world.trace →
        s.world.handed[e']? = some event → isPermissionEvent event.mask = true →
        ∃ d' ok', .responded (some e') d' ok' ∈ s.world.trace := by
  obtain ⟨n, hs⟩ := inTurn_reachable h
  refine ⟨⟨n, ?_, hs.tickets, hs.complete⟩, servedInTurn_reachable h⟩
  intro id
  rw [← hs.started id]
  constructor
  · rintro ⟨e, hid⟩
    exact ⟨some e, hid⟩
  · rintro ⟨ev, hid⟩
    obtain ⟨e, _, _, rfl, _⟩ := queuesPrompts_reachable h ev id hid
    exact ⟨e, hid⟩

/-- Two `cat` processes open one of pi's files each, and both are denied. -/
def deniedInTurnMoves : List Move :=
  [.poll true,
    .readBatch [catOpens, { catOpens with
      fd := 6, pid := 43, inspected := some (catGeneration 43 200) }] (.ok ()),
    .handle, .record, .handle, .record,
    .workerRecv, .workerResolve (fun _ _ => true) (fun _ => .ok (.explicit .deny)), .workerNotify,
    .workerRecv, .workerResolve (fun _ _ => true) (fun _ => .ok (.explicit .deny)), .workerNotify,
    .endBatch, .poll false, .readWake, .readWake, .tryRecv, .tryRecv]

def deniedInTurn : GuardState := runFrom (guardRun piGuard) anyStep .initial deniedInTurnMoves

theorem deniedInTurn_reachable : Reachable (guardRun piGuard) anyStep deniedInTurn :=
  ⟨.initial, rfl, runFrom_steps (by decide)⟩

theorem first_come_first_served_deniedInTurn :
    ∃ d ok, .responded (some 0) d ok ∈ deniedInTurn.world.trace :=
  (first_come_first_served piGuard deniedInTurn deniedInTurn_reachable).2 _ _ 1 .deny true
    (List.mem_of_getElem? (i := 3) rfl) (List.mem_of_getElem? (i := 1) rfl)
    (List.mem_of_getElem? (i := 6) rfl) 0 0 catOpens (by decide) (List.mem_of_getElem? (i := 0) rfl)
    rfl rfl

end ConfigGuard
