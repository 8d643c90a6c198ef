import ConfigGuard.Guard.Steps
import Mathlib.Logic.Relation

/-!
# The ledger of held events

The guard seen from the events alone: an event handed to it is answered at
once, or held for a prompt and settled later. The ledger is the purpose of the
coordinator's maps; every step of the guard is a sequence of motions of it.
-/

namespace ConfigGuard
open OsPath

/-- An event the guard holds, with the prompt it waits for and the prompt's key. -/
structure HeldEvent where
  id : PromptId
  key : Option PromptDecisionKey
  event : PendingEvent

structure Ledger where
  world : World
  held : List HeldEvent

/-- Why an event whose policy decision is a prompt may get the decision `d`. -/
inductive PromptGrounded (g : Guard) (handed : List GuardEvent) (before : List Observation)
    (e : EventId) (evaluation : GuardEvaluation) (default d : Decision) : Prop
  /-- an explicit Allow to a prompt with the same authorization key -/
  | granted (job : PromptJob) (a b : AncestryAuthorization)
      (hanswered : .answered job (.answer .allow true) ∈ before)
      (hauthorization : evaluation.authorization = some a) (hjob : job.authorization = some b)
      (hkey : b.key = a.key) (hdecision : d = .allow)
  /-- the answer to a prompt with the same key, or to the very prompt it waits for -/
  | answered (job : PromptJob) (explicit : Bool)
      (hanswered : .answered job (.answer d explicit) ∈ before)
      (hkey : job.key = evaluation.promptKey)
      (hqueued : evaluation.promptKey = none → .queued (some e) job.id ∈ before)
  | default (hdecision : d = default)
  | defaultOfKey (e' : EventId) (event' : GuardEvent) (evaluation' : GuardEvaluation)
      (key : PromptDecisionKey) (reason : DecisionReason) (scope : Path) (hearlier : e' < e)
      (hhanded : handed[e']? = some event') (hevaluation : evaluationOf g event' = some evaluation')
      (hkey : evaluation.promptKey = some key) (hkey' : evaluation'.promptKey = some key)
      (hdecision : evaluation'.policyDecision = .prompt reason d scope)

/-- Why the event `e` may get the decision `d`. -/
inductive Grounded (g : Guard) (handed : List GuardEvent) (before : List Observation)
    (e : EventId) (event : GuardEvent) (d : Decision) : Prop
  | unwatched (target : Path) (htarget : event.target = .ok target)
      (hwatched : isWatchedPath target g.paths g.excludedPaths = false) (hdecision : d = .allow)
  | policy (evaluation : GuardEvaluation) (hevaluation : evaluationOf g event = some evaluation)
      (hdecision : evaluation.policyDecision = d) (hfinal : d = .allow ∨ d = .deny)
  | prompt (evaluation : GuardEvaluation) (reason : DecisionReason) (default : Decision)
      (scope : Path) (hevaluation : evaluationOf g event = some evaluation)
      (hdecision : evaluation.policyDecision = .prompt reason default scope)
      (hgrounded : PromptGrounded g handed before e evaluation default d)

theorem Grounded.mono {g : Guard} {handed handed' : List GuardEvent}
    {before before' : List Observation} {e : EventId} {event : GuardEvent} {d : Decision}
    (h : Grounded g handed before e event d) (hhanded : handed <+: handed')
    (hbefore : before ⊆ before') : Grounded g handed' before' e event d := by
  cases h with
  | unwatched target htarget hwatched hdecision =>
    exact .unwatched target htarget hwatched hdecision
  | policy evaluation hevaluation hdecision hfinal =>
    exact .policy evaluation hevaluation hdecision hfinal
  | prompt evaluation reason default scope hevaluation hdecision hgrounded =>
    refine .prompt evaluation reason default scope hevaluation hdecision ?_
    cases hgrounded with
    | granted job a b hanswered hauthorization hjob hkey hd =>
      exact .granted job a b (hbefore hanswered) hauthorization hjob hkey hd
    | answered job explicit hanswered hkey hqueued =>
      exact .answered job explicit (hbefore hanswered) hkey (fun hnone => hbefore (hqueued hnone))
    | default hd => exact .default hd
    | defaultOfKey e' event' evaluation' key reason' scope' hearlier hhanded' hevaluation' hkey
        hkey' hdecision' =>
      refine .defaultOfKey e' event' evaluation' key reason' scope' hearlier ?_ hevaluation' hkey
        hkey' hdecision'
      obtain ⟨rest, rfl⟩ := hhanded
      exact List.getElem?_append_left (List.getElem?_eq_some_iff.mp hhanded').1 ▸ hhanded'

/-- The prompt an event with the decision of `evaluation` is held for. -/
structure HeldFor (g : Guard) (event : GuardEvent) (h : HeldEvent) : Prop where
  fd : event.fd = h.event.fd
  mask : event.mask = h.event.mask
  valid : ensureEventDescriptor event.mask event.fd = .ok ()
  prompted : ∃ evaluation reason scope, evaluationOf g event = some evaluation ∧
    evaluation.policyDecision = .prompt reason h.event.defaultDecision scope ∧
    evaluation.promptKey = h.key

/-- `drops` are the events that may be neither answered nor held, and `loses`
the held events that may be given up. -/
inductive Motion (g : Guard) (drops : GuardEvent → Prop) (loses : HeldEvent → Prop) :
    Ledger → Ledger → Prop
  | reorder (w : World) (held held' : List HeldEvent) (hperm : held.Perm held') :
      Motion g drops loses ⟨w, held⟩ ⟨w, held'⟩
  | note (w : World) (held : List HeldEvent) (job : PromptJob) (outcome : PromptOutcome) :
      Motion g drops loses ⟨w, held⟩ ⟨w.observe (.answered job outcome), held⟩
  | reject (w : World) (held : List HeldEvent) (event : GuardEvent)
      (hfree : w.descriptorIsFree event = true) (hdrops : drops event) :
      Motion g drops loses ⟨w, held⟩ ⟨w.handOver event, held⟩
  | discard (w : World) (held : List HeldEvent) (event : GuardEvent)
      (hfree : w.descriptorIsFree event = true)
      (hvalid : ensureEventDescriptor event.mask event.fd = .ok ()) (hdrops : drops event) :
      Motion g drops loses ⟨w, held⟩ ⟨(closeDescriptor g.io (w.handOver event) event.fd).2, held⟩
  | answer (w : World) (held : List HeldEvent) (event : GuardEvent) (d : Decision)
      (hfree : w.descriptorIsFree event = true)
      (hvalid : ensureEventDescriptor event.mask event.fd = .ok ())
      (hgrounded : Grounded g w.handed w.trace w.handed.length event d) :
      Motion g drops loses ⟨w, held⟩
        ⟨(respondAndCloseEvent g.io (w.handOver event) event.fd event.mask d).2, held⟩
  | hold (w : World) (held : List HeldEvent) (event : GuardEvent) (h : HeldEvent)
      (hfree : w.descriptorIsFree event = true) (hheld : HeldFor g event h) :
      Motion g drops loses ⟨w, held⟩
        ⟨(w.handOver event).observe (.queued (some w.handed.length) h.id), h :: held⟩
  | settle (w : World) (held : List HeldEvent) (h : HeldEvent) (d : Decision)
      (hreason : d = h.event.defaultDecision ∨ ∃ job explicit,
        .answered job (.answer d explicit) ∈ w.trace ∧ job.id = h.id ∧ job.key = h.key) :
      Motion g drops loses ⟨w, h :: held⟩
        ⟨(respondAndCloseEvent g.io w h.event.fd h.event.mask d).2, held⟩
  | lose (w : World) (held : List HeldEvent) (h : HeldEvent) (hloses : loses h) :
      Motion g drops loses ⟨w, h :: held⟩ ⟨w, held⟩

/-- Sequences of motions. -/
abbrev Motions (g : Guard) (drops : GuardEvent → Prop) (loses : HeldEvent → Prop) :
    Ledger → Ledger → Prop :=
  Relation.ReflTransGen (Motion g drops loses)

/-- The guard holds `h` for the handed event `e`, whose descriptor is open. -/
structure Holds (g : Guard) (w : World) (h : HeldEvent) (e : EventId) (event : GuardEvent) :
    Prop where
  opened : w.eventOf h.event.fd = some e
  handed : w.handed[e]? = some event
  heldFor : HeldFor g event h
  queued : .queued (some e) h.id ∈ w.trace

/-- Every response in the trace had a reason when it was made. -/
def Justified (g : Guard) (handed : List GuardEvent) (log : List Observation) : Prop :=
  ∀ i ev d ok, log[i]? = some (.responded ev d ok) →
    ∃ e event, ev = some e ∧ handed[e]? = some event ∧ Grounded g handed (log.take i) e event d

structure Tidy (g : Guard) (l : Ledger) : Prop where
  distinct : (l.held.map (·.event.fd)).Nodup
  holds : ∀ h ∈ l.held, ∃ e event, Holds g l.world h e event
  descriptors : ∀ fd e, l.world.eventOf fd = some e →
    ∃ event, l.world.handed[e]? = some event ∧ event.fd = fd
  justified : Justified g l.world.handed l.world.trace

theorem handed_of_prefix {handed handed' : List GuardEvent} (h : handed <+: handed') {e : EventId}
    {event : GuardEvent} (he : handed[e]? = some event) : handed'[e]? = some event := by
  obtain ⟨rest, rfl⟩ := h
  rw [List.getElem?_append_left (List.getElem?_eq_some_iff.mp he).1]
  exact he

theorem Holds.of_world {g : Guard} {w w' : World} {h : HeldEvent} {e : EventId}
    {event : GuardEvent} (hh : Holds g w h e event) (hhanded : w.handed <+: w'.handed)
    (hopen : w'.eventOf h.event.fd = some e) (htrace : w.trace ⊆ w'.trace) :
    Holds g w' h e event :=
  ⟨hopen, handed_of_prefix hhanded hh.handed, hh.heldFor, htrace hh.queued⟩

/-- New observations need a reason in the old trace. -/
theorem Justified.append {g : Guard} {handed handed' : List GuardEvent}
    {log more : List Observation} (h : Justified g handed log) (hhanded : handed <+: handed')
    (hmore : ∀ ev d ok, .responded ev d ok ∈ more → ∃ e event, ev = some e ∧
      handed'[e]? = some event ∧ Grounded g handed' log e event d) :
    Justified g handed' (log ++ more) := by
  intro i ev d ok hi
  by_cases hlt : i < log.length
  · rw [List.getElem?_append_left hlt] at hi
    obtain ⟨e, event, hev, hevent, hgrounded⟩ := h i ev d ok hi
    refine ⟨e, event, hev, handed_of_prefix hhanded hevent, ?_⟩
    rw [List.take_append_of_le_length hlt.le]
    exact hgrounded.mono hhanded (List.Subset.refl _)
  · rw [List.getElem?_append_right (not_lt.mp hlt)] at hi
    obtain ⟨e, event, hev, hevent, hgrounded⟩ := hmore ev d ok (List.mem_of_getElem? hi)
    refine ⟨e, event, hev, hevent, hgrounded.mono (List.prefix_rfl) ?_⟩
    intro o ho
    rw [List.take_append, List.mem_append, List.take_of_length_le (not_lt.mp hlt)]
    exact .inl ho

/-- Observations that are no responses need no reason. -/
theorem Justified.append_silent {g : Guard} {handed handed' : List GuardEvent}
    {log more : List Observation} (h : Justified g handed log) (hhanded : handed <+: handed')
    (hmore : ∀ ev d ok, .responded ev d ok ∉ more) : Justified g handed' (log ++ more) :=
  h.append hhanded (fun ev d ok hmem => absurd hmem (hmore ev d ok))

/-- What comes before a response is the part of the trace its reason is found in. -/
theorem justified_split {g : Guard} {handed : List GuardEvent}
    {log before after : List Observation} {ev : Option EventId} {d : Decision} {ok : Bool}
    (h : Justified g handed log) (hlog : log = before ++ .responded ev d ok :: after) :
    ∃ e event, ev = some e ∧ handed[e]? = some event ∧ Grounded g handed before e event d := by
  have hget : log[before.length]? = some (.responded ev d ok) := by
    rw [hlog, List.getElem?_append_right le_rfl, Nat.sub_self]
    rfl
  have htake : log.take before.length = before := by
    rw [hlog]
    exact List.take_left
  obtain ⟨e, event, hev, hevent, hgrounded⟩ := h _ ev d ok hget
  rw [htake] at hgrounded
  exact ⟨e, event, hev, hevent, hgrounded⟩

/-- A held event's decision by its prompt or its default has a reason. -/
theorem grounded_of_settle {g : Guard} {w : World} {h : HeldEvent} {e : EventId}
    {event : GuardEvent} {d : Decision} (hh : Holds g w h e event)
    (hreason : d = h.event.defaultDecision ∨ ∃ job explicit,
      .answered job (.answer d explicit) ∈ w.trace ∧ job.id = h.id ∧ job.key = h.key) :
    Grounded g w.handed w.trace e event d := by
  obtain ⟨evaluation, reason, scope, hevaluation, hdecision, hkey⟩ := hh.heldFor.prompted
  refine .prompt evaluation reason _ scope hevaluation hdecision ?_
  rcases hreason with hd | ⟨job, explicit, hanswered, hid, hjob⟩
  · exact .default hd
  · refine .answered job explicit hanswered (hjob.trans hkey.symm) ?_
    intro _
    rw [hid]
    exact hh.queued

section Motions

variable {g : Guard} {w : World} {held : List HeldEvent}

/-- A descriptor being handed out is none of those held. -/
theorem Tidy.fd_ne (hl : Tidy g ⟨w, held⟩) {event : GuardEvent}
    (hfree : w.descriptorIsFree event = true) (hnonneg : 0 ≤ event.fd) :
    ∀ h ∈ held, h.event.fd ≠ event.fd := by
  intro h hmem heq
  obtain ⟨e, _, hh⟩ := hl.holds h hmem
  have hnone : w.eventOf event.fd = none := by
    have hnot : ¬ event.fd < 0 := by omega
    simpa [World.descriptorIsFree, hnot] using hfree
  have hsome : w.eventOf event.fd = some e := heq ▸ hh.opened
  rw [hnone] at hsome
  cases hsome

/-- An event is handed over and its descriptor closed again, with or without
a response. -/
theorem Tidy.pass (hl : Tidy g ⟨w, held⟩) {event : GuardEvent} {w' : World}
    {more : List Observation} (hfree : w.descriptorIsFree event = true)
    (hnonneg : 0 ≤ event.fd) (hhanded : w'.handed = w.handed ++ [event])
    (hself : w'.eventOf event.fd = none)
    (hother : ∀ fd, fd ≠ event.fd → w'.eventOf fd = w.eventOf fd)
    (htrace : w'.trace = w.trace ++ more)
    (hmore : ∀ ev d ok, .responded ev d ok ∈ more → ev = some w.handed.length ∧
      Grounded g w.handed w.trace w.handed.length event d) : Tidy g ⟨w', held⟩ := by
  have hpre : w.handed <+: w'.handed := hhanded ▸ List.prefix_append _ _
  refine ⟨hl.distinct, ?_, ?_, ?_⟩
  · intro h hmem
    obtain ⟨e, other, hh⟩ := hl.holds h hmem
    refine ⟨e, other, hh.of_world hpre ?_ ?_⟩
    · rw [hother _ (hl.fd_ne hfree hnonneg h hmem)]
      exact hh.opened
    · rw [htrace]
      exact List.subset_append_left _ _
  · intro fd e hfd
    by_cases heq : fd = event.fd
    · subst heq
      cases hself.symm.trans hfd
    · rw [hother fd heq] at hfd
      obtain ⟨other, hget, hother⟩ := hl.descriptors fd e hfd
      exact ⟨other, handed_of_prefix hpre hget, hother⟩
  · rw [htrace]
    refine hl.justified.append hpre ?_
    intro ev d ok hmem
    obtain ⟨rfl, hgrounded⟩ := hmore ev d ok hmem
    refine ⟨w.handed.length, event, rfl, ?_, hgrounded.mono hpre (List.Subset.refl _)⟩
    rw [hhanded]
    exact List.getElem?_concat_length

/-- An event is handed over and its descriptor stays open. -/
theorem Tidy.open (hl : Tidy g ⟨w, held⟩) {event : GuardEvent}
    (hfree : w.descriptorIsFree event = true) : Tidy g ⟨w.handOver event, held⟩ := by
  have hpre : w.handed <+: (w.handOver event).handed := List.prefix_append _ _
  refine ⟨hl.distinct, ?_, ?_, ?_⟩
  · intro h hmem
    obtain ⟨e, other, hh⟩ := hl.holds h hmem
    exact ⟨e, other, hh.of_world hpre (World.eventOf_handOver_of_some hfree hh.opened)
      (List.Subset.refl _)⟩
  · intro fd e hfd
    rcases World.eventOf_handOver_eq_some hfd with ⟨rfl, rfl⟩ | hfd
    · exact ⟨event, List.getElem?_concat_length, rfl⟩
    · obtain ⟨other, hget, hother⟩ := hl.descriptors fd e hfd
      exact ⟨other, handed_of_prefix hpre hget, hother⟩
  · rw [World.trace_handOver, ← List.append_nil w.trace]
    exact hl.justified.append_silent hpre (by simp)

theorem Tidy.note (hl : Tidy g ⟨w, held⟩) {o : Observation}
    (hnote : ∀ ev d ok, o ≠ .responded ev d ok) : Tidy g ⟨w.observe o, held⟩ := by
  refine ⟨hl.distinct, ?_, hl.descriptors, ?_⟩
  · intro h hmem
    obtain ⟨e, event, hh⟩ := hl.holds h hmem
    exact ⟨e, event, hh.of_world (List.prefix_rfl) hh.opened (List.subset_append_left _ _)⟩
  · refine hl.justified.append_silent (List.prefix_rfl) ?_
    intro ev d ok hmem
    exact hnote ev d ok (List.mem_singleton.mp hmem).symm

/-- A held event is answered and closed. -/
theorem Tidy.settle {h : HeldEvent} (hl : Tidy g ⟨w, h :: held⟩) {d : Decision}
    (hreason : d = h.event.defaultDecision ∨ ∃ job explicit,
      .answered job (.answer d explicit) ∈ w.trace ∧ job.id = h.id ∧ job.key = h.key) :
    Tidy g ⟨(respondAndCloseEvent g.io w h.event.fd h.event.mask d).2, held⟩ := by
  obtain ⟨hdistinct, hholds, hdescriptors, hjustified⟩ := hl
  rw [List.map_cons, List.nodup_cons] at hdistinct
  obtain ⟨e, event, hh⟩ := hholds h List.mem_cons_self
  have hpre : w.handed <+:
      (respondAndCloseEvent g.io w h.event.fd h.event.mask d).2.handed := by
    rw [handed_respondAndCloseEvent]
  refine ⟨hdistinct.2, ?_, ?_, ?_⟩
  · intro other hmem
    obtain ⟨e', event', hh'⟩ := hholds other (List.mem_cons_of_mem _ hmem)
    have hne : other.event.fd ≠ h.event.fd := by
      intro heq
      exact hdistinct.1 (heq ▸ List.mem_map_of_mem hmem)
    refine ⟨e', event', hh'.of_world hpre ?_ ?_⟩
    · exact (eventOf_respondAndCloseEvent_eq_some _ _ _ _ _).mpr ⟨hne, hh'.opened⟩
    · rw [trace_respondAndCloseEvent]
      exact List.subset_append_left _ _
  · intro fd e' hfd
    obtain ⟨_, hfd⟩ := (eventOf_respondAndCloseEvent_eq_some _ _ _ _ _).mp hfd
    obtain ⟨event', hget, hfd'⟩ := hdescriptors fd e' hfd
    exact ⟨event', handed_of_prefix hpre hget, hfd'⟩
  · rw [trace_respondAndCloseEvent]
    refine hjustified.append hpre ?_
    intro ev d' ok hmem
    obtain ⟨rfl, rfl⟩ := settlement_responded hmem
    refine ⟨e, event, hh.opened, handed_of_prefix hpre hh.handed, ?_⟩
    exact (grounded_of_settle hh hreason).mono hpre (List.Subset.refl _)

/-- An event is handed over and held. -/
theorem Tidy.hold (hl : Tidy g ⟨w, held⟩) {event : GuardEvent} {h : HeldEvent}
    (hfree : w.descriptorIsFree event = true) (hheld : HeldFor g event h) :
    Tidy g ⟨(w.handOver event).observe (.queued (some w.handed.length) h.id), h :: held⟩ := by
  have hnonneg : 0 ≤ event.fd := fd_nonneg hheld.valid
  have hnoted : Tidy g ⟨(w.handOver event).observe (.queued (some w.handed.length) h.id), held⟩ :=
    (hl.open hfree).note (by simp)
  refine ⟨?_, ?_, hnoted.descriptors, hnoted.justified⟩
  · rw [List.map_cons, List.nodup_cons]
    refine ⟨?_, hl.distinct⟩
    intro hmem
    obtain ⟨other, hother, heq⟩ := List.mem_map.mp hmem
    exact hl.fd_ne hfree hnonneg other hother (heq.trans hheld.fd.symm)
  · intro other hmem
    rcases List.mem_cons.mp hmem with rfl | hmem
    · refine ⟨w.handed.length, event, ?_, List.getElem?_concat_length, hheld, ?_⟩
      · rw [World.eventOf_observe, ← hheld.fd]
        exact World.eventOf_handOver_self w hnonneg
      · exact List.mem_append_right _ List.mem_cons_self
    · exact hnoted.holds other hmem

end Motions

/-- Every motion keeps the ledger tidy. -/
theorem Tidy.motion {g : Guard} {drops : GuardEvent → Prop} {loses : HeldEvent → Prop}
    {l l' : Ledger}
    (hl : Tidy g l) (h : Motion g drops loses l l') : Tidy g l' := by
  cases h with
  | reorder w held held' hperm =>
    refine ⟨(hperm.map _).nodup_iff.mp hl.distinct, ?_, hl.descriptors, hl.justified⟩
    intro h hmem
    exact hl.holds h (hperm.mem_iff.mpr hmem)
  | note w held job outcome => exact hl.note (by simp)
  | reject w held event hfree => exact hl.open hfree
  | discard w held event hfree hvalid =>
    refine hl.pass hfree (fd_nonneg hvalid) rfl (eventOf_closeDescriptor_self _ _ _) ?_ rfl ?_
    · intro fd hfd
      rw [eventOf_closeDescriptor_ne _ _ hfd, World.eventOf_handOver_ne _ _ hfd]
    · intro ev d ok hmem
      cases List.mem_singleton.mp hmem
  | answer w held event d hfree hvalid hgrounded =>
    refine hl.pass hfree (fd_nonneg hvalid) (handed_respondAndCloseEvent _ _ _ _ _)
      (eventOf_respondAndCloseEvent_self _ _ _ _ _) ?_ (trace_respondAndCloseEvent _ _ _ _ _) ?_
    · intro fd hfd
      rw [eventOf_respondAndCloseEvent_ne _ _ _ _ _ hfd, World.eventOf_handOver_ne _ _ hfd]
    · intro ev d' ok hmem
      obtain ⟨rfl, rfl⟩ := settlement_responded hmem
      exact ⟨World.eventOf_handOver_self w (fd_nonneg hvalid), hgrounded⟩
  | hold w held event h hfree hheld => exact hl.hold hfree hheld
  | settle w held h d hreason => exact hl.settle hreason
  | lose w held h =>
    obtain ⟨hdistinct, hholds, hdescriptors, hjustified⟩ := hl
    rw [List.map_cons, List.nodup_cons] at hdistinct
    exact ⟨hdistinct.2, fun other hmem => hholds other (List.mem_cons_of_mem _ hmem), hdescriptors,
      hjustified⟩

theorem Tidy.motions {g : Guard} {drops : GuardEvent → Prop} {loses : HeldEvent → Prop}
    {l l' : Ledger}
    (hl : Tidy g l) (h : Motions g drops loses l l') : Tidy g l' := by
  induction h with
  | refl => exact hl
  | tail _ hm ih => exact ih.motion hm

/-- Only events whose policy decision is a prompt are queued. -/
def QueuesPrompts (g : Guard) (w : World) : Prop :=
  ∀ ev id, .queued ev id ∈ w.trace →
    ∃ e event h, ev = some e ∧ w.handed[e]? = some event ∧ HeldFor g event h

theorem QueuesPrompts.append {g : Guard} {w w' : World} {more : List Observation}
    (hw : QueuesPrompts g w) (hhanded : w.handed <+: w'.handed)
    (htrace : w'.trace = w.trace ++ more)
    (hmore : ∀ ev id, .queued ev id ∈ more →
      ∃ e event h, ev = some e ∧ w'.handed[e]? = some event ∧ HeldFor g event h) :
    QueuesPrompts g w' := by
  intro ev id hmem
  rw [htrace, List.mem_append] at hmem
  rcases hmem with hmem | hmem
  · obtain ⟨e, event, h, hev, hevent, hheld⟩ := hw ev id hmem
    exact ⟨e, event, h, hev, handed_of_prefix hhanded hevent, hheld⟩
  · exact hmore ev id hmem

theorem settlement_not_queued {io : IoResults} {n : Nat} {event ev : Option EventId}
    {mask : UInt64} {decision : Decision} {id : PromptId} :
    .queued ev id ∉ settlement io n event mask decision := by
  unfold settlement
  split <;> simp

theorem QueuesPrompts.motion {g : Guard} {drops : GuardEvent → Prop} {loses : HeldEvent → Prop}
    {l l' : Ledger} (hl : QueuesPrompts g l.world) (h : Motion g drops loses l l') :
    QueuesPrompts g l'.world := by
  cases h with
  | reorder => exact hl
  | note w held job outcome =>
    exact hl.append (List.prefix_rfl) (World.trace_observe _ _) (by simp)
  | reject w held event => exact hl.append (List.prefix_append _ _) (List.append_nil _).symm (by simp)
  | discard w held event =>
    exact hl.append (List.prefix_append _ _) (trace_closeDescriptor _ _ _) (by simp)
  | answer w held event d =>
    refine hl.append ?_ (trace_respondAndCloseEvent _ _ _ _ _) ?_
    · rw [handed_respondAndCloseEvent]
      exact List.prefix_append _ _
    · intro ev id hmem
      exact absurd hmem settlement_not_queued
  | hold w held event h _ hheld =>
    refine hl.append (List.prefix_append _ _) (World.trace_observe _ _) ?_
    intro ev id hmem
    obtain ⟨rfl, -⟩ := Observation.queued.inj (List.mem_singleton.mp hmem)
    exact ⟨w.handed.length, event, h, rfl, List.getElem?_concat_length, hheld⟩
  | settle w held h d =>
    refine hl.append ?_ (trace_respondAndCloseEvent _ _ _ _ _) ?_
    · rw [handed_respondAndCloseEvent]
    · intro ev id hmem
      exact absurd hmem settlement_not_queued
  | lose => exact hl

theorem QueuesPrompts.motions {g : Guard} {drops : GuardEvent → Prop} {loses : HeldEvent → Prop}
    {l l' : Ledger} (hl : QueuesPrompts g l.world) (h : Motions g drops loses l l') :
    QueuesPrompts g l'.world := by
  induction h with
  | refl => exact hl
  | tail _ hm ih => exact ih.motion hm

/-- Handed events stay where they are. -/
theorem Motion.handed {g : Guard} {drops : GuardEvent → Prop} {loses : HeldEvent → Prop}
    {l l' : Ledger}
    (h : Motion g drops loses l l') : l.world.handed <+: l'.world.handed := by
  cases h with
  | reorder | note | lose => exact List.prefix_rfl
  | reject | discard | hold => exact List.prefix_append _ _
  | answer =>
    rw [handed_respondAndCloseEvent]
    exact List.prefix_append _ _
  | settle => rw [handed_respondAndCloseEvent]

theorem Motions.handed {g : Guard} {drops : GuardEvent → Prop} {loses : HeldEvent → Prop}
    {l l' : Ledger}
    (h : Motions g drops loses l l') : l.world.handed <+: l'.world.handed := by
  induction h with
  | refl => exact List.prefix_rfl
  | tail _ hm ih => exact ih.trans hm.handed

end ConfigGuard
