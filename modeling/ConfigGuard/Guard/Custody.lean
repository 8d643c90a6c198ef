import ConfigGuard.Guard.Refinement

/-!
# Custody of events

What has been done to each event, read off the trace, and the invariant that an
event is held once and untouched or has been answered and closed, once each.
-/

namespace ConfigGuard
open OsPath Transition AssocList

/-- The responses to an event and its closes. -/
def Observation.concerns (e : EventId) : Observation → Bool
  | responded event _ _ | closed event _ => event == some e
  | queued _ _ | answered _ _ => false

/-- What has been done to an event, in order. -/
def World.fate (w : World) (e : EventId) : List Observation := w.trace.filter (·.concerns e)

/-- One response, if the event asks for one, and one close after it. -/
def settled (e : EventId) (mask : UInt64) (decision : Decision) : List Observation :=
  if isPermissionEvent mask then [.responded (some e) decision true, .closed (some e) true]
  else [.closed (some e) true]

theorem settlement_eq_settled {io : IoResults} (hio : ∀ n, io n = true) (n : Nat) (e : EventId)
    (mask : UInt64) (decision : Decision) :
    settlement io n (some e) mask decision = settled e mask decision := by
  simp only [settlement, settled, hio]

theorem settled_ne_nil (e : EventId) (mask : UInt64) (decision : Decision) :
    settled e mask decision ≠ [] := by
  unfold settled
  split <;> simp

/-- A response and a close concern the event whose descriptor they name. -/
theorem filter_settled_self (e : EventId) (mask : UInt64) (decision : Decision) :
    (settled e mask decision).filter (·.concerns e) = settled e mask decision := by
  unfold settled
  split <;> simp [Observation.concerns]

theorem filter_settled_ne {e e' : EventId} (h : e' ≠ e) (mask : UInt64) (decision : Decision) :
    (settled e mask decision).filter (·.concerns e') = [] := by
  unfold settled
  split <;> simp [Observation.concerns, h.symm]

theorem fate_of_append {w w' : World} {more : List Observation}
    (htrace : w'.trace = w.trace ++ more) {e : EventId} (hmore : more.filter (·.concerns e) = []) :
    w'.fate e = w.fate e := by
  rw [World.fate, World.fate, htrace, List.filter_append, hmore, List.append_nil]

/-- An event nothing has been done to is answered and closed. -/
theorem fate_of_settled {w w' : World} {e : EventId} {mask : UInt64} {decision : Decision}
    (huntouched : w.fate e = []) (htrace : w'.trace = w.trace ++ settled e mask decision) :
    w'.fate e = settled e mask decision := by
  rw [World.fate, htrace, List.filter_append, filter_settled_self]
  rw [World.fate] at huntouched
  rw [huntouched, List.nil_append]

/-- The held events that wait on an open descriptor of the event. -/
def Ledger.holdings (l : Ledger) (e : EventId) : List HeldEvent :=
  l.held.filter fun h => l.world.eventOf h.event.fd == some e

/-- The event is open, held and untouched. -/
structure InCustody (l : Ledger) (e : EventId) (event : GuardEvent) : Prop where
  opened : l.world.eventOf event.fd = some e
  untouched : l.world.fate e = []
  held : ∃ h ∈ l.held, h.event.fd = event.fd

/-- The event has been answered and closed. -/
structure Released (l : Ledger) (e : EventId) (event : GuardEvent) : Prop where
  closed : ∀ fd, l.world.eventOf fd ≠ some e
  settled : ∃ d, l.world.fate e = settled e event.mask d

/-- Every tracked event that was handed over is in custody or released. -/
structure Custody (tracked : GuardEvent → Prop) (l : Ledger) : Prop where
  fresh : ∀ e, l.world.handed.length ≤ e → l.world.fate e = []
  accounted : ∀ e event, l.world.handed[e]? = some event → tracked event →
    InCustody l e event ∨ Released l e event

section

variable {g : Guard} {tracked : GuardEvent → Prop} {w w' : World} {held held' : List HeldEvent}

/-- A new event is handed over; nothing happens to the earlier ones. -/
theorem Custody.admit (hl : Custody tracked ⟨w, held⟩) {event : GuardEvent}
    {more : List Observation} (hhanded : w'.handed = w.handed ++ [event])
    (htrace : w'.trace = w.trace ++ more)
    (hmore : ∀ e, e ≠ w.handed.length → more.filter (·.concerns e) = [])
    (hopen : ∀ e fd, e < w.handed.length → (w'.eventOf fd = some e ↔ w.eventOf fd = some e))
    (hheld : held ⊆ held')
    (hnew : tracked event → InCustody ⟨w', held'⟩ w.handed.length event ∨
      Released ⟨w', held'⟩ w.handed.length event) : Custody tracked ⟨w', held'⟩ := by
  constructor
  · intro e he
    have hlength : w.handed.length + 1 ≤ e := by simpa [hhanded] using he
    have hfate : w'.fate e = w.fate e :=
      fate_of_append htrace (hmore e (Nat.lt_of_succ_le hlength).ne')
    rw [hfate]
    exact hl.fresh e (Nat.le_of_succ_le hlength)
  · intro e event' hget htracked
    have hget' : (w.handed ++ [event])[e]? = some event' := hhanded ▸ hget
    by_cases he : e < w.handed.length
    · have hfate : w'.fate e = w.fate e := fate_of_append htrace (hmore e he.ne)
      rw [List.getElem?_append_left he] at hget'
      rcases hl.accounted e event' hget' htracked with hcustody | hreleased
      · obtain ⟨hopened, huntouched, h, hmem, hfd⟩ := hcustody
        exact .inl ⟨(hopen e _ he).mpr hopened, hfate.trans huntouched, h, hheld hmem, hfd⟩
      · obtain ⟨hclosed, d, hsettled⟩ := hreleased
        refine .inr ⟨?_, d, hfate.trans hsettled⟩
        intro fd hfd
        exact hclosed fd ((hopen e fd he).mp hfd)
    · -- the only event beyond the earlier ones is the new one
      rw [List.getElem?_append_right (not_lt.mp he)] at hget'
      have hzero : e - w.handed.length = 0 :=
        Nat.lt_one_iff.mp (List.getElem?_eq_some_iff.mp hget').1
      obtain rfl : e = w.handed.length :=
        le_antisymm (Nat.sub_eq_zero_iff_le.mp hzero) (not_lt.mp he)
      rw [hzero] at hget'
      obtain rfl := Option.some.inj hget'
      exact hnew htracked

/-- An event that is open no more leaves the others as they were. -/
theorem open_iff_of_closed {event : GuardEvent}
    (hfree : w.descriptorIsFree event = true) (hnonneg : 0 ≤ event.fd)
    (hself : w'.eventOf event.fd = none)
    (hother : ∀ fd, fd ≠ event.fd → w'.eventOf fd = w.eventOf fd) (e : EventId) (fd : Int) :
    w'.eventOf fd = some e ↔ w.eventOf fd = some e := by
  have hnone : w.eventOf event.fd = none := by
    have hnot : ¬ event.fd < 0 := by omega
    simpa [World.descriptorIsFree, hnot] using hfree
  by_cases hfd : fd = event.fd
  · subst hfd
    rw [hself, hnone]
  · rw [hother fd hfd]

theorem not_open_of_new (ht : Tidy g ⟨w, held⟩) (fd : Int) :
    w.eventOf fd ≠ some w.handed.length := by
  intro hfd
  obtain ⟨event, hget, _⟩ := ht.descriptors fd _ hfd
  exact absurd (List.getElem?_eq_some_iff.mp hget).1 (lt_irrefl _)

/-- A held event is answered and closed; nothing happens to the others. -/
theorem Custody.settle {h : HeldEvent} (hio : ∀ n, g.io n = true) (ht : Tidy g ⟨w, h :: held⟩)
    (hl : Custody tracked ⟨w, h :: held⟩) (d : Decision) :
    Custody tracked ⟨(respondAndCloseEvent g.io w h.event.fd h.event.mask d).2, held⟩ := by
  obtain ⟨e₀, event₀, hholds⟩ := ht.holds h List.mem_cons_self
  have hopened : w.eventOf h.event.fd = some e₀ := hholds.opened
  have hlt : e₀ < w.handed.length := (List.getElem?_eq_some_iff.mp hholds.handed).1
  have htrace := trace_respondAndCloseEvent g.io w h.event.fd h.event.mask d
  rw [hopened, settlement_eq_settled hio] at htrace
  have hopen : ∀ {fd e},
      (respondAndCloseEvent g.io w h.event.fd h.event.mask d).2.eventOf fd = some e ↔
        fd ≠ h.event.fd ∧ w.eventOf fd = some e :=
    eventOf_respondAndCloseEvent_eq_some _ _ _ _ _
  have hfate : ∀ e, e ≠ e₀ →
      (respondAndCloseEvent g.io w h.event.fd h.event.mask d).2.fate e = w.fate e :=
    fun e he => fate_of_append htrace (filter_settled_ne he _ _)
  constructor
  · intro e he
    simp only [handed_respondAndCloseEvent] at he
    exact (hfate e (hlt.trans_le he).ne').trans (hl.fresh e he)
  · intro e event hget htracked
    simp only [handed_respondAndCloseEvent] at hget
    by_cases he : e = e₀
    · -- the settled event: it was open on this descriptor only, and untouched
      subst he
      obtain rfl := Option.some.inj (hget.symm.trans hholds.handed)
      refine .inr ⟨?_, d, ?_⟩
      · intro fd hfd
        obtain ⟨hne, hfd⟩ := hopen.mp hfd
        obtain ⟨event', hget', hfd'⟩ := ht.descriptors fd e hfd
        obtain rfl := Option.some.inj (hget.symm.trans hget')
        exact hne (hfd'.symm.trans hholds.heldFor.fd)
      · have huntouched : w.fate e = [] := by
          rcases hl.accounted e event hget htracked with hcustody | hreleased
          · exact hcustody.untouched
          · exact absurd hopened (hreleased.closed _)
        rw [hholds.heldFor.mask]
        exact fate_of_settled huntouched htrace
    · -- another event: its descriptor is another one
      rcases hl.accounted e event hget htracked with hcustody | hreleased
      · obtain ⟨hopened', huntouched, other, hmem, hfd⟩ := hcustody
        have hne : event.fd ≠ h.event.fd := by
          intro heq
          rw [← heq, hopened'] at hopened
          exact he (Option.some.inj hopened)
        refine .inl ⟨hopen.mpr ⟨hne, hopened'⟩, (hfate e he).trans huntouched, other, ?_, hfd⟩
        rcases List.mem_cons.mp hmem with rfl | hmem
        · exact absurd hfd.symm hne
        · exact hmem
      · obtain ⟨hclosed, d', hsettled⟩ := hreleased
        refine .inr ⟨?_, d', (hfate e he).trans hsettled⟩
        intro fd hfd
        exact hclosed fd (hopen.mp hfd).2

end

/-- Motions that drop and lose none of the tracked events keep account of them. -/
theorem Custody.motion {g : Guard} {drops : GuardEvent → Prop} {loses : HeldEvent → Prop}
    {tracked : GuardEvent → Prop} {l l' : Ledger} (hio : ∀ n, g.io n = true)
    (hdrops : ∀ event, drops event → ¬ tracked event)
    (hloses : ∀ h event, HeldFor g event h → loses h → ¬ tracked event) (ht : Tidy g l)
    (hl : Custody tracked l) (h : Motion g drops loses l l') : Custody tracked l' := by
  cases h with
  | reorder w held held' hperm =>
    refine ⟨hl.fresh, ?_⟩
    intro e event hget htracked
    rcases hl.accounted e event hget htracked with ⟨hopened, huntouched, h, hmem, hfd⟩ | hreleased
    · exact .inl ⟨hopened, huntouched, h, hperm.mem_iff.mp hmem, hfd⟩
    · exact .inr ⟨hreleased.closed, hreleased.settled⟩
  | note w held job outcome =>
    have hfate : ∀ e, (w.observe (.answered job outcome)).fate e = w.fate e :=
      fun e => fate_of_append (World.trace_observe _ _) rfl
    refine ⟨fun e he => (hfate e).trans (hl.fresh e he), ?_⟩
    intro e event hget htracked
    rcases hl.accounted e event hget htracked with hcustody | ⟨hclosed, d, hsettled⟩
    · exact .inl ⟨hcustody.opened, (hfate e).trans hcustody.untouched, hcustody.held⟩
    · exact .inr ⟨hclosed, d, (hfate e).trans hsettled⟩
  | reject w held event hfree hdropped =>
    exact hl.admit (World.handed_handOver _ _) (List.append_nil _).symm (fun _ _ => rfl)
      (fun _ _ he => World.eventOf_handOver_iff hfree he.ne) (List.Subset.refl _)
      (fun htracked => absurd htracked (hdrops event hdropped))
  | discard w held event hfree hvalid hdropped =>
    have hself := World.eventOf_handOver_self w (fd_nonneg hvalid)
    refine hl.admit rfl (trace_closeDescriptor _ _ _) ?_ ?_ (List.Subset.refl _)
      (fun htracked => absurd htracked (hdrops event hdropped))
    · intro e he
      simp [Observation.concerns, hself, he.symm]
    · intro e fd _
      refine open_iff_of_closed hfree (fd_nonneg hvalid)
        (eventOf_closeDescriptor_self _ _ _) ?_ e fd
      intro fd hfd
      rw [eventOf_closeDescriptor_ne _ _ hfd, World.eventOf_handOver_ne _ _ hfd]
  -- answered on the spot: the descriptor it came on was free before and is closed after
  | answer w held event d hfree hvalid hgrounded =>
    have hself := World.eventOf_handOver_self w (fd_nonneg hvalid)
    have htrace := trace_respondAndCloseEvent g.io (w.handOver event) event.fd event.mask d
    rw [hself, settlement_eq_settled hio, World.trace_handOver] at htrace
    have hopen : ∀ e fd, (respondAndCloseEvent g.io (w.handOver event) event.fd event.mask
        d).2.eventOf fd = some e ↔ w.eventOf fd = some e := by
      refine open_iff_of_closed hfree (fd_nonneg hvalid)
        (eventOf_respondAndCloseEvent_self _ _ _ _ _) ?_
      intro fd hfd
      rw [eventOf_respondAndCloseEvent_ne _ _ _ _ _ hfd, World.eventOf_handOver_ne _ _ hfd]
    refine hl.admit (handed_respondAndCloseEvent _ _ _ _ _) htrace ?_ (fun e fd _ => hopen e fd)
      (List.Subset.refl _) ?_
    · intro e he
      exact filter_settled_ne he _ _
    · intro _
      refine .inr ⟨?_, d, fate_of_settled (hl.fresh _ le_rfl) htrace⟩
      intro fd hfd
      exact not_open_of_new ht fd ((hopen _ fd).mp hfd)
  -- from now on the held event stands for the new one
  | hold w held event h hfree hheld =>
    have hnonneg := fd_nonneg hheld.valid
    refine hl.admit rfl (World.trace_observe _ _) (fun _ _ => rfl)
      (fun _ _ he => World.eventOf_handOver_iff hfree he.ne) (List.subset_cons_self _ _) ?_
    intro _
    left
    refine ⟨World.eventOf_handOver_self w hnonneg, ?_, h, List.mem_cons_self, hheld.fd.symm⟩
    have hfate : ((w.handOver event).observe (.queued (some w.handed.length) h.id)).fate
        w.handed.length = w.fate w.handed.length :=
      fate_of_append (World.trace_observe _ _) rfl
    exact hfate.trans (hl.fresh _ le_rfl)
  | settle w held h d => exact hl.settle hio ht d
  | lose w held h hlost =>
    refine ⟨hl.fresh, ?_⟩
    intro e event hget htracked
    rcases hl.accounted e event hget htracked with ⟨hopened, huntouched, other, hmem, hfd⟩ | hreleased
    · refine .inl ⟨hopened, huntouched, other, ?_, hfd⟩
      rcases List.mem_cons.mp hmem with rfl | hmem
      · -- the lost event itself would have to be tracked
        obtain ⟨e', event', hholds⟩ := ht.holds other List.mem_cons_self
        have hopened' : w.eventOf event.fd = some e' := hfd ▸ hholds.opened
        obtain rfl := Option.some.inj (hopened.symm.trans hopened')
        obtain rfl := Option.some.inj (hget.symm.trans hholds.handed)
        exact absurd htracked (hloses other event hholds.heldFor hlost)
      · exact hmem
    · exact .inr ⟨hreleased.closed, hreleased.settled⟩

theorem Custody.motions {g : Guard} {drops : GuardEvent → Prop} {loses : HeldEvent → Prop}
    {tracked : GuardEvent → Prop} {l l' : Ledger} (hio : ∀ n, g.io n = true)
    (hdrops : ∀ event, drops event → ¬ tracked event)
    (hloses : ∀ h event, HeldFor g event h → loses h → ¬ tracked event) (ht : Tidy g l)
    (hl : Custody tracked l) (h : Motions g drops loses l l') : Custody tracked l' := by
  induction h with
  | refl => exact hl
  | tail hms hm ih => exact ih.motion hio hdrops hloses (ht.motions hms) hm

/-- A step that handles no tracked event badly and drops none keeps account of them. -/
theorem custody_step {g : Guard} {tracked : GuardEvent → Prop} {s t : GuardState} {a : Move}
    (hio : ∀ n, g.io n = true) (hconsistent : Consistent g s) (htidy : Tidy g s.ledger)
    (hs : Custody tracked s.ledger) (h : Stepped g s a t)
    (hdrops : a = .handle → ∀ event events tail, s.main = .serving (event :: events) tail →
      Unhandled g s.coordinator event → ¬ tracked event)
    (hdropped : a = .drop → ∀ held ∈ s.heldEvents, ∀ event, HeldFor g event held →
      ¬ tracked event) : Custody tracked t.ledger := by
  have hmotions : Motions g (fun event => ¬ tracked event)
      (fun held => ∀ event, HeldFor g event held → ¬ tracked event) s.ledger t.ledger := by
    refine step_motions hconsistent h hdrops ?_ hdropped
    rintro _ ⟨n, hn⟩
    cases (hio n).symm.trans hn
  exact hs.motions hio (fun _ => id) (fun held event hfor hlost => hlost event hfor) htidy hmotions

theorem custody_initial (tracked : GuardEvent → Prop) :
    Custody tracked GuardState.initial.ledger := by
  refine ⟨fun _ _ => rfl, ?_⟩
  intro e event hget
  cases hget

theorem InCustody.holdings {g : Guard} {l : Ledger} {e : EventId} {event : GuardEvent}
    (ht : Tidy g l) (hget : l.world.handed[e]? = some event) (hc : InCustody l e event) :
    ∃ h ∈ l.held, l.holdings e = [h] ∧ h.event.fd = event.fd ∧ h.event.mask = event.mask := by
  obtain ⟨h, hmem, hfd⟩ := hc.held
  have hsame : l.holdings e = l.held.filter fun other => other.event.fd == h.event.fd := by
    refine List.filter_congr ?_
    intro other hother
    by_cases heq : other.event.fd = h.event.fd
    · simp [heq, hfd, hc.opened]
    · have hne : l.world.eventOf other.event.fd ≠ some e := by
        intro hopened
        obtain ⟨event', hget', hfd'⟩ := ht.descriptors _ _ hopened
        obtain rfl := Option.some.inj (hget.symm.trans hget')
        exact heq (hfd'.symm.trans hfd.symm)
      simp [heq, hne]
  obtain ⟨e', event', hholds⟩ := ht.holds h hmem
  have hopened : l.world.eventOf event.fd = some e' := hfd ▸ hholds.opened
  obtain rfl := Option.some.inj (hc.opened.symm.trans hopened)
  obtain rfl := Option.some.inj (hget.symm.trans hholds.handed)
  exact ⟨h, hmem, hsame.trans (filter_of_nodup_map ht.distinct hmem), hfd,
    hholds.heldFor.mask.symm⟩

theorem Released.holdings {l : Ledger} {e : EventId} {event : GuardEvent}
    (hr : Released l e event) : l.holdings e = [] := by
  rw [Ledger.holdings, List.filter_eq_nil_iff]
  intro h _ hopened
  exact hr.closed _ (beq_iff_eq.mp hopened)

/-- The event can be prepared, and a prompt of its own gets an id. -/
def proceeds (g : Guard) (c : PromptCoordinator) (event : GuardEvent) : Bool :=
  match (prepareEventAction g c event).1 with
  | .error _ => false
  | .ok (.respond _) => true
  | .ok (.prompt spec) => (c.pendingPromptId spec.key).isSome || decide (c.nextId + 1 < 2 ^ 64)

/-- The step handles no event that cannot be prepared, and starts no prompt
without an id. -/
def unhindered (g : Guard) (s : GuardState) : Move → Bool
  | .handle =>
    match s.main with
    | .serving (event :: _) _ =>
      !(ensureEventDescriptor event.mask event.fd).isOk || proceeds g s.coordinator event
    | _ => true
  | _ => true

theorem Unhandled.rejected {g : Guard} {c : PromptCoordinator} {event : GuardEvent}
    (h : Unhandled g c event) (hproceeds : proceeds g c event = true) :
    ∃ error, ensureEventDescriptor event.mask event.fd = .error error := by
  rcases h with hrejected | ⟨error, hprepared⟩ | ⟨spec, hprepared, hkey, hid⟩
  · exact hrejected
  · simp [proceeds, hprepared] at hproceeds
  · simp only [proceeds, hprepared, hkey, Option.isSome_none, Bool.false_or, decide_eq_true_eq]
      at hproceeds
    exact absurd hproceeds hid

theorem live_of_stepped {g : Guard} {s t : GuardState} {a : Move} (h : Stepped g s a t)
    (ht : t.main.live = true) : s.main.live = true := by
  cases h with
  | control _ _ _ hlive => exact hlive
  | handled _ _ _ _ _ _ hmain | sent _ _ _ _ _ _ _ hmain | unsent _ _ _ _ _ _ _ _ hmain
  | recorded _ _ _ _ hmain | completed _ _ _ _ _ _ _ _ hmain | fellBack _ _ hmain
  | dropped _ hmain =>
    rw [hmain]
    rfl
  | joined => cases ht
  | received | resolved | notified | stopped => exact ht

theorem drop_not_live {g : Guard} {s t : GuardState} (h : (guardRun g).step s .drop = some t) :
    t.main.live = false := by
  simp only [guardRun, GuardState.step, GuardState.drop] at h
  split at h
  · rw [← Option.some.inj h]
    rfl
  · cases h

theorem custody_reachable {g : Guard} (hio : ∀ n, g.io n = true) {s : GuardState}
    (h : Reachable (guardRun g) (fun s a => unhindered g s a = true) s) :
    s.main.live = true →
      Custody (fun event => ensureEventDescriptor event.mask event.fd = .ok ()) s.ledger := by
  refine Reachable.invariant_with (I := fun s => s.main.live = true →
    Custody (fun event => ensureEventDescriptor event.mask event.fd = .ok ()) s.ledger)
    (J := fun s => Consistent g s ∧ Tidy g s.ledger)
    (fun _ hr => ⟨consistent_reachable hr, tidy_reachable hr⟩) ?_ ?_ h
  · rintro _ rfl _
    exact custody_initial _
  · rintro s a t ⟨hconsistent, htidy⟩ _ hs hp hstep hlive
    have hinv := step_inv hstep
    refine custody_step hio hconsistent htidy (hs (live_of_stepped hinv hlive)) hinv ?_ ?_
    · rintro rfl event events tail hmain hunhandled hvalid
      simp only [unhindered, hmain, hvalid, Except.isOk, Except.toBool, Bool.not_true,
        Bool.false_or] at hp
      obtain ⟨error, herror⟩ := hunhandled.rejected hp
      cases herror.symm.trans hvalid
    · rintro rfl
      rw [drop_not_live hstep] at hlive
      cases hlive

/-- Until the coordinator is dropped, every handed event with a valid descriptor
is either the one event of exactly one pending event of one prompt, open and
neither answered nor closed, or it is pending nowhere and was closed once and,
if it is a permission event, answered once before that. -/
theorem event_held_or_settled (g : Guard) (s : GuardState) (hio : ∀ n, g.io n = true)
    (h : Reachable (guardRun g) (fun s a => unhindered g s a = true) s)
    (hlive : s.main.live = true) (e : EventId) (event : GuardEvent)
    (hget : s.world.handed[e]? = some event)
    (hvalid : ensureEventDescriptor event.mask event.fd = .ok ()) :
    (∃ held prompt, s.ledger.holdings e = [held] ∧ (held.id, prompt) ∈ s.prompts ∧
      held.event ∈ prompt.events ∧ held.event.fd = event.fd ∧ held.event.mask = event.mask ∧
      s.world.eventOf event.fd = some e ∧ s.world.fate e = []) ∨
    s.ledger.holdings e = [] ∧ ∃ d, s.world.fate e = settled e event.mask d := by
  rcases (custody_reachable hio h hlive).accounted e event hget hvalid with hcustody | hreleased
  · obtain ⟨held, hmem, hholdings, hfd, hmask⟩ := hcustody.holdings (tidy_reachable h) hget
    obtain ⟨⟨id, prompt⟩, hprompt, hheld⟩ := List.mem_flatMap.mp hmem
    obtain ⟨pending, hpending, rfl⟩ := List.mem_map.mp hheld
    exact .inl ⟨_, prompt, hholdings, hprompt, hpending, hfd, hmask, hcustody.opened,
      hcustody.untouched⟩
  · exact .inr ⟨hreleased.holdings, hreleased.settled⟩

theorem asked_unhindered :
    Reachable (guardRun piGuard) (fun s a => unhindered piGuard s a = true) asked := by
  have hexec : exec (guardRun piGuard) (fun s a => unhindered piGuard s a = true) .initial
      askedMoves = some asked := rfl
  exact ⟨.initial, rfl, exec_steps hexec⟩

theorem event_held_or_settled_asked :
    (∃ held prompt, asked.ledger.holdings 0 = [held] ∧ (held.id, prompt) ∈ asked.prompts ∧
      held.event ∈ prompt.events ∧ held.event.fd = catOpens.fd ∧
      held.event.mask = catOpens.mask ∧
      asked.world.eventOf catOpens.fd = some 0 ∧ asked.world.fate 0 = []) ∨
    asked.ledger.holdings 0 = [] ∧ ∃ d, asked.world.fate 0 = settled 0 catOpens.mask d :=
  event_held_or_settled piGuard asked (fun _ => rfl) asked_unhindered rfl 0 catOpens rfl rfl

/-- The kernel reports that events were lost. -/
def queueOverflowed : GuardEvent where
  mask := fanQOverflow
  fd := fanNoFd
  pid := 0
  target := .error "bad file descriptor"
  inspected := none
  env := ∅

def overflowed : GuardState :=
  runFrom (guardRun piGuard) (fun s a => unhindered piGuard s a = true) .initial
    [.poll true, .readBatch [queueOverflowed] (.ok ()), .handle]

/-- An event without a descriptor is handed over and then neither held nor closed. -/
theorem rejected_event_unaccounted :
    ¬ ∀ (g : Guard) (s : GuardState), (∀ n, g.io n = true) →
      Reachable (guardRun g) (fun s a => unhindered g s a = true) s → s.main.live = true →
      ∀ e event, s.world.handed[e]? = some event →
        (∃ held, s.ledger.holdings e = [held]) ∨
        ∃ d, s.world.fate e = settled e event.mask d := by
  intro h
  have hreachable :
      Reachable (guardRun piGuard) (fun s a => unhindered piGuard s a = true) overflowed :=
    ⟨.initial, rfl, runFrom_steps (by decide)⟩
  rcases h piGuard overflowed (fun _ => rfl) hreachable rfl 0 queueOverflowed rfl with
    ⟨held, hheld⟩ | ⟨d, hd⟩
  · have hnone : overflowed.ledger.holdings 0 = [] := rfl
    rw [hnone] at hheld
    cases hheld
  · have hnone : overflowed.world.fate 0 = [] := rfl
    exact settled_ne_nil 0 queueOverflowed.mask d (hd.symm.trans hnone)

end ConfigGuard
