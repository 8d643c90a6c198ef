import ConfigGuard.Guard.Custody
import ConfigGuard.Guard.Provenance

/-!
# The end of a run

Which exits of the loop leave no permission event unanswered. Only the fallback
after the worker has stopped answers what is pending; every other exit drops
the coordinator with the prompts in it.
-/

namespace ConfigGuard
open OsPath Transition

/-- A permission event with a valid descriptor. -/
structure AwaitsResponse (event : GuardEvent) : Prop where
  valid : ensureEventDescriptor event.mask event.fd = .ok ()
  permission : isPermissionEvent event.mask = true

instance (event : GuardEvent) : Decidable (AwaitsResponse event) :=
  decidable_of_iff (ensureEventDescriptor event.mask event.fd = .ok () ∧
    isPermissionEvent event.mask = true) ⟨fun h => ⟨h.1, h.2⟩, fun h => ⟨h.valid, h.permission⟩⟩

/-- No permission event is pending. -/
def GuardState.nonePending (s : GuardState) : Bool :=
  s.heldEvents.all fun held => !isPermissionEvent held.event.mask

/-- Handling the event ends the loop: it has no descriptor, it cannot be
prepared, or it asks for a prompt that gets no id or has no worker. -/
def handlingEnds (g : Guard) (s : GuardState) (event : GuardEvent) : Bool :=
  match ensureEventDescriptor event.mask event.fd with
  | .error _ => true
  | .ok _ =>
    match (prepareEventAction g s.coordinator event).1 with
    | .error _ => true
    | .ok (.respond _) => false
    | .ok (.prompt spec) =>
      (s.coordinator.pendingPromptId spec.key).isNone &&
        (decide (¬ s.coordinator.nextId + 1 < 2 ^ 64) || s.worker.isStopped)

/-- A step that ends the loop, other than the fallback, finds no permission
event pending, and a permission event that is handled can be prepared and gets
the prompt id it needs. -/
def exitsClean (g : Guard) (s : GuardState) : Move → Bool
  | .pollError _ | .wakeError _ | .readError _ => s.nonePending
  | .endBatch =>
    match s.main with
    | .serving [] (.error _) => s.nonePending
    | _ => true
  | .handle =>
    match s.main with
    | .serving (event :: _) _ =>
      (!handlingEnds g s event || s.nonePending) &&
        (!decide (AwaitsResponse event) || proceeds g s.coordinator event)
    | _ => true
  | _ => true

section

variable {g : Guard} {s t : GuardState} {a : Move}

theorem nonePending_congr (hpending : t.coordinator.pending = s.coordinator.pending)
    (hrecorded : t.main.recorded = s.main.recorded) : t.nonePending = s.nonePending := by
  rw [GuardState.nonePending, GuardState.nonePending, heldEvents_congr hpending hrecorded]

theorem heldEvents_empty (hpending : s.coordinator.pending = ∅) (hrecorded : s.main.recorded = none) :
    s.heldEvents = [] := by
  rw [heldEvents_recorded_none hrecorded, hpending]
  rfl

/-- The loop has ended: no permission event is pending. -/
theorem failed_step (hio : ∀ n, g.io n = true) (hconsistent : Consistent g s)
    (hs : ∀ error, s.main = .failed error → s.nonePending = true)
    (hp : exitsClean g s a = true) (h : Stepped g s a t) :
    ∀ error, t.main = .failed error → t.nonePending = true := by
  intro error ht
  cases h with
  | control _ main bytes _ hrecorded _ hrecorded' _ _ hfailed =>
    have hsame : s.nonePending = true := by
      obtain ⟨_, hmove⟩ := hfailed error ht
      rcases hmove with ⟨text, rfl | rfl | rfl⟩ | ⟨rfl, text, hmain⟩
      · exact hp
      · exact hp
      · exact hp
      · simpa only [exitsClean, hmain] using hp
    rw [← hsame]
    exact nonePending_congr rfl (hrecorded'.trans hrecorded.symm)
  | handled event events tail result c w hmain _ hhandled =>
    have hrecorded : s.main.recorded = none := by rw [hmain]; rfl
    simp only [exitsClean, hmain, Bool.and_eq_true] at hp
    -- an event that ends the loop leaves the pending prompts as they are
    have hkeeps : handlingEnds g s event = true → c.pending = s.coordinator.pending →
        GuardState.nonePending { s with
          coordinator := c, world := w, main := .afterEvent result events tail } = true := by
      intro hends hpending
      have hnone : s.nonePending = true := by simpa [hends] using hp.1
      rw [← hnone]
      exact nonePending_congr hpending ((afterEvent_recorded _ _ _).trans hrecorded.symm)
    cases hhandled with
    | rejected error' hevent => exact hkeeps (by simp [handlingEnds, hevent]) rfl
    | answered decision =>
      rw [show (respondAndCloseEvent g.io (s.world.handOver event) event.fd event.mask
        decision).1 = .ok () from respondAndCloseEvent_ok hio _ _ _ _] at ht
      cases ht
    | unprepared error' hevent hprepared =>
      exact hkeeps (by simp [handlingEnds, hevent, hprepared]) rfl
    | appended => cases ht
    | dangling spec key id _ _ _ hkey hid =>
      exact absurd hid ((hconsistent.kept (by rw [hmain]; rfl)).not_dangling hkey)
    | exhausted spec hevent hprepared hkey hid =>
      refine hkeeps ?_ rfl
      simp only [handlingEnds, hevent, hprepared, hkey, Option.isNone_none, Bool.true_and,
        Bool.or_eq_true, decide_eq_true_eq]
      exact .inl hid
  | sent => cases ht
  | unsent event events tail job prompt c w error' hmain _ hhandled hstopped =>
    have hrecorded : s.main.recorded = none := by rw [hmain]; rfl
    simp only [exitsClean, hmain, Bool.and_eq_true] at hp
    cases hhandled with
    | sending spec _ hevent hprepared hkey hid =>
      have hends : handlingEnds g s event = true := by
        simp [handlingEnds, hevent, hprepared, hkey, hstopped]
      have hnone : s.nonePending = true := by simpa [hends] using hp.1
      rw [← hnone]
      refine nonePending_congr rfl ?_
      rw [hrecorded]
      rfl
  | recorded => cases ht
  | completed closed ready completion completions result c w main hmain hcompletions hcompleted
      hmain' =>
    have hlive : s.main.live = true := by rw [hmain]; rfl
    obtain ⟨prompt, _, _, rfl, _⟩ :=
      (hconsistent.kept hlive).completed (by rw [hmain]; rfl) hcompletions hcompleted
    rcases hmain' with ⟨rfl, _⟩ | ⟨error', _, herror⟩
    · cases ht
    · rw [respondToEvents_ok hio] at herror
      cases herror
  | fellBack =>
    rw [GuardState.nonePending, heldEvents_empty rfl rfl]
    rfl
  | dropped => cases ht
  | joined => cases ht
  | received | resolved | notified | stopped => exact hs error ht

/-- Nothing is pending once the coordinator is dropped. -/
theorem dropped_step (hs : s.main.live = false → s.heldEvents = []) (h : Stepped g s a t)
    (ht : t.main.live = false) : t.heldEvents = [] := by
  cases h with
  | control _ _ _ _ _ hlive' => cases hlive'.symm.trans ht
  | handled _ _ _ result => cases result <;> cases ht
  | sent | unsent | recorded | fellBack => cases ht
  | completed _ _ _ _ _ _ _ _ _ _ _ hmain' =>
    rcases hmain' with ⟨rfl, _⟩ | ⟨error, rfl, _⟩ <;> cases ht
  | dropped => exact heldEvents_empty rfl rfl
  | joined error error' hmain =>
    have hheld := hs (by rw [hmain]; rfl)
    rw [← hheld]
    refine heldEvents_congr rfl ?_
    rw [hmain]
    rfl
  | received | resolved | notified | stopped => exact hs ht

end

/-- What holds of a run whose exits are clean. -/
structure Accounted (s : GuardState) : Prop where
  custody : Custody AwaitsResponse s.ledger
  failed : ∀ error, s.main = .failed error → s.nonePending = true
  dropped : s.main.live = false → s.heldEvents = []

theorem drop_failed {g : Guard} {s t : GuardState} (h : (guardRun g).step s .drop = some t) :
    ∃ error, s.main = .failed error := by
  simp only [guardRun, GuardState.step, GuardState.drop] at h
  split at h
  · rename_i error hmain
    exact ⟨error, hmain⟩
  · cases h

theorem accounted_reachable {g : Guard} (hio : ∀ n, g.io n = true) {s : GuardState}
    (h : Reachable (guardRun g) (fun s a => exitsClean g s a = true) s) : Accounted s := by
  refine h.invariant_with (J := fun s => Consistent g s ∧ Tidy g s.ledger)
    (fun _ hr => ⟨consistent_reachable hr, tidy_reachable hr⟩) ?_ ?_
  · rintro _ rfl
    exact ⟨custody_initial _, nofun, nofun⟩
  · rintro s a t ⟨hconsistent, htidy⟩ _ ⟨hcustody, hfailed, hdropped⟩ hp hstep
    have hinv := step_inv hstep
    refine ⟨?_, failed_step hio hconsistent hfailed hp hinv, dropped_step hdropped hinv⟩
    refine custody_step hio hconsistent htidy hcustody hinv ?_ ?_
    · rintro rfl event events tail hmain hunhandled hawaits
      simp only [exitsClean, hmain, Bool.and_eq_true] at hp
      have hproceeds : proceeds g s.coordinator event = true := by simpa [hawaits] using hp.2
      obtain ⟨error, herror⟩ := hunhandled.rejected hproceeds
      cases herror.symm.trans hawaits.valid
    · -- the coordinator is dropped after a failure, when no permission event is pending
      rintro rfl held hheld event hfor hawaits
      obtain ⟨error, hmain⟩ := drop_failed hstep
      have hnone := List.all_eq_true.mp (hfailed error hmain) held hheld
      rw [← hfor.mask, hawaits.permission] at hnone
      cases hnone

/-- In a run whose steps all exit clean, once `run` has returned every
permission event with a valid descriptor that was handed over has been
answered, once and before its one close, and there is a reason for the answer:
the policy's decision, a grant, a prompt's answer or a default. -/
theorem shutdown_answers_all (g : Guard) (s : GuardState) (hio : ∀ n, g.io n = true)
    (h : Reachable (guardRun g) (fun s a => exitsClean g s a = true) s) (error : GuardError)
    (hreturned : s.main = .returned error) (e : EventId) (event : GuardEvent)
    (hget : s.world.handed[e]? = some event) (hawaits : AwaitsResponse event) :
    ∃ d, s.world.fate e = [.responded (some e) d true, .closed (some e) true] ∧
      Grounded g s.world.handed s.world.trace e event d := by
  obtain ⟨hcustody, _, hdropped⟩ := accounted_reachable hio h
  have hheld : s.heldEvents = [] := hdropped (by rw [hreturned]; rfl)
  rcases hcustody.accounted e event hget hawaits with ⟨_, _, held, hmem, _⟩ | ⟨_, d, hsettled⟩
  · rw [GuardState.ledger, hheld] at hmem
    cases hmem
  · rw [settled, if_pos hawaits.permission] at hsettled
    refine ⟨d, hsettled, ?_⟩
    have hmem : Observation.responded (some e) d true ∈ s.world.trace := by
      refine List.mem_of_mem_filter (p := Observation.concerns e) ?_
      rw [← World.fate, show s.world.fate e = _ from hsettled]
      exact List.mem_cons_self
    exact responded_grounded h hget hmem

/-- The prompt of `allowed` has been settled when polling fails. -/
def pollFailed : GuardState :=
  runFrom (guardRun piGuard) (fun s a => exitsClean piGuard s a = true) .initial
    (allowedMoves ++ [.tryRecv, .pollError "EIO", .drop, .workerRecv, .join])

theorem shutdown_answers_all_pollFailed :
    ∃ d, pollFailed.world.fate 0 = [.responded (some 0) d true, .closed (some 0) true] ∧
      Grounded piGuard pollFailed.world.handed pollFailed.world.trace 0 catOpens d :=
  shutdown_answers_all piGuard pollFailed (fun _ => rfl)
    ⟨.initial, rfl, runFrom_steps (by decide)⟩ (.polling "EIO") rfl 0 catOpens rfl ⟨rfl, rfl⟩

/-- The prompt of a `cat` is pending when the kernel reports lost events. -/
def overflowPending : GuardState :=
  runFrom (guardRun piGuard) anyStep .initial
    [.poll true, .readBatch [catOpens, queueOverflowed] (.ok ()), .handle, .record, .handle, .drop,
      .workerRecv, .workerResolve (fun _ _ => true) (fun _ => .ok (.explicit .allow)), .join]

theorem overflow_leaves_unanswered :
    ¬ ∀ (g : Guard) (s : GuardState), (∀ n, g.io n = true) → Reachable (guardRun g) anyStep s →
      (∃ error, s.main = .returned error) →
      ∀ e event, s.world.handed[e]? = some event → AwaitsResponse event →
        ∃ d, .responded (some e) d true ∈ s.world.trace := by
  intro h
  have hreachable : Reachable (guardRun piGuard) anyStep overflowPending :=
    ⟨.initial, rfl, runFrom_steps (by decide)⟩
  obtain ⟨d, hmem⟩ := h piGuard overflowPending (fun _ => rfl) hreachable ⟨.queueOverflow, rfl⟩ 0
    catOpens rfl ⟨rfl, rfl⟩
  have hnone : overflowPending.world.fate 0 = [] := rfl
  have hfate : Observation.responded (some 0) d true ∈ overflowPending.world.fate 0 :=
    List.mem_filter.mpr ⟨hmem, rfl⟩
  rw [hnone] at hfate
  cases hfate

end ConfigGuard
