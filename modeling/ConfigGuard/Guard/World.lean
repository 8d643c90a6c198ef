import ConfigGuard.Fanotify.Event
import ConfigGuard.Prompt.Resolution

/-!
# What the guard does to the kernel

Events handed to the guard, the descriptors that are open for them, and the
trace of responses and closes. The helpers of `guard.rs` and `fanotify.rs` that
answer and close events act on this state alone.
-/

namespace ConfigGuard
open OsPath

abbrev PromptId := Nat

/-- The position of an event among the events handed to `handle_event`. -/
abbrev EventId := Nat

/-- An event as the kernel delivers it, with what the guard reads about it
while it handles it: the link of its descriptor, its process and the process's
environment. -/
structure GuardEvent where
  mask : UInt64
  fd : Int
  pid : Int
  target : Except String Path
  inspected : Option ProcessIdentity
  env : Env

structure PromptJob where
  id : PromptId
  key : Option PromptDecisionKey
  authorization : Option AncestryAuthorization
  subject : ProcessSubject
  targetPath : Path
  reason : DecisionReason
  defaultDecision : Decision
  env : Env

/-- What is seen of a run: the writes and closes of the guard, which prompt an
event waits for, and the outcomes of the worker's jobs. -/
inductive Observation where
  | responded (event : Option EventId) (decision : Decision) (ok : Bool)
  | closed (event : Option EventId) (ok : Bool)
  | queued (event : Option EventId) (id : PromptId)
  | answered (job : PromptJob) (outcome : PromptOutcome)

/-- `descriptors` tells which handed event an open descriptor belongs to. -/
structure World where
  handed : List GuardEvent
  descriptors : AList fun _ : Int => EventId
  trace : List Observation

namespace World

def empty : World := ⟨[], ∅, []⟩

def eventOf (w : World) (fd : Int) : Option EventId := w.descriptors.lookup fd

def observe (w : World) (o : Observation) : World := { w with trace := w.trace ++ [o] }

/-- The kernel numbers a descriptor it hands out with a number that is not open. -/
def descriptorIsFree (w : World) (event : GuardEvent) : Bool :=
  event.fd < 0 || (w.eventOf event.fd).isNone

/-- An event reaches `handle_event`; a valid descriptor is open from then on. -/
def handOver (w : World) (event : GuardEvent) : World where
  handed := w.handed ++ [event]
  descriptors :=
    if 0 ≤ event.fd then w.descriptors.insert event.fd w.handed.length else w.descriptors
  trace := w.trace

end World

/-- `io n` tells whether the write or close made when the trace has length `n`
succeeds. -/
abbrev IoResults := Nat → Bool

def respondToPermissionEventFd (io : IoResults) (w : World) (fd : Int) (mask : UInt64)
    (decision : Decision) : Except GuardError Unit × World :=
  if isPermissionEvent mask then
    let ok := io w.trace.length
    (if ok then .ok () else .error .writingResponse,
      w.observe (.responded (w.eventOf fd) decision ok))
  else (.ok (), w)

def closeDescriptor (io : IoResults) (w : World) (fd : Int) : Except GuardError Unit × World :=
  let ok := io w.trace.length
  (if ok then .ok () else .error (.closingDescriptor fd),
    { w.observe (.closed (w.eventOf fd) ok) with descriptors := w.descriptors.erase fd })

def respondAndCloseEvent (io : IoResults) (w : World) (fd : Int) (mask : UInt64)
    (decision : Decision) : Except GuardError Unit × World :=
  let (responseResult, w) := respondToPermissionEventFd io w fd mask decision
  let (closeResult, w) := closeDescriptor io w fd
  (responseResult.bind fun _ => closeResult, w)

structure PendingEvent where
  fd : Int
  mask : UInt64
  defaultDecision : Decision

/-- Answers every event, and reports the first error. -/
def respondToEvents (io : IoResults) (decisionFor : PendingEvent → Decision) :
    World → List PendingEvent → Except GuardError Unit × World
  | w, [] => (.ok (), w)
  | w, event :: events =>
    let (result, w) := respondAndCloseEvent io w event.fd event.mask (decisionFor event)
    let (rest, w) := respondToEvents io decisionFor w events
    (result.bind fun _ => rest, w)

def respondWithDecision (io : IoResults) (w : World) (events : List PendingEvent)
    (decision : Decision) : Except GuardError Unit × World :=
  respondToEvents io (fun _ => decision) w events

def respondWithDefaults (io : IoResults) (w : World) (events : List PendingEvent) :
    Except GuardError Unit × World :=
  respondToEvents io (·.defaultDecision) w events

/-- The trace an event leaves when it is answered and closed. -/
def settlement (io : IoResults) (n : Nat) (event : Option EventId) (mask : UInt64)
    (decision : Decision) : List Observation :=
  if isPermissionEvent mask then [.responded event decision (io n), .closed event (io (n + 1))]
  else [.closed event (io n)]

namespace World

@[simp] theorem handed_observe (w : World) (o : Observation) : (w.observe o).handed = w.handed :=
  rfl

@[simp] theorem trace_observe (w : World) (o : Observation) :
    (w.observe o).trace = w.trace ++ [o] := rfl

@[simp] theorem eventOf_observe (w : World) (o : Observation) (fd : Int) :
    (w.observe o).eventOf fd = w.eventOf fd := rfl

@[simp] theorem handed_handOver (w : World) (event : GuardEvent) :
    (w.handOver event).handed = w.handed ++ [event] := rfl

@[simp] theorem trace_handOver (w : World) (event : GuardEvent) :
    (w.handOver event).trace = w.trace := rfl

theorem eventOf_handOver_self (w : World) {event : GuardEvent} (h : 0 ≤ event.fd) :
    (w.handOver event).eventOf event.fd = some w.handed.length := by
  simp [handOver, eventOf, h]

theorem eventOf_handOver_ne (w : World) (event : GuardEvent) {fd : Int} (h : fd ≠ event.fd) :
    (w.handOver event).eventOf fd = w.eventOf fd := by
  unfold handOver eventOf
  dsimp only
  split
  · exact AList.lookup_insert_ne h
  · rfl

/-- A free descriptor is none of those that are open. -/
theorem eventOf_handOver_of_some {w : World} {event : GuardEvent}
    (hfree : w.descriptorIsFree event = true) {fd : Int} {e : EventId}
    (h : w.eventOf fd = some e) : (w.handOver event).eventOf fd = some e := by
  by_cases hfd : fd = event.fd
  · subst hfd
    have hnegative : event.fd < 0 := by
      simpa [descriptorIsFree, h] using hfree
    have hnot : ¬ 0 ≤ event.fd := by omega
    simpa [handOver, eventOf, hnot] using h
  · rw [eventOf_handOver_ne w event hfd]
    exact h

theorem eventOf_handOver_eq_some {w : World} {event : GuardEvent} {fd : Int} {e : EventId}
    (h : (w.handOver event).eventOf fd = some e) :
    fd = event.fd ∧ e = w.handed.length ∨ w.eventOf fd = some e := by
  by_cases hfd : fd = event.fd
  · subst hfd
    by_cases hnot : 0 ≤ event.fd
    · rw [eventOf_handOver_self w hnot] at h
      exact .inl ⟨rfl, (Option.some.inj h).symm⟩
    · right
      simpa [handOver, eventOf, hnot] using h
  · rw [eventOf_handOver_ne w event hfd] at h
    exact .inr h

/-- Handing an event over opens and closes no earlier one. -/
theorem eventOf_handOver_iff {w : World} {event : GuardEvent}
    (hfree : w.descriptorIsFree event = true) {fd : Int} {e : EventId} (he : e ≠ w.handed.length) :
    (w.handOver event).eventOf fd = some e ↔ w.eventOf fd = some e := by
  constructor
  · intro h
    rcases eventOf_handOver_eq_some h with ⟨_, hnew⟩ | hold
    · exact absurd hnew he
    · exact hold
  · exact eventOf_handOver_of_some hfree

end World

/-- An event with a valid descriptor has a descriptor. -/
theorem fd_nonneg {mask : UInt64} {fd : Int} (h : ensureEventDescriptor mask fd = .ok ()) :
    0 ≤ fd := by
  unfold ensureEventDescriptor at h
  split at h
  · cases h
  · split at h
    · cases h
    · omega

theorem settlement_responded {io : IoResults} {n : Nat} {event event' : Option EventId}
    {mask : UInt64} {decision d : Decision} {ok : Bool}
    (h : .responded event' d ok ∈ settlement io n event mask decision) :
    event' = event ∧ d = decision := by
  unfold settlement at h
  split at h
  · simp only [List.mem_cons, Observation.responded.injEq, List.not_mem_nil, or_false,
      reduceCtorEq] at h
    exact ⟨h.1, h.2.1⟩
  · simp at h

@[simp] theorem handed_closeDescriptor (io : IoResults) (w : World) (fd : Int) :
    (closeDescriptor io w fd).2.handed = w.handed := rfl

@[simp] theorem trace_closeDescriptor (io : IoResults) (w : World) (fd : Int) :
    (closeDescriptor io w fd).2.trace =
      w.trace ++ [.closed (w.eventOf fd) (io w.trace.length)] := rfl

theorem eventOf_closeDescriptor_self (io : IoResults) (w : World) (fd : Int) :
    (closeDescriptor io w fd).2.eventOf fd = none := AList.lookup_erase fd w.descriptors

theorem eventOf_closeDescriptor_ne (io : IoResults) (w : World) {fd other : Int}
    (h : other ≠ fd) : (closeDescriptor io w fd).2.eventOf other = w.eventOf other :=
  AList.lookup_erase_ne h

section

variable (io : IoResults) (w : World) (fd : Int) (mask : UInt64) (decision : Decision)

theorem respondAndCloseEvent_world :
    (respondAndCloseEvent io w fd mask decision).2 =
      (closeDescriptor io (respondToPermissionEventFd io w fd mask decision).2 fd).2 := rfl

@[simp] theorem handed_respondAndCloseEvent :
    (respondAndCloseEvent io w fd mask decision).2.handed = w.handed := by
  rw [respondAndCloseEvent_world, handed_closeDescriptor, respondToPermissionEventFd]
  split <;> rfl

theorem eventOf_respondAndCloseEvent_self :
    (respondAndCloseEvent io w fd mask decision).2.eventOf fd = none :=
  eventOf_closeDescriptor_self io _ fd

theorem eventOf_respondAndCloseEvent_ne {other : Int} (h : other ≠ fd) :
    (respondAndCloseEvent io w fd mask decision).2.eventOf other = w.eventOf other := by
  rw [respondAndCloseEvent_world, eventOf_closeDescriptor_ne _ _ h, respondToPermissionEventFd]
  split <;> rfl

/-- What is open afterwards was open before, on another descriptor. -/
theorem eventOf_respondAndCloseEvent_eq_some {other : Int} {e : EventId} :
    (respondAndCloseEvent io w fd mask decision).2.eventOf other = some e ↔
      other ≠ fd ∧ w.eventOf other = some e := by
  by_cases h : other = fd
  · subst h
    simp [eventOf_respondAndCloseEvent_self]
  · simp [eventOf_respondAndCloseEvent_ne _ _ _ _ _ h, h]

@[simp] theorem trace_respondAndCloseEvent :
    (respondAndCloseEvent io w fd mask decision).2.trace =
      w.trace ++ settlement io w.trace.length (w.eventOf fd) mask decision := by
  rw [respondAndCloseEvent_world, trace_closeDescriptor, respondToPermissionEventFd, settlement]
  split <;> simp

end

theorem respondAndCloseEvent_ok {io : IoResults} (hio : ∀ n, io n = true) (w : World) (fd : Int)
    (mask : UInt64) (decision : Decision) :
    (respondAndCloseEvent io w fd mask decision).1 = .ok () := by
  unfold respondAndCloseEvent respondToPermissionEventFd closeDescriptor
  simp only [hio, if_true]
  split <;> rfl

theorem respondToEvents_ok {io : IoResults} (hio : ∀ n, io n = true)
    (decisionFor : PendingEvent → Decision) (w : World) (events : List PendingEvent) :
    (respondToEvents io decisionFor w events).1 = .ok () := by
  induction events generalizing w with
  | nil => rfl
  | cons event events ih =>
    rw [respondToEvents]
    simp only [respondAndCloseEvent_ok hio, Except.bind]
    exact ih _

end ConfigGuard
