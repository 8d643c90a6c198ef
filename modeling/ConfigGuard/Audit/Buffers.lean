import ConfigGuard.Audit.Responses
import ConfigGuard.Fanotify.Batch

/-!
# The audit loop over its buffers

`run` of `fanotify.rs` in the modes `audit` and `audit-prompt`, from the bytes
that `read` fills in. Each of its runs is one of the audit loop, which is given its
events.
-/

namespace ConfigGuard
open OsPath Transition

/-- What is read about an event while it is handled, and the process it is of. -/
structure AuditReading where
  target : Except String Path
  object : Except String AuditObjectId
  executedAt : Nat
  inspectedAtExec : Option ProcessIdentity
  openedAt : Nat
  inspectedAtOpen : Option ProcessIdentity
  closedAt : Nat
  inspectedAtClose : Option ProcessIdentity
  env : AccessKind → Env
  askAnswer : AccessKind → PromptRequest → Except String PromptAnswer
  actual : ProcessGeneration

def EventCall.delivery (call : EventCall) (reading : AuditReading) : AuditDelivery where
  mask := call.metadata.mask
  fd := call.metadata.fd.toInt
  pid := call.metadata.pid.toInt
  generation := call.generation
  target := reading.target
  object := reading.object
  executedAt := reading.executedAt
  inspectedAtExec := reading.inspectedAtExec
  openedAt := reading.openedAt
  inspectedAtOpen := reading.inspectedAtOpen
  closedAt := reading.closedAt
  inspectedAtClose := reading.inspectedAtClose
  env := reading.env
  askAnswer := reading.askAnswer
  actual := reading.actual

/-- The loop's state, with the events handed to `handle_event`. -/
abbrev AuditTrack : Type := AuditRuntime × List AuditDelivery

/-- `readings` are what is read about each of the events handed over. -/
structure AuditSource where
  setup : AuditSetup
  readings : Nat → EventCall → AuditReading

namespace AuditSource

/-- `handle_event` on what a buffer calls it with. -/
def handleCall (source : AuditSource) (track : AuditTrack) (call : EventCall) :
    Except AuditError Unit × AuditTrack :=
  let event := call.delivery (source.readings track.2.length call)
  let (result, runtime) := (track.1.handOver event).handleEvent source.setup event
  (result, runtime, track.2 ++ [event])

end AuditSource

/-- The error that `run` ends with. -/
def ReadError.auditError : ReadError AuditError → AuditError
  | reading error => .event (.readingEvents error)
  | buffer (.handling error) => error
  | buffer (.event error) => .event (.malformedEvent error.message)
  | buffer .lengthOverflow => .event (.malformedEvent (BufferError.message id .lengthOverflow))
  | buffer (.invalidLength eventLen metadataLen remaining) =>
    .event (.malformedEvent
      (BufferError.message id (.invalidLength eventLen metadataLen remaining)))

namespace AuditSource

/-- `read_events`, once for each result of `read` until one of them fails. -/
def readAll (source : AuditSource) :
    AuditTrack → List ReadResult → Except Fault (Except AuditError Unit × AuditTrack)
  | track, [] => .ok (.ok (), track)
  | track, read :: reads =>
    match readEventBatch source.handleCall track read with
    | .error fault => .error fault
    | .ok (.error error, track) => .ok (.error error.auditError, track)
    | .ok (.ok _, track) => source.readAll track reads

/-- The loop on these results of `read`, with or without a learner. -/
def run (source : AuditSource) (learner : Option AuditLearner) (reads : List ReadResult) :
    Except Fault (Except AuditError Unit × AuditTrack) :=
  source.readAll ((AuditSession.start learner).runtime, []) reads

end AuditSource

/-- The loop has returned with the error, or comes to its next `read`. -/
def AuditPc.outcome : AuditPc → Except AuditError Unit
  | reading | serving _ _ => .ok ()
  | failed error => .error error

/-- Between two reads. -/
def AuditPc.between : AuditPc → Bool
  | reading | failed _ => true
  | serving _ _ => false

/-- What is seen of a session between two reads. -/
def AuditSession.seen (s : AuditSession) : Except AuditError Unit × AuditTrack :=
  (s.pc.outcome, s.runtime, s.delivered)

namespace AuditSource

variable {source : AuditSource} {learner : Option AuditLearner}

/-- The events of a batch as they are handed over. -/
def deliveries (source : AuditSource) : Nat → List EventCall → List AuditDelivery
  | _, [] => []
  | n, call :: calls =>
    call.delivery (source.readings n call) :: source.deliveries (n + 1) calls

theorem auditError_lift (error : BufferError Empty) :
    (ReadError.buffer error.lift).auditError =
      .event (.malformedEvent (error.message Empty.elim)) := by
  cases error with
  | handling error => exact error.elim
  | event error => rfl
  | lengthOverflow => rfl
  | invalidLength eventLen metadataLen remaining => rfl

/-- While the loop runs no descriptor is open, so the kernel is free to number the next. -/
theorem descriptorIsFree_of_reachable {s : AuditSession}
    (h : Reachable (auditLoop source.setup learner) anyStep s) (hrunning : s.pc.running = true)
    (event : AuditDelivery) : s.runtime.world.descriptorIsFree event.guardEvent = true := by
  have hcustody : AuditSession.AuditCustody s := AuditSession.auditCustody_reachable h
  rw [World.descriptorIsFree, hcustody.closed hrunning]
  simp

theorem step_handle (setup : AuditSetup) (s : AuditSession) :
    (auditLoop setup learner).step s .handle = s.handle setup := rfl

/-- Every event handed over was accepted from a place of a buffer. -/
def Sourced (source : AuditSource) (reads : List ReadResult) (delivered : List AuditDelivery) :
    Prop :=
  ∀ e event, delivered[e]? = some event → ∃ call filled, .filled filled ∈ reads ∧
    AcceptedIn filled.kernel filled.buffer.bytes call ∧ event = call.delivery (source.readings e call)

theorem Sourced.append {reads : List ReadResult} {delivered : List AuditDelivery}
    (h : source.Sourced reads delivered) {call : EventCall} {filled : FilledBuffer}
    (hread : .filled filled ∈ reads)
    (haccepted : AcceptedIn filled.kernel filled.buffer.bytes call) :
    source.Sourced reads
      (delivered ++ [call.delivery (source.readings delivered.length call)]) := by
  intro e event hget
  rcases Nat.lt_or_ge e delivered.length with hlt | hge
  · rw [List.getElem?_append_left hlt] at hget
    exact h e event hget
  · rw [List.getElem?_append_right hge, List.getElem?_singleton] at hget
    split at hget
    · rename_i hzero
      obtain rfl : e = delivered.length := by omega
      exact ⟨call, filled, hread, haccepted, (Option.some.inj hget).symm⟩
    · cases hget

/-- The batch of a buffer is served by the moves of the loop. -/
theorem serves {reads : List ReadResult} {filled : FilledBuffer} (hread : .filled filled ∈ reads)
    {tail : Except (BufferError Empty) Unit} (calls : List EventCall)
    (haccepted : ∀ call ∈ calls, AcceptedIn filled.kernel filled.buffer.bytes call)
    {runtime : AuditRuntime} {delivered : List AuditDelivery}
    (h : Reachable (auditLoop source.setup learner) anyStep
      ⟨runtime, .serving (source.deliveries delivered.length calls) (batchTail tail), delivered⟩)
    (hsourced : source.Sourced reads delivered) :
    ∃ t, Reachable (auditLoop source.setup learner) anyStep t ∧ t.pc.between = true ∧
      source.Sourced reads t.delivered ∧
      t.seen =
        ((endingWith tail (handleAll source.handleCall (runtime, delivered) calls)).1.mapError
          ReadError.auditError,
        (endingWith tail (handleAll source.handleCall (runtime, delivered) calls)).2) := by
  induction calls generalizing runtime delivered with
  | nil =>
    cases tail with
    | ok _ => exact ⟨_, h.step (a := .endBatch) trivial rfl, rfl, hsourced, rfl⟩
    | error error =>
      refine ⟨_, h.step (a := .endBatch) trivial rfl, rfl, hsourced, ?_⟩
      rw [handleAll, endingWith, AuditSession.seen, AuditPc.outcome]
      exact congrArg (fun e => (Except.error e, runtime, delivered)) (auditError_lift error).symm
  | cons call calls ih =>
    let event := call.delivery (source.readings delivered.length call)
    have hfree := descriptorIsFree_of_reachable h rfl event
    have hnext := hsourced.append hread (haccepted call List.mem_cons_self)
    cases hhandle : (runtime.handOver event).handleEvent source.setup event with
    | mk result next =>
      have hcall : source.handleCall (runtime, delivered) call =
          (result, next, delivered ++ [event]) := by
        rw [handleCall]
        exact congrArg (fun r : Except AuditError Unit × AuditRuntime =>
          (r.1, r.2, delivered ++ [event])) hhandle
      rw [handleAll, hcall]
      cases result with
      | error error =>
        refine ⟨⟨next, .failed error, delivered ++ [event]⟩, h.step (a := .handle) trivial ?_, rfl,
          hnext, rfl⟩
        rw [step_handle, AuditSession.handle, deliveries]
        dsimp only
        rw [if_pos hfree, hhandle]
      | ok _ =>
        have hserved : Reachable (auditLoop source.setup learner) anyStep
            ⟨next,
              .serving (source.deliveries (delivered ++ [event]).length calls) (batchTail tail),
              delivered ++ [event]⟩ := by
          refine h.step (a := .handle) trivial ?_
          rw [step_handle, AuditSession.handle, deliveries]
          dsimp only
          rw [if_pos hfree, hhandle, List.length_append]
          rfl
        exact ih (fun call hcall => haccepted call (List.mem_cons_of_mem _ hcall)) hserved hnext

/-- One `read_events` is some moves of the loop. -/
theorem reads_once {reads : List ReadResult} {read : ReadResult} (hread : read ∈ reads)
    {runtime : AuditRuntime} {delivered : List AuditDelivery}
    (h : Reachable (auditLoop source.setup learner) anyStep ⟨runtime, .reading, delivered⟩)
    (hsourced : source.Sourced reads delivered) :
    ∃ t result, Reachable (auditLoop source.setup learner) anyStep t ∧ t.pc.between = true ∧
      source.Sourced reads t.delivered ∧
      readEventBatch source.handleCall (runtime, delivered) read = .ok result ∧
      t.seen = (result.1.mapError ReadError.auditError, result.2) := by
  cases read with
  | failed error =>
    exact ⟨_, _, h.step (a := .readError error) trivial rfl, rfl, hsourced, rfl, rfl⟩
  | filled filled =>
    obtain ⟨t, ht, hbetween, hsourced', hseen⟩ := serves hread filled.batch.1
      (fun _ hcall => accepted_batchFrom hcall)
      (h.step (a := .readBatch (source.deliveries delivered.length filled.batch.1)
        (batchTail filled.batch.2)) trivial rfl) hsourced
    exact ⟨t, _, ht, hbetween, hsourced',
      readEventBatch_batch source.handleCall filled (runtime, delivered), hseen⟩

theorem reads_all (reads : List ReadResult) {more : List ReadResult} (hmore : more ⊆ reads)
    {runtime : AuditRuntime} {delivered : List AuditDelivery}
    (h : Reachable (auditLoop source.setup learner) anyStep ⟨runtime, .reading, delivered⟩)
    (hsourced : source.Sourced reads delivered) :
    ∃ t, Reachable (auditLoop source.setup learner) anyStep t ∧ t.pc.between = true ∧
      source.Sourced reads t.delivered ∧
      source.readAll (runtime, delivered) more = .ok t.seen := by
  induction more generalizing runtime delivered with
  | nil => exact ⟨_, h, rfl, hsourced, rfl⟩
  | cons read more ih =>
    obtain ⟨hread, hmore⟩ := List.cons_subset.mp hmore
    obtain ⟨t, ⟨result, track⟩, ht, hbetween, hsourced', hbatch, hseen⟩ :=
      reads_once hread h hsourced
    rw [readAll, hbatch]
    obtain ⟨runtime', pc, delivered'⟩ := t
    obtain ⟨houtcome, htrack⟩ := Prod.mk.inj hseen
    dsimp only at houtcome htrack
    cases result with
    | error error =>
      exact ⟨_, ht, hbetween, hsourced', by rw [AuditSession.seen, houtcome, htrack]; rfl⟩
    | ok _ =>
      cases pc with
      | reading =>
        subst htrack
        exact ih hmore ht hsourced'
      | serving events tail => cases hbetween
      | failed error => cases houtcome

end AuditSource

/-- The loop over buffers never faults. Each of its runs ends where a run of the loop that
is given its events is between two reads, with the same result and in the same state, and
every event that was handed over was accepted from a place of one of the buffers. -/
theorem audit_buffers_are_events (source : AuditSource) (learner : Option AuditLearner)
    (reads : List ReadResult) :
    ∃ s, Reachable (auditLoop source.setup learner) anyStep s ∧ s.pc.between = true ∧
      source.run learner reads = .ok s.seen ∧ source.Sourced reads s.delivered := by
  have hstart : Reachable (auditLoop source.setup learner) anyStep (.start learner) := .of_init rfl
  have hnone : source.Sourced reads [] := fun e event hget => by cases hget
  obtain ⟨s, hs, hbetween, hsourced, hrun⟩ :=
    AuditSource.reads_all reads (List.Subset.refl reads) hstart hnone
  exact ⟨s, hs, hbetween, hrun, hsourced⟩

end ConfigGuard
