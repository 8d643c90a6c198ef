import ConfigGuard.Fanotify.Batch
import ConfigGuard.Guard.Delivery

/-!
# The guard over its buffers

`guard::run` from the bytes that `read` fills in. The prompt worker moves on between
two events of a buffer. Each of its runs is one of the guard that is given its events.
-/

namespace ConfigGuard
open OsPath Transition

/-- What is read about an event while it is handled. -/
structure GuardReading where
  target : Except String Path
  inspected : Option ProcessIdentity
  env : Env

def EventCall.guardEvent (call : EventCall) (reading : GuardReading) : GuardEvent where
  mask := call.metadata.mask
  fd := call.metadata.fd.toInt
  pid := call.metadata.pid.toInt
  target := reading.target
  inspected := reading.inspected
  env := reading.env

/-- `readings` are what is read about each of the events handed over. -/
structure GuardSource where
  guard : Guard
  readings : Nat → EventCall → GuardReading

/-- While a buffer is processed, the loop has the buffer and its place in it instead of
the events to come. `filled` are the buffers so far. -/
structure BufferedGuard where
  state : GuardState
  cursor : Option (FilledBuffer × Nat)
  filled : List FilledBuffer

inductive BufferedMove where
  | guard (a : Move)
  | fill (buffer : FilledBuffer)
  | turn

/-- The moves by which the guard goes on in a batch are made by the loop over the buffer. -/
def Move.beyondBatch : Move → Bool
  | .readBatch _ _ | .handle | .endBatch => false
  | _ => true

namespace BufferedGuard

def initial : BufferedGuard := ⟨.initial, none, []⟩

/-- `read` has succeeded. -/
def fill (s : BufferedGuard) (buffer : FilledBuffer) : Option BufferedGuard :=
  match s.state.main with
  | .reading =>
    some ⟨{ s.state with main := .serving [] (.ok ()) }, some (buffer, 0), s.filled ++ [buffer]⟩
  | _ => none

/-- One turn of the loop in `process_event_buffer`. -/
def turn (source : GuardSource) (s : BufferedGuard) : Option BufferedGuard :=
  match s.state.main, s.cursor with
  | .serving _ _, some (buffer, offset) =>
    match bufferTurn buffer.kernel buffer.buffer.bytes offset with
    | .error _ => none
    | .ok (.ended (.ok _)) => some { s with state := { s.state with main := .polling } }
    | .ok (.ended (.error error)) =>
      some { s with
        state := { s.state with main := .failed (.malformedEvent (error.message Empty.elim)) } }
    | .ok (.called call eventEnd) =>
      let event := call.guardEvent (source.readings s.state.world.handed.length call)
      (GuardState.handle source.guard { s.state with main := .serving [event] (.ok ()) }).map
        fun state => ⟨state, some (buffer, eventEnd), s.filled⟩
  | _, _ => none

def step (source : GuardSource) (s : BufferedGuard) : BufferedMove → Option BufferedGuard
  | .guard a =>
    if a.beyondBatch then
      (s.state.step source.guard a).map fun state => ⟨state, s.cursor, s.filled⟩
    else none
  | .fill buffer => s.fill buffer
  | .turn => s.turn source

end BufferedGuard

/-- All interleavings of the two threads, with the buffers that `read` fills. -/
def bufferedGuard (source : GuardSource) : System BufferedGuard BufferedMove where
  init s := s = .initial
  step := BufferedGuard.step source

/-- The events that these calls hand over, the first of them as the `n`th. -/
def GuardSource.events (source : GuardSource) : Nat → List EventCall → List GuardEvent
  | _, [] => []
  | n, call :: calls => call.guardEvent (source.readings n call) :: source.events (n + 1) calls

/-- What all calls of these buffers are. -/
def callsOf (buffers : List FilledBuffer) : List EventCall :=
  buffers.flatMap fun buffer => buffer.batch.1

theorem GuardSource.events_append (source : GuardSource) (n : Nat) (calls calls' : List EventCall) :
    source.events n (calls ++ calls') =
      source.events n calls ++ source.events (n + calls.length) calls' := by
  induction calls generalizing n with
  | nil => rfl
  | cons call calls ih =>
    rw [List.cons_append, events, events, ih, List.cons_append, List.length_cons, Nat.add_assoc,
      Nat.add_comm 1]

theorem GuardSource.length_events (source : GuardSource) (n : Nat) (calls : List EventCall) :
    (source.events n calls).length = calls.length := by
  induction calls generalizing n with
  | nil => rfl
  | cons call calls ih => rw [events, List.length_cons, List.length_cons, ih]

def MainPc.inBatch : MainPc → Bool
  | serving _ _ | recording _ _ _ _ => true
  | _ => false

def MainPc.withBatch (events : List GuardEvent) (tail : Except String Unit) : MainPc → MainPc
  | serving _ _ => serving events tail
  | recording id prompt _ _ => recording id prompt events tail
  | main => main

/-- The events to come of the batch it is in. -/
def GuardState.withBatch (events : List GuardEvent) (tail : Except String Unit) (s : GuardState) :
    GuardState :=
  { s with main := s.main.withBatch events tail }

section

variable {g : Guard} {s t : GuardState} {a : Move} {events : List GuardEvent}
  {tail : Except String Unit}

theorem MainPc.withBatch_of_not_inBatch {main : MainPc} (h : main.inBatch = false) :
    main.withBatch events tail = main := by
  cases main with
  | serving | recording => cases h
  | _ => rfl

@[simp] theorem MainPc.live_withBatch (main : MainPc) :
    (main.withBatch events tail).live = main.live := by
  cases main <;> rfl

theorem GuardState.withBatch_of_not_inBatch (h : s.main.inBatch = false) :
    s.withBatch events tail = s := by
  rw [withBatch, MainPc.withBatch_of_not_inBatch h]

/-- Only `handle` hands an event over. -/
theorem Stepped.handed_eq (h : Stepped g s a t) (ha : a.beyondBatch = true) :
    t.world.handed = s.world.handed := by
  cases h with
  | handled | sent | unsent => cases ha
  | completed _ _ _ _ _ _ _ _ _ _ hcompleted => exact hcompleted.quiet.handed
  | fellBack => exact (failPrompts_quiet _ _ _).handed
  | _ => rfl

/-- Of the moves beyond the batch, the main thread makes only `record` in a batch. -/
theorem not_inBatch_of_step (ha : a.beyondBatch = true) (hworker : a.byWorker = false)
    (hrecord : a ≠ .record) (h : s.step g a = some t) :
    s.main.inBatch = false ∧ t.main.inBatch = false := by
  cases hmain : s.main <;> cases a <;>
    simp only [GuardState.step, GuardState.poll, GuardState.readWake, GuardState.tryRecv,
      GuardState.failPending, GuardState.drop, GuardState.join, MainPc.afterCompletions, hmain]
      at h <;>
    grind [MainPc.inBatch, Move.beyondBatch, Move.byWorker]

theorem main_of_worker_move (events : List GuardEvent) (tail : Except String Unit)
    (hworker : a.byWorker = true) (h : s.step g a = some t) :
    t.main = s.main ∧
      (s.withBatch events tail).step g a = some (t.withBatch events tail) := by
  cases a with
  | workerRecv =>
    simp only [GuardState.step, GuardState.workerRecv, GuardState.stopWorker,
      GuardState.withBatch, MainPc.live_withBatch] at h ⊢
    cases hpc : s.worker <;> cases hjobs : s.jobs <;> simp only [hpc, hjobs] at h ⊢ <;> grind
  | workerResolve | workerNotify | workerFail =>
    simp only [GuardState.step, GuardState.workerResolve, GuardState.workerNotify,
      GuardState.workerFail, GuardState.stopWorker, GuardState.withBatch,
      MainPc.live_withBatch] at h ⊢
    cases hpc : s.worker <;> simp only [hpc] at h ⊢ <;> grind
  | _ => cases hworker

/-- What the guard does beyond its batch, it does whatever the batch is. -/
theorem step_withBatch (events : List GuardEvent) (tail : Except String Unit)
    (ha : a.beyondBatch = true) (h : s.step g a = some t) :
    (s.withBatch events tail).step g a = some (t.withBatch events tail) ∧
      t.main.inBatch = s.main.inBatch := by
  cases hworker : a.byWorker with
  | true =>
    obtain ⟨hmain, hstep⟩ := main_of_worker_move events tail hworker h
    exact ⟨hstep, by rw [hmain]⟩
  | false =>
    by_cases hrecord : a = .record
    · subst hrecord
      simp only [GuardState.step, GuardState.record] at h
      split at h
      · rename_i id prompt events' tail' hmain
        rw [← Option.some.inj h]
        refine ⟨?_, by rw [hmain]; rfl⟩
        simp only [GuardState.step, GuardState.record, GuardState.withBatch, MainPc.withBatch,
          hmain]
      · cases h
    · obtain ⟨hs, ht⟩ := not_inBatch_of_step ha hworker hrecord h
      rw [GuardState.withBatch_of_not_inBatch hs, GuardState.withBatch_of_not_inBatch ht]
      exact ⟨h, ht.trans hs.symm⟩

theorem withBatch_afterEvent (result : Except GuardError Unit) (done : Except String Unit) :
    (MainPc.afterEvent result [] done).withBatch events tail =
      MainPc.afterEvent result events tail := by
  cases result <;> rfl

/-- The event in front is handled whatever comes after it. -/
theorem handle_withBatch (events : List GuardEvent) (tail : Except String Unit)
    {event : GuardEvent} {done : Except String Unit}
    (h : GuardState.handle g { s with main := .serving [event] done } = some t) :
    GuardState.handle g { s with main := .serving (event :: events) tail } =
      some (t.withBatch events tail) := by
  simp only [GuardState.handle] at h ⊢
  split at h
  · rename_i hfree
    rw [if_pos hfree]
    cases hhandle : handleEvent g s.coordinator (s.world.handOver event) event with
    | mk handling rest =>
      obtain ⟨c, w⟩ := rest
      rw [hhandle] at h
      cases handling with
      | finished result =>
        rw [← Option.some.inj h]
        simp only [GuardState.withBatch, withBatch_afterEvent]
      | sending job prompt =>
        dsimp only at h ⊢
        split at h <;> rw [← Option.some.inj h] <;>
          simp_all [GuardState.withBatch, MainPc.withBatch]
  · cases h

/-- An event has been handed over; the loop is in its batch still, or has failed. -/
theorem handed_of_handle (h : s.handle g = some t) :
    ∃ event events tail, s.main = .serving (event :: events) tail ∧
      t.world.handed = s.world.handed ++ [event] ∧
      (t.main.running = true → t.main.inBatch = true) := by
  unfold GuardState.handle at h
  split at h
  · rename_i event events tail hmain
    refine ⟨event, events, tail, hmain, ?_⟩
    have hcases := handleEvent_cases g s.coordinator (s.world.handOver event) event
    split at h
    · split at h
      · rename_i result c w hhandled
        rw [hhandled] at hcases
        rw [← Option.some.inj h]
        refine ⟨hcases.quiet.handed, ?_⟩
        cases result with
        | ok _ => exact fun _ => rfl
        | error error => exact nofun
      · rename_i job prompt c w hhandled
        rw [hhandled] at hcases
        split at h
        · rw [← Option.some.inj h]
          exact ⟨(handed_respondAndCloseEvent _ _ _ _ _).trans hcases.quiet.handed, nofun⟩
        · rw [← Option.some.inj h]
          exact ⟨hcases.quiet.handed, fun _ => rfl⟩
    · cases h
  · cases h

end

/-- These calls have been made, `rest` is left of the buffer in work, and with it the
state is one of the guard that is given its events. -/
structure Follows (source : GuardSource) (s : BufferedGuard) (calls rest : List EventCall)
    (tail : Except (BufferError Empty) Unit) : Prop where
  run : Reachable (guardRun source.guard) anyStep
    (s.state.withBatch (source.events calls.length rest) (batchTail tail))
  handed : s.state.world.handed = source.events 0 calls
  filled : callsOf s.filled = calls ++ rest
  cursor : s.state.main.inBatch = true → ∃ buffer offset fuel, s.cursor = some (buffer, offset) ∧
    offset ≤ buffer.buffer.bytes.length ∧ buffer.buffer.bytes.length < fuel + 1 + offset ∧
    batchFrom buffer.kernel buffer.buffer.bytes (fuel + 1) offset = (rest, tail)
  idle : s.state.main.running = true → s.state.main.inBatch = false → rest = []

section

variable {source : GuardSource} {s t : BufferedGuard} {calls rest : List EventCall}
  {tail : Except (BufferError Empty) Unit}

theorem follows_initial (source : GuardSource) : Follows source .initial [] [] (.ok ()) := by
  refine ⟨.of_init rfl, rfl, rfl, ?_, fun _ _ => rfl⟩
  intro h
  cases h

theorem Follows.guard (hs : Follows source s calls rest tail) {a : Move}
    (h : s.step source (.guard a) = some t) : Follows source t calls rest tail := by
  simp only [BufferedGuard.step] at h
  split at h
  · rename_i ha
    obtain ⟨state, hstate, rfl⟩ := Option.map_eq_some_iff.mp h
    obtain ⟨hstep, hbatch⟩ := step_withBatch (source.events calls.length rest)
      (batchTail tail) ha hstate
    refine ⟨hs.run.step trivial hstep, ?_, hs.filled, ?_, ?_⟩
    · exact ((step_inv hstate).handed_eq ha).trans hs.handed
    · intro hin
      exact hs.cursor (hbatch.symm.trans hin)
    · intro hrunning hout
      exact hs.idle (running_of_step hstate hrunning) (hbatch.symm.trans hout)
  · cases h

/-- The guard that is given its events reads the batch of the buffer. -/
theorem Follows.fill (hs : Follows source s calls rest tail) {buffer : FilledBuffer}
    (h : s.step source (.fill buffer) = some t) :
    Follows source t calls buffer.batch.1 buffer.batch.2 := by
  simp only [BufferedGuard.step, BufferedGuard.fill] at h
  split at h
  · rename_i hmain
    rw [← Option.some.inj h]
    have hrest : rest = [] := hs.idle (by rw [hmain]; rfl) (by rw [hmain]; rfl)
    have hrun := hs.run
    rw [GuardState.withBatch_of_not_inBatch (by rw [hmain]; rfl)] at hrun
    refine ⟨hrun.step (a := .readBatch (source.events calls.length buffer.batch.1)
      (batchTail buffer.batch.2)) trivial ?_, hs.handed, ?_, ?_, nofun⟩
    · simp only [guardRun, GuardState.step, hmain]
      rfl
    · have hfilled := hs.filled
      rw [hrest, List.append_nil] at hfilled
      rw [callsOf, List.flatMap_append, List.flatMap_singleton, ← callsOf, hfilled]
    · intro _
      exact ⟨buffer, 0, buffer.buffer.bytes.length, rfl, Nat.zero_le _, Nat.lt_succ_self _, rfl⟩
  · cases h

/-- The end of the buffer is the end of its batch. -/
theorem Follows.ended (hs : Follows source s calls rest tail) {buffer : FilledBuffer} {offset : Nat}
    (hin : s.state.main.inBatch = true) (hcursor : s.cursor = some (buffer, offset))
    {result : Except (BufferError Empty) Unit}
    (hturn : bufferTurn buffer.kernel buffer.buffer.bytes offset = .ok (.ended result)) :
    rest = [] ∧ tail = result := by
  obtain ⟨buffer', offset', fuel, hcursor', _, _, hbatch⟩ := hs.cursor hin
  obtain ⟨rfl, rfl⟩ := Prod.mk.inj (Option.some.inj (hcursor.symm.trans hcursor'))
  rw [batchFrom_ended hturn] at hbatch
  exact ⟨(Prod.mk.inj hbatch).1.symm, (Prod.mk.inj hbatch).2.symm⟩

/-- The next event of the buffer is the next of its batch. -/
theorem Follows.called (hs : Follows source s calls rest tail) {buffer : FilledBuffer} {offset : Nat}
    (hin : s.state.main.inBatch = true) (hcursor : s.cursor = some (buffer, offset))
    {call : EventCall} {eventEnd : Nat}
    (hturn : bufferTurn buffer.kernel buffer.buffer.bytes offset = .ok (.called call eventEnd)) :
    ∃ rest' fuel, rest = call :: rest' ∧ eventEnd ≤ buffer.buffer.bytes.length ∧
      buffer.buffer.bytes.length < fuel + 1 + eventEnd ∧
      batchFrom buffer.kernel buffer.buffer.bytes (fuel + 1) eventEnd = (rest', tail) := by
  obtain ⟨buffer', offset', fuel, hcursor', hoffset, hfuel, hbatch⟩ := hs.cursor hin
  obtain ⟨rfl, rfl⟩ := Prod.mk.inj (Option.some.inj (hcursor.symm.trans hcursor'))
  rcases bufferTurn_cases buffer.kernel buffer.buffer.bytes offset with ⟨result, hended⟩ |
    ⟨call', haccepts, hcalled⟩
  · rw [hended] at hturn
    cases hturn
  · obtain ⟨rfl, rfl⟩ := BufferTurn.called.inj (Except.ok.inj (hcalled.symm.trans hturn))
    have hpos := haccepts.eventLen_pos
    have hfits := haccepts.fits
    rw [List.length_drop] at hfits
    rw [batchFrom_called hturn] at hbatch
    obtain ⟨hrest, htail⟩ := Prod.mk.inj hbatch
    obtain ⟨fuel, rfl⟩ : ∃ n, fuel = n + 1 := Nat.exists_eq_succ_of_ne_zero (by omega)
    exact ⟨_, fuel, hrest.symm, by omega, by omega, by rw [← htail]⟩

theorem Follows.turn (hs : Follows source s calls rest tail) (h : s.step source .turn = some t) :
    ∃ calls' rest', Follows source t calls' rest' tail := by
  simp only [BufferedGuard.step, BufferedGuard.turn] at h
  split at h
  · rename_i _ _ events done buffer offset hmain hcursor
    have hin : s.state.main.inBatch = true := by rw [hmain]; rfl
    have hbatch : s.state.withBatch (source.events calls.length rest) (batchTail tail) =
        { s.state with
          main := .serving (source.events calls.length rest) (batchTail tail) } := by
      rw [GuardState.withBatch, hmain]
      rfl
    have hrun := hs.run
    rw [hbatch] at hrun
    split at h
    · cases h
    · rename_i hturn
      obtain ⟨rfl, rfl⟩ := hs.ended hin hcursor hturn
      rw [← Option.some.inj h]
      exact ⟨calls, [], hrun.step (a := .endBatch) trivial rfl, hs.handed, hs.filled, nofun,
        fun _ _ => rfl⟩
    · rename_i error hturn
      obtain ⟨rfl, rfl⟩ := hs.ended hin hcursor hturn
      rw [← Option.some.inj h]
      exact ⟨calls, [], hrun.step (a := .endBatch) trivial rfl, hs.handed, hs.filled, nofun,
        fun _ _ => rfl⟩
    · rename_i call eventEnd hturn
      obtain ⟨rest', fuel, rfl, hend, hfuel, hrest'⟩ := hs.called hin hcursor hturn
      obtain ⟨state, hstate, rfl⟩ := Option.map_eq_some_iff.mp h
      have hlength : s.state.world.handed.length = calls.length := by
        rw [hs.handed, GuardSource.length_events]
      rw [hlength] at hstate
      have hstep := handle_withBatch (source.events (calls.length + 1) rest')
        (batchTail tail) hstate
      obtain ⟨event, _, _, hmain', hhanded, hbatched⟩ := handed_of_handle hstate
      obtain ⟨rfl, -⟩ := List.cons.inj (MainPc.serving.inj hmain').1
      refine ⟨calls ++ [call], rest', ?_, ?_, ?_, ?_, ?_⟩
      · rw [List.length_append]
        exact hrun.step (a := .handle) trivial hstep
      · rw [hhanded, GuardSource.events_append, Nat.zero_add, hs.handed]
        rfl
      · rw [hs.filled, List.append_assoc]
        rfl
      · intro _
        exact ⟨buffer, eventEnd, fuel, rfl, hend, hfuel, hrest'⟩
      · intro hrunning hout
        exact absurd ((hbatched hrunning).symm.trans hout) (by decide)
  · cases h

theorem follows_step {a : BufferedMove} (hs : Follows source s calls rest tail)
    (h : s.step source a = some t) : ∃ calls' rest' tail', Follows source t calls' rest' tail' := by
  cases a with
  | guard a => exact ⟨calls, rest, tail, hs.guard h⟩
  | fill buffer => exact ⟨calls, _, _, hs.fill h⟩
  | turn =>
    obtain ⟨calls', rest', hs'⟩ := hs.turn h
    exact ⟨calls', rest', tail, hs'⟩

theorem follows_reachable (h : Reachable (bufferedGuard source) anyStep s) :
    ∃ calls rest tail, Follows source s calls rest tail := by
  refine Reachable.invariant (I := fun s => ∃ calls rest tail, Follows source s calls rest tail)
    ?_ ?_ h
  · rintro _ rfl
    exact ⟨[], [], .ok (), follows_initial source⟩
  · rintro s a t ⟨calls, rest, tail, hs⟩ _ hstep
    exact follows_step hs hstep

end

/-- Each state of the guard over buffers is, with the events filled in that the rest of
the buffer in work will hand over, one of the guard that is given its events. The events
handed over are those of the buffers, each once and in order; between two buffers none is
left. A buffer in work never faults, and what its events are and what it ends with does
not depend on how they are handled. -/
theorem guard_buffers_are_events (source : GuardSource) (s : BufferedGuard)
    (h : Reachable (bufferedGuard source) anyStep s) :
    (∃ calls rest tail,
      Reachable (guardRun source.guard) anyStep
        (s.state.withBatch (source.events calls.length rest) (batchTail tail)) ∧
      s.state.world.handed = source.events 0 calls ∧
      callsOf s.filled = calls ++ rest ∧
      (s.state.main.running = true → s.state.main.inBatch = false → rest = [])) ∧
    (s.state.main.inBatch = true → ∃ buffer offset turn, s.cursor = some (buffer, offset) ∧
      bufferTurn buffer.kernel buffer.buffer.bytes offset = .ok turn) ∧
    ∀ buffer ∈ s.filled, ∀ (ε : Type) (handleEvent : EventHandler ε),
      processEventBuffer buffer.kernel handleEvent buffer.buffer =
        .ok (deliverThen handleEvent buffer.batch.2 [] buffer.batch.1) := by
  obtain ⟨calls, rest, tail, hs⟩ := follows_reachable h
  refine ⟨⟨calls, rest, tail, hs.run, hs.handed, hs.filled, hs.idle⟩, ?_, ?_⟩
  · intro hin
    obtain ⟨buffer, offset, _, hcursor, _⟩ := hs.cursor hin
    rcases bufferTurn_cases buffer.kernel buffer.buffer.bytes offset with ⟨_, hturn⟩ | ⟨_, _, hturn⟩
    · exact ⟨buffer, offset, _, hcursor, hturn⟩
    · exact ⟨buffer, offset, _, hcursor, hturn⟩
  · intro buffer _ ε handleEvent
    exact processEventBuffer_batch buffer.kernel handleEvent buffer.buffer

/-- The bytes of one event: a process opens a file that a response is waited for. -/
def openPermBuffer : FilledBuffer where
  buffer :=
    { bytes := [24, 0, 0, 0, 3, 0, 24, 0, 0, 0, 1, 0, 0, 0, 0, 0, 5, 0, 0, 0, 42, 0, 0, 0]
      small := by decide }
  kernel := ⟨fun _ => .ok pidFsMagic, fun _ => .error "no pidfd", fun _ => true⟩

def piSource : GuardSource where
  guard := piGuard
  readings := fun _ _ => ⟨catOpens.target, catOpens.inspected, catOpens.env⟩

def bufferedAsked : BufferedGuard :=
  runFrom (bufferedGuard piSource) anyStep .initial
    [.guard (.poll true), .fill openPermBuffer, .turn, .guard .workerRecv, .guard .record, .turn]

theorem bufferedAsked_reachable : Reachable (bufferedGuard piSource) anyStep bufferedAsked :=
  ⟨.initial, rfl, runFrom_steps (by decide)⟩

theorem guard_buffers_are_events_asked : ∃ calls,
    bufferedAsked.state.world.handed = piSource.events 0 calls ∧
      callsOf bufferedAsked.filled = calls := by
  obtain ⟨calls, rest, _, _, hhanded, hfilled, hrest⟩ :=
    (guard_buffers_are_events piSource bufferedAsked bufferedAsked_reachable).1
  rw [hrest rfl rfl, List.append_nil] at hfilled
  exact ⟨calls, hhanded, hfilled⟩

end ConfigGuard
