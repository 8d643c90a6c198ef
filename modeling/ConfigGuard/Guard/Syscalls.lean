import ConfigGuard.Guard.Buffers
import ConfigGuard.Guard.Wakeup

/-!
# The guard over its system calls

`wait_for_activity`, `drain_wake_reader` and the wake byte of the worker from what
`poll`, `read` and `write` return. A call can be interrupted, and a read takes any part
of the bytes that wait. Where the calls tell the truth about the wake socket, a run over
them is one of the guard that is told when to move, and the other way round.
-/

namespace ConfigGuard
open OsPath Transition

def pollIn : BitVec 16 := 0x001

def pollErr : BitVec 16 := 0x008

def pollHup : BitVec 16 := 0x010

def pollNval : BitVec 16 := 0x020

structure GuardActivity where
  fanotifyReady : Bool
  promptReady : Bool
  promptWorkerClosed : Bool

def rejectPollErrors (name : String) (revents : BitVec 16) : Except String Unit :=
  let errors := revents &&& (pollErr ||| pollNval)
  if errors ≠ 0 then
    .error (s!"{name} poll failed with flags 0x" ++ String.ofList (Nat.toDigits 16 errors.toNat))
  else .ok ()

/-- The flags of the two descriptors, or an error. -/
inductive PollCall where
  | ready (fanotify wake : BitVec 16)
  | interrupted
  | failed (error : String)

/-- `wait_for_activity` after a call of `poll`; `none` where it polls again. -/
def waitForActivity : PollCall → Option (Except String GuardActivity)
  | .interrupted => none
  | .failed _ => some (.error "polling guard fanotify and prompt descriptors")
  | .ready fanotify wake => some do
    rejectPollErrors "fanotify" fanotify
    rejectPollErrors "prompt worker" wake
    return {
      fanotifyReady := fanotify &&& pollIn ≠ 0
      promptReady := wake &&& (pollIn ||| pollHup) ≠ 0
      promptWorkerClosed := wake &&& pollHup ≠ 0 }

/-- The number of bytes that are read, or an error. -/
inductive ReadCall where
  | bytes (n : Nat)
  | wouldBlock
  | interrupted
  | failed (error : String)

def ReadCall.taken : ReadCall → Nat
  | bytes n => n
  | _ => 0

/-- `drain_wake_reader` after a `read`: whether the worker has closed its end; `none` where
it reads again. -/
def drainWakeReader : ReadCall → Option (Except String Bool)
  | .bytes 0 => some (.ok true)
  | .bytes _ => none
  | .wouldBlock => some (.ok false)
  | .interrupted => none
  | .failed error => some (.error error)

/-- What a `write` in `write_all` returns. -/
inductive WriteCall where
  | bytes (n : Nat)
  | interrupted
  | brokenPipe
  | failed (error : String)

namespace GuardState

def pollCall (s : GuardState) (call : PollCall) : Option GuardState :=
  match s.main with
  | .polling =>
    match waitForActivity call with
    | none => some s
    | some (.error error) => some { s with main := .failed (.polling error) }
    | some (.ok activity) =>
      some { s with
        main := if activity.promptReady
          then .drainingWake activity.promptWorkerClosed activity.fanotifyReady
          else .afterCompletions activity.fanotifyReady }
  | _ => none

def readCall (s : GuardState) (call : ReadCall) : Option GuardState :=
  match s.main with
  | .drainingWake closed fanotifyReady =>
    match drainWakeReader call with
    | none => some { s with wakeBytes := s.wakeBytes - call.taken }
    | some (.error error) => some { s with main := .failed (.readingWake error) }
    | some (.ok wakeReaderClosed) =>
      some { s with main := .drainingCompletions (closed || wakeReaderClosed) fanotifyReady }
  | _ => none

/-- The worker returns after a failed write, whatever the error. -/
def writeCall (s : GuardState) (call : WriteCall) : Option GuardState :=
  match s.worker with
  | .notifying =>
    match call with
    | .bytes 0 | .brokenPipe | .failed _ => some (s.stopWorker false)
    | .bytes _ => some { s with wakeBytes := s.wakeBytes + 1, worker := .idle }
    | .interrupted => some s
  | _ => none

end GuardState

inductive CallMove where
  | buffered (a : BufferedMove)
  | poll (call : PollCall)
  | read (call : ReadCall)
  | write (call : WriteCall)

/-- What the calls on the wake socket decide. -/
def BufferedMove.byCall (s : GuardState) : BufferedMove → Bool
  | .guard (.poll _) | .guard (.pollError _) | .guard .readWake | .guard (.wakeError _)
  | .guard .workerNotify => true
  | .guard a => !wakesLoop s a
  | _ => false

def BufferedGuard.callStep (source : GuardSource) (s : BufferedGuard) :
    CallMove → Option BufferedGuard
  | .buffered a => if a.byCall s.state then none else s.step source a
  | .poll call => (s.state.pollCall call).map fun state => { s with state }
  | .read call => (s.state.readCall call).map fun state => { s with state }
  | .write call => (s.state.writeCall call).map fun state => { s with state }

/-- All interleavings of the two threads with their system calls. -/
def callGuard (source : GuardSource) : System BufferedGuard CallMove where
  init s := s = .initial
  step := BufferedGuard.callStep source

/-- What `poll` says of two descriptors: some flag is set, and the ones of the wake socket
are true of it. -/
structure PollReports (s : GuardState) (fanotify wake : BitVec 16) : Prop where
  some_flag : fanotify ≠ 0 ∨ wake ≠ 0
  fanotify_flags : fanotify &&& ~~~(pollIn ||| (pollErr ||| pollNval)) = 0
  wake_flags : wake &&& ~~~((pollIn ||| pollHup) ||| (pollErr ||| pollNval)) = 0
  readable : wake &&& (pollErr ||| pollNval) = 0 →
    (wake &&& pollIn ≠ 0 ↔ s.wakeBytes ≠ 0 ∨ s.worker.isStopped = true)
  closed : wake &&& (pollErr ||| pollNval) = 0 → (wake &&& pollHup ≠ 0 ↔ s.worker.isStopped = true)

/-- The calls on the wake socket report what is true of it; any of them can fail. -/
def Reported (s : BufferedGuard) : CallMove → Prop
  | .poll (.ready fanotify wake) => PollReports s.state fanotify wake
  | .read (.bytes 0) => s.state.wakeBytes = 0 ∧ s.state.worker.isStopped = true
  | .read (.bytes n) => n ≤ wakeBufferSize ∧ n ≤ s.state.wakeBytes
  | .read .wouldBlock => s.state.wakeBytes = 0 ∧ s.state.worker.isStopped = false
  | .write (.bytes n) => n = 1 ∧ s.state.main.live = true
  | .write .brokenPipe => s.state.main.live = false
  | _ => True

instance (s : GuardState) (fanotify wake : BitVec 16) : Decidable (PollReports s fanotify wake) :=
  decidable_of_iff (_ ∧ _ ∧ _ ∧ _ ∧ _)
    ⟨fun ⟨h₁, h₂, h₃, h₄, h₅⟩ => ⟨h₁, h₂, h₃, h₄, h₅⟩, fun h => ⟨h.1, h.2, h.3, h.4, h.5⟩⟩

instance (s : BufferedGuard) : (a : CallMove) → Decidable (Reported s a)
  | .poll (.ready fanotify wake) => inferInstanceAs (Decidable (PollReports s.state fanotify wake))
  | .read (.bytes 0) | .read (.bytes (_ + 1)) | .read .wouldBlock | .write (.bytes _) =>
    inferInstanceAs (Decidable (_ ∧ _))
  | .write .brokenPipe => inferInstanceAs (Decidable (_ = _))
  | .buffered _ | .poll .interrupted | .poll (.failed _) | .read .interrupted
  | .read (.failed _) | .write .interrupted | .write (.failed _) => isTrue trivial

/-- The loop ends with an error of `wait_for_activity` only as one that it can return. -/
def FromPoll (s : BufferedGuard) : BufferedMove → Prop
  | .guard (.pollError error) =>
    ∃ call, Reported s (.poll call) ∧ waitForActivity call = some (.error error)
  | _ => True

theorem eq_zero_of_flags {flags mask : BitVec 16} (h : flags &&& mask = 0)
    (hrest : flags &&& ~~~mask = 0) : flags = 0 := by
  have hsplit : flags = flags &&& (mask ||| ~~~mask) := by
    rw [BitVec.or_not_self, BitVec.and_allOnes]
  rw [hsplit, BitVec.and_or_distrib_left, h, hrest]
  rfl

theorem rejectPollErrors_ok {name : String} {revents : BitVec 16}
    (h : rejectPollErrors name revents = .ok ()) : revents &&& (pollErr ||| pollNval) = 0 := by
  unfold rejectPollErrors at h
  by_contra hne
  rw [if_pos hne] at h
  cases h

theorem waitForActivity_ok {fanotify wake : BitVec 16} {activity : GuardActivity}
    (h : waitForActivity (.ready fanotify wake) = some (.ok activity)) :
    fanotify &&& (pollErr ||| pollNval) = 0 ∧ wake &&& (pollErr ||| pollNval) = 0 ∧
      activity = {
        fanotifyReady := fanotify &&& pollIn ≠ 0
        promptReady := wake &&& (pollIn ||| pollHup) ≠ 0
        promptWorkerClosed := wake &&& pollHup ≠ 0 } := by
  have h := Option.some.inj h
  cases hfanotify : rejectPollErrors "fanotify" fanotify with
  | error error => rw [hfanotify] at h; cases h
  | ok _ =>
    cases hwake : rejectPollErrors "prompt worker" wake with
    | error error => rw [hfanotify, hwake] at h; cases h
    | ok _ =>
      rw [hfanotify, hwake] at h
      exact ⟨rejectPollErrors_ok hfanotify, rejectPollErrors_ok hwake, (Except.ok.inj h).symm⟩

def GuardState.withWakeBytes (n : Nat) (s : GuardState) : GuardState := { s with wakeBytes := n }

def BufferedGuard.withWakeBytes (n : Nat) (s : BufferedGuard) : BufferedGuard :=
  { s with state := s.state.withWakeBytes n }

section

variable {g : Guard} {source : GuardSource}

theorem handle_withWakeBytes (n : Nat) (s : GuardState) :
    (s.withWakeBytes n).handle g = (s.handle g).map (.withWakeBytes n) := by
  unfold GuardState.handle
  simp only [GuardState.withWakeBytes]
  split
  · rename_i event events tail hmain
    by_cases hfree : s.world.descriptorIsFree event = true
    · simp only [hfree, if_true]
      obtain ⟨handling, c, w⟩ := handleEvent g s.coordinator (s.world.handOver event) event
      cases handling with
      | finished result => rfl
      | sending job prompt =>
        by_cases hstopped : s.worker.isStopped = true
        · simp only [hstopped, if_true, Option.map_some, GuardState.withWakeBytes]
        · simp only [hstopped, Bool.false_eq_true, if_false, Option.map_some, GuardState.withWakeBytes]
    · simp only [hfree, Bool.false_eq_true, if_false, Option.map_none]
  · rfl

/-- Only the calls on the wake socket and the end of the coordinator touch its bytes. -/
theorem step_withWakeBytes {s : GuardState} {a : Move}
    (ha : BufferedMove.byCall s (.guard a) = false) (hdrop : a ≠ .drop) (n : Nat) :
    (s.withWakeBytes n).step g a = (s.step g a).map (.withWakeBytes n) := by
  cases a with
  | poll | pollError | readWake | wakeError | workerNotify => cases ha
  | drop => exact absurd rfl hdrop
  | handle => exact handle_withWakeBytes n s
  | tryRecv =>
    simp only [GuardState.step, GuardState.tryRecv, GuardState.withWakeBytes]
    split
    · split <;> rfl
    · rfl
  | failPending order =>
    simp only [GuardState.step, GuardState.failPending, GuardState.withWakeBytes]
    split
    · by_cases horder : order.Perm s.coordinator.pending.keys
      · simp only [horder, if_true, Option.map_some, GuardState.withWakeBytes]
      · simp only [horder, if_false, Option.map_none]
    · rfl
  | readBatch | readError =>
    simp only [GuardState.step, GuardState.withWakeBytes]
    split <;> rfl
  | endBatch =>
    simp only [GuardState.step, GuardState.endBatch, GuardState.withWakeBytes]
    split <;> rfl
  | record =>
    simp only [GuardState.step, GuardState.record, GuardState.withWakeBytes]
    split <;> rfl
  | join =>
    simp only [GuardState.step, GuardState.join, GuardState.withWakeBytes]
    split <;> rfl
  | workerRecv =>
    simp only [GuardState.step, GuardState.workerRecv, GuardState.withWakeBytes]
    split
    · rfl
    · by_cases hlive : s.main.live = true
      · simp only [hlive, if_true, Option.map_none]
      · simp only [hlive, Bool.false_eq_true, if_false, Option.map_some, GuardState.stopWorker,
          GuardState.withWakeBytes]
    · rfl
  | workerResolve =>
    simp only [GuardState.step, GuardState.workerResolve, GuardState.withWakeBytes]
    split
    · by_cases hlive : s.main.live = true
      · simp only [hlive, if_true, Option.map_some, GuardState.withWakeBytes]
      · simp only [hlive, Bool.false_eq_true, if_false, Option.map_some, GuardState.stopWorker,
          GuardState.withWakeBytes]
    · rfl
  | workerFail =>
    simp only [GuardState.step, GuardState.workerFail, GuardState.withWakeBytes]
    split <;> rfl

theorem turn_withWakeBytes (n : Nat) (s : BufferedGuard) :
    (s.withWakeBytes n).turn source = (s.turn source).map (.withWakeBytes n) := by
  unfold BufferedGuard.turn
  simp only [BufferedGuard.withWakeBytes, GuardState.withWakeBytes]
  split
  · split
    · rfl
    · rfl
    · rfl
    · rename_i call eventEnd hturn
      let event := call.guardEvent (source.readings s.state.world.handed.length call)
      have hhandle := handle_withWakeBytes (g := source.guard) n
        { s.state with main := .serving [event] (.ok ()) }
      rw [Option.map_map]
      exact (congrArg (Option.map _) hhandle).trans (Option.map_map _ _ _)
  · rfl

/-- What a move other than the end of the coordinator does, it does whatever bytes wait. -/
theorem buffered_withWakeBytes {s : BufferedGuard} {a : BufferedMove}
    (ha : a.byCall s.state = false) (hdrop : a ≠ .guard .drop) (n : Nat) :
    (s.withWakeBytes n).step source a = (s.step source a).map (.withWakeBytes n) := by
  cases a with
  | guard a =>
    have hstep := step_withWakeBytes (g := source.guard) ha (fun heq => hdrop (heq ▸ rfl)) n
    simp only [BufferedGuard.step]
    split
    · rw [Option.map_map]
      exact (congrArg (Option.map _) hstep).trans (Option.map_map _ _ _)
    · rfl
  | fill buffer =>
    simp only [BufferedGuard.step, BufferedGuard.fill, BufferedGuard.withWakeBytes,
      GuardState.withWakeBytes]
    split <;> rfl
  | turn => exact turn_withWakeBytes n s

/-- The loop goes on, and is not reading the wake socket. -/
def MainPc.apart : MainPc → Bool
  | drainingWake _ _ | failed _ | joining _ | returned _ => false
  | _ => true

theorem apart_of_step {s t : BufferedGuard} {a : BufferedMove} (ha : a.byCall s.state = false)
    (h : s.step source a = some t) (ht : t.state.main.apart = true) :
    s.state.main.apart = true := by
  by_contra hs
  cases a with
  | fill buffer =>
    simp only [BufferedGuard.step, BufferedGuard.fill] at h
    cases hmain : s.state.main <;> simp only [hmain] at h hs <;> grind [MainPc.apart]
  | turn =>
    simp only [BufferedGuard.step, BufferedGuard.turn] at h
    cases hmain : s.state.main <;> simp only [hmain] at h hs <;> grind [MainPc.apart]
  | guard a =>
    simp only [BufferedGuard.step] at h
    split at h
    · obtain ⟨state, hstate, rfl⟩ := Option.map_eq_some_iff.mp h
      cases hworker : a.byWorker with
      | true => exact hs ((main_of_worker_move [] (.ok ()) hworker hstate).1 ▸ ht)
      | false =>
        cases hmain : s.state.main <;> cases a <;>
          simp only [GuardState.step, GuardState.tryRecv, GuardState.failPending,
            GuardState.handle, GuardState.endBatch, GuardState.record, GuardState.drop,
            GuardState.join, hmain] at hstate hs <;>
          grind [MainPc.apart, Move.byWorker, BufferedMove.byCall]
    · cases h

end

/-- With `n` bytes in the socket the state is one of the guard that reads as many at once as
it has room for; between two drainings both have the same bytes. -/
structure Lags (source : GuardSource) (s : BufferedGuard) (n : Nat) : Prop where
  run : Reachable (bufferedGuard source) FromPoll (s.withWakeBytes n)
  le : n ≤ s.state.wakeBytes
  same : s.state.main.apart = true → n = s.state.wakeBytes

section

variable {source : GuardSource} {s t : BufferedGuard} {n : Nat}

theorem lags_initial (source : GuardSource) : Lags source .initial 0 :=
  ⟨.of_init rfl, Nat.le_refl 0, fun _ => rfl⟩

theorem Lags.move (hs : Lags source s n) {a : Move} (ha : a.beyondBatch = true)
    (hpoll : FromPoll (s.withWakeBytes n) (.guard a)) {state : GuardState}
    (h : (s.state.withWakeBytes n).step source.guard a = some state) :
    Reachable (bufferedGuard source) FromPoll { s with state } := by
  refine hs.run.step (a := .guard a) hpoll ?_
  simp only [bufferedGuard, BufferedGuard.step, BufferedGuard.withWakeBytes]
  rw [if_pos ha, h]
  rfl

theorem drop_withWakeBytes (n : Nat) (s : BufferedGuard) :
    (s.withWakeBytes n).step source (.guard .drop) = s.step source (.guard .drop) := by
  simp only [BufferedGuard.step, GuardState.step, GuardState.drop, BufferedGuard.withWakeBytes,
    GuardState.withWakeBytes]

theorem wakeBytes_of_step {a : BufferedMove} (ha : a.byCall s.state = false)
    (hdrop : a ≠ .guard .drop) (h : s.step source a = some t) :
    t.state.wakeBytes = s.state.wakeBytes := by
  have hsame : s.step source a = (s.step source a).map (.withWakeBytes s.state.wakeBytes) :=
    buffered_withWakeBytes ha hdrop s.state.wakeBytes
  rw [h] at hsame
  rw [Option.some.inj hsame]
  rfl

theorem fromPoll_of_not_byCall {a : BufferedMove} (ha : a.byCall s.state = false)
    (u : BufferedGuard) : FromPoll u a := by
  cases a with
  | fill | turn => trivial
  | guard a =>
    cases a with
    | pollError error => cases ha
    | _ => trivial

theorem Lags.buffered (hs : Lags source s n) {a : BufferedMove} (ha : a.byCall s.state = false)
    (h : s.step source a = some t) : ∃ m, Lags source t m := by
  by_cases hdrop : a = .guard .drop
  · -- the socket is closed with whatever is in it
    subst hdrop
    refine ⟨t.state.wakeBytes, hs.run.step (a := .guard .drop) trivial ?_, Nat.le_refl _,
      fun _ => rfl⟩
    exact (drop_withWakeBytes n s).trans h
  · have hbytes := wakeBytes_of_step ha hdrop h
    refine ⟨n, hs.run.step (fromPoll_of_not_byCall ha _) ?_, hs.le.trans_eq hbytes.symm, ?_⟩
    · exact (buffered_withWakeBytes ha hdrop n).trans (congrArg (Option.map _) h)
    · intro hapart
      exact (hs.same (apart_of_step ha h hapart)).trans hbytes.symm

/-- What `wait_for_activity` returns is what the loop was waiting for. -/
theorem PollReports.activity {s : GuardState} {fanotify wake : BitVec 16}
    (h : PollReports s fanotify wake) {activity : GuardActivity}
    (hactivity : waitForActivity (.ready fanotify wake) = some (.ok activity)) :
    (activity.promptReady = true ↔ s.wakeBytes ≠ 0 ∨ s.worker.isStopped = true) ∧
      activity.promptWorkerClosed = s.worker.isStopped ∧
      (activity.promptReady = true ∨ activity.fanotifyReady = true) := by
  obtain ⟨hfanotify, hwake, rfl⟩ := waitForActivity_ok hactivity
  have hprompt : wake &&& (pollIn ||| pollHup) ≠ 0 ↔
      s.wakeBytes ≠ 0 ∨ s.worker.isStopped = true := by
    have hsplit : (wake &&& pollIn) ||| (wake &&& pollHup) = 0 ↔
        wake &&& pollIn = 0 ∧ wake &&& pollHup = 0 := BitVec.or_eq_zero_iff
    have hreadable := h.readable hwake
    have hclosed := h.closed hwake
    rw [BitVec.and_or_distrib_left, ne_eq, hsplit]
    tauto
  refine ⟨?_, ?_, ?_⟩
  · rw [decide_eq_true_iff]
    exact hprompt
  · rw [Bool.eq_iff_iff, decide_eq_true_iff]
    exact h.closed hwake
  · simp only [decide_eq_true_iff]
    by_contra hnone
    obtain ⟨hin, hready⟩ := not_or.mp hnone
    refine h.some_flag.elim (fun hne => hne ?_) (fun hne => hne ?_)
    · refine eq_zero_of_flags ?_ h.fanotify_flags
      rw [BitVec.and_or_distrib_left, not_not.mp hready, hfanotify]
      rfl
    · refine eq_zero_of_flags ?_ h.wake_flags
      rw [BitVec.and_or_distrib_left, not_not.mp hin, hwake]
      rfl

/-- At a poll both have the same bytes. -/
theorem Lags.at_poll (hs : Lags source s n) (hmain : s.state.main = .polling) :
    Reachable (bufferedGuard source) FromPoll s := by
  have hrun := hs.run
  rw [hs.same (by rw [hmain]; rfl)] at hrun
  exact hrun

theorem lags_of_reachable (h : Reachable (bufferedGuard source) FromPoll s) :
    Lags source s s.state.wakeBytes := ⟨h, Nat.le_refl _, fun _ => rfl⟩

theorem Lags.poll (hs : Lags source s n) {call : PollCall} (hreported : Reported s (.poll call))
    (h : s.callStep source (.poll call) = some t) : ∃ m, Lags source t m := by
  obtain ⟨state, hstate, rfl⟩ := Option.map_eq_some_iff.mp h
  unfold GuardState.pollCall at hstate
  split at hstate
  · rename_i hmain
    have hrun := hs.at_poll hmain
    have hmove : ∀ {a state}, a.beyondBatch = true → FromPoll s (.guard a) →
        s.state.step source.guard a = some state → Lags source { s with state } state.wakeBytes :=
      fun ha hpoll hstep => lags_of_reachable ((lags_of_reachable hrun).move ha hpoll hstep)
    split at hstate
    · obtain rfl := Option.some.inj hstate
      exact ⟨n, hs⟩
    · rename_i error hcall
      refine ⟨_, hmove (a := .pollError error) rfl ⟨call, hreported, hcall⟩ ?_⟩
      rw [← hstate, GuardState.step, hmain]
    · rename_i activity hcall
      cases call with
      | interrupted => cases hcall
      | failed error => cases hcall
      | ready fanotify wake =>
        obtain ⟨hprompt, hclosed, hready⟩ := PollReports.activity hreported hcall
        refine ⟨_, hmove (a := .poll activity.fanotifyReady) rfl trivial ?_⟩
        rw [← hstate]
        simp only [GuardState.step, GuardState.poll, hmain]
        by_cases hwake : activity.promptReady = true
        · rw [if_pos hwake, if_pos (hprompt.mp hwake), hclosed]
        · have hevents := hready.resolve_left hwake
          rw [if_neg hwake, if_neg (mt hprompt.mpr hwake), if_pos hevents, hevents]
          rfl
  · cases hstate

theorem Lags.read (hs : Lags source s n) {call : ReadCall} (hreported : Reported s (.read call))
    (h : s.callStep source (.read call) = some t) : ∃ m, Lags source t m := by
  obtain ⟨state, hstate, rfl⟩ := Option.map_eq_some_iff.mp h
  unfold GuardState.readCall at hstate
  split at hstate
  · rename_i closed fanotifyReady hmain
    have hends : s.state.wakeBytes = 0 → Lags source { s with
        state := { s.state with
          main := .drainingCompletions (closed || s.state.worker.isStopped) fanotifyReady } } 0 := by
      intro hempty
      have hn : n = 0 := Nat.le_zero.mp (hempty ▸ hs.le)
      refine ⟨?_, Nat.zero_le _, fun _ => hempty.symm⟩
      refine hs.move (a := .readWake) rfl trivial ?_
      simp only [GuardState.step, GuardState.readWake, GuardState.withWakeBytes, hmain, hn]
      rfl
    cases call with
    | bytes k =>
      cases k with
      | zero =>
        obtain ⟨hempty, hstopped⟩ := hreported
        rw [← Option.some.inj hstate]
        exact ⟨0, hstopped ▸ hends hempty⟩
      | succ k =>
        obtain ⟨hbuffer, hwaiting⟩ := hreported
        rw [← Option.some.inj hstate]
        have hdrains : s.state.main.apart = true → False := by
          intro hapart
          rw [hmain] at hapart
          cases hapart
        by_cases hn : n = 0
        · -- the other guard has nothing left to read
          exact ⟨0, hn ▸ hs.run, Nat.zero_le _, fun hapart => (hdrains hapart).elim⟩
        · refine ⟨n - min wakeBufferSize n, hs.move (a := .readWake) rfl trivial ?_, ?_,
            fun hapart => (hdrains hapart).elim⟩
          · simp only [GuardState.step, GuardState.readWake, GuardState.withWakeBytes, hmain]
            rw [if_pos hn]
          · have hle := hs.le
            simp only [ReadCall.taken]
            omega
    | wouldBlock =>
      obtain ⟨hempty, hrunning⟩ := hreported
      rw [← Option.some.inj hstate]
      exact ⟨0, hrunning ▸ hends hempty⟩
    | interrupted =>
      rw [← Option.some.inj hstate]
      exact ⟨n, hs⟩
    | failed error =>
      rw [← Option.some.inj hstate]
      refine ⟨n, hs.move (a := .wakeError error) rfl trivial ?_, hs.le, ?_⟩
      · simp only [GuardState.step, GuardState.withWakeBytes, hmain]
      · intro hapart
        cases hapart
  · cases hstate

theorem Lags.write (hs : Lags source s n) {call : WriteCall} (hreported : Reported s (.write call))
    (h : s.callStep source (.write call) = some t) : ∃ m, Lags source t m := by
  obtain ⟨state, hstate, rfl⟩ := Option.map_eq_some_iff.mp h
  unfold GuardState.writeCall at hstate
  split at hstate
  · rename_i hworker
    cases call with
    | bytes k =>
      obtain ⟨rfl, hlive⟩ := hreported
      rw [← Option.some.inj hstate]
      refine ⟨n + 1, hs.move (a := .workerNotify) rfl trivial ?_, Nat.succ_le_succ hs.le,
        fun hapart => congrArg Nat.succ (hs.same hapart)⟩
      simp only [GuardState.step, GuardState.workerNotify, GuardState.withWakeBytes, hworker]
      rw [if_pos hlive]
    | interrupted =>
      rw [← Option.some.inj hstate]
      exact ⟨n, hs⟩
    | brokenPipe =>
      rw [← Option.some.inj hstate]
      refine ⟨n, hs.move (a := .workerFail) rfl trivial ?_, hs.le, hs.same⟩
      simp only [GuardState.step, GuardState.workerFail, GuardState.withWakeBytes, hworker]
      rfl
    | failed error =>
      rw [← Option.some.inj hstate]
      refine ⟨n, hs.move (a := .workerFail) rfl trivial ?_, hs.le, hs.same⟩
      simp only [GuardState.step, GuardState.workerFail, GuardState.withWakeBytes, hworker]
      rfl
  · cases hstate

theorem lags_step {a : CallMove} (hs : Lags source s n) (hreported : Reported s a)
    (h : s.callStep source a = some t) : ∃ m, Lags source t m := by
  cases a with
  | buffered a =>
    simp only [BufferedGuard.callStep] at h
    split at h
    · cases h
    · rename_i ha
      exact hs.buffered (Bool.eq_false_iff.mpr ha) h
  | poll call => exact hs.poll hreported h
  | read call => exact hs.read hreported h
  | write call => exact hs.write hreported h

theorem lags_reachable (h : Reachable (callGuard source) Reported s) : ∃ n, Lags source s n := by
  refine h.invariant (I := fun s => ∃ n, Lags source s n) ?_ ?_
  · rintro _ rfl
    exact ⟨0, lags_initial source⟩
  · rintro s a t ⟨n, hs⟩ hreported hstep
    exact lags_step hs hreported hstep

end

def pollFlags (ready hangup : Bool) : BitVec 16 :=
  (if ready then pollIn else 0) ||| (if hangup then pollHup else 0)

theorem waitForActivity_pollFlags (fanotifyReady waiting closed : Bool) :
    waitForActivity (.ready (pollFlags fanotifyReady false) (pollFlags waiting closed)) =
      some (.ok ⟨fanotifyReady, waiting || closed, closed⟩) := by
  cases fanotifyReady <;> cases waiting <;> cases closed <;> rfl

theorem pollReports_pollFlags {s : GuardState} {fanotifyReady waiting : Bool}
    (hwaiting : waiting = true ↔ s.wakeBytes ≠ 0 ∨ s.worker.isStopped = true)
    (hsome : fanotifyReady = true ∨ waiting = true) :
    PollReports s (pollFlags fanotifyReady false) (pollFlags waiting s.worker.isStopped) := by
  have hflag : ∀ closed, pollFlags fanotifyReady false ≠ 0 ∨ pollFlags waiting closed ≠ 0 := by
    revert hsome
    cases fanotifyReady <;> cases waiting <;> decide
  refine ⟨hflag _, ?_, ?_, fun _ => ?_, fun _ => ?_⟩
  · cases fanotifyReady <;> rfl
  · cases waiting <;> cases s.worker.isStopped <;> rfl
  · rw [← hwaiting]
    cases waiting <;> cases s.worker.isStopped <;> decide
  · cases waiting <;> cases s.worker.isStopped <;> decide

section

variable {source : GuardSource} {s t : BufferedGuard}

theorem exists_pollCall {s state : GuardState} {fanotifyReady : Bool}
    (h : s.poll fanotifyReady = some state) :
    ∃ fanotify wake, PollReports s fanotify wake ∧
      s.pollCall (.ready fanotify wake) = some state := by
  unfold GuardState.poll at h
  split at h
  · rename_i hmain
    by_cases hwake : s.wakeBytes ≠ 0 ∨ s.worker.isStopped = true
    · rw [if_pos hwake] at h
      refine ⟨pollFlags fanotifyReady false, _,
        pollReports_pollFlags (iff_of_true rfl hwake) (.inr rfl), ?_⟩
      simp only [GuardState.pollCall, hmain, waitForActivity_pollFlags, ← h]
      rfl
    · rw [if_neg hwake] at h
      split at h
      · rename_i hready
        subst hready
        have hstopped : s.worker.isStopped = false :=
          Bool.eq_false_iff.mpr fun hstopped => hwake (.inr hstopped)
        refine ⟨_, _, pollReports_pollFlags (iff_of_false Bool.false_ne_true hwake) (.inl rfl), ?_⟩
        simp only [GuardState.pollCall, hmain, waitForActivity_pollFlags, hstopped, ← h]
        rfl
      · cases h
  · cases h

theorem exists_readCall {state : GuardState} (h : s.state.readWake = some state) :
    ∃ call, Reported s (.read call) ∧ s.state.readCall call = some state := by
  unfold GuardState.readWake at h
  split at h
  · rename_i closed fanotifyReady hmain
    by_cases hbytes : s.state.wakeBytes ≠ 0
    · rw [if_pos hbytes] at h
      obtain ⟨k, hk⟩ : ∃ k, min wakeBufferSize s.state.wakeBytes = k + 1 :=
        Nat.exists_eq_succ_of_ne_zero (by rw [wakeBufferSize]; omega)
      refine ⟨.bytes (k + 1), ?_, ?_⟩
      · exact ⟨hk ▸ Nat.min_le_left _ _, hk ▸ Nat.min_le_right _ _⟩
      · simp only [GuardState.readCall, hmain, drainWakeReader, ReadCall.taken, ← h, hk]
    · rw [if_neg hbytes] at h
      cases hstopped : s.state.worker.isStopped with
      | true =>
        refine ⟨.bytes 0, ⟨not_not.mp hbytes, hstopped⟩, ?_⟩
        simp only [GuardState.readCall, hmain, drainWakeReader, ← h, hstopped]
      | false =>
        refine ⟨.wouldBlock, ⟨not_not.mp hbytes, hstopped⟩, ?_⟩
        simp only [GuardState.readCall, hmain, drainWakeReader, ← h, hstopped]
  · cases h

theorem exists_writeCall {state : GuardState} (h : s.state.workerNotify = some state) :
    ∃ call, Reported s (.write call) ∧ s.state.writeCall call = some state := by
  unfold GuardState.workerNotify at h
  split at h
  · rename_i hworker
    by_cases hlive : s.state.main.live = true
    · rw [if_pos hlive] at h
      refine ⟨.bytes 1, ⟨rfl, hlive⟩, ?_⟩
      simp only [GuardState.writeCall, hworker, ← h]
    · rw [if_neg hlive] at h
      refine ⟨.brokenPipe, Bool.eq_false_iff.mpr hlive, ?_⟩
      simp only [GuardState.writeCall, hworker, ← h]
  · cases h

/-- For a move on the wake socket there is a call that makes it. -/
theorem exists_call {a : BufferedMove} (ha : a.byCall s.state = true) (hpoll : FromPoll s a)
    (h : s.step source a = some t) : ∃ c, Reported s c ∧ s.callStep source c = some t := by
  cases a with
  | fill | turn => cases ha
  | guard a =>
    simp only [BufferedGuard.step] at h
    split at h
    · obtain ⟨state, hstate, rfl⟩ := Option.map_eq_some_iff.mp h
      cases a with
      | poll fanotifyReady =>
        obtain ⟨fanotify, wake, hreports, hcall⟩ := exists_pollCall hstate
        exact ⟨.poll (.ready fanotify wake), hreports, congrArg (Option.map _) hcall⟩
      | pollError error =>
        obtain ⟨call, hreported, hcall⟩ := hpoll
        refine ⟨.poll call, hreported, ?_⟩
        simp only [GuardState.step] at hstate
        split at hstate
        · rename_i hmain
          simp only [BufferedGuard.callStep, GuardState.pollCall, hmain, hcall, hstate]
          rfl
        · cases hstate
      | readWake =>
        obtain ⟨call, hreported, hcall⟩ := exists_readCall hstate
        exact ⟨.read call, hreported, congrArg (Option.map _) hcall⟩
      | wakeError error =>
        refine ⟨.read (.failed error), trivial, ?_⟩
        simp only [GuardState.step] at hstate
        split at hstate
        · rename_i hmain
          simp only [BufferedGuard.callStep, GuardState.readCall, hmain, drainWakeReader, hstate]
          rfl
        · cases hstate
      | workerNotify =>
        obtain ⟨call, hreported, hcall⟩ := exists_writeCall hstate
        exact ⟨.write call, hreported, congrArg (Option.map _) hcall⟩
      | workerFail =>
        refine ⟨.write (.failed "write"), trivial, ?_⟩
        cases hworker : s.state.worker with
        | notifying =>
          simp only [GuardState.step, GuardState.workerFail, hworker] at hstate
          simp only [BufferedGuard.callStep, GuardState.writeCall, hworker, hstate]
          rfl
        | idle | asking | stopped =>
          simp only [BufferedMove.byCall, wakesLoop, hworker] at ha
          cases ha
      | _ => cases ha
    · cases h

theorem calls_reachable (h : Reachable (bufferedGuard source) FromPoll s) :
    Reachable (callGuard source) Reported s := by
  refine h.invariant (I := Reachable (callGuard source) Reported) ?_ ?_
  · intro s hinit
    exact .of_init hinit
  · intro s a t hs hpoll hstep
    cases ha : a.byCall s.state with
    | false =>
      refine hs.step (a := .buffered a) trivial ?_
      simp only [callGuard, BufferedGuard.callStep, ha]
      exact hstep
    | true =>
      obtain ⟨c, hreported, hcall⟩ := exists_call ha hpoll hstep
      exact hs.step hreported hcall

theorem reachable_anyStep {P : BufferedGuard → BufferedMove → Prop}
    (h : Reachable (bufferedGuard source) P s) : Reachable (bufferedGuard source) anyStep s :=
  h.invariant (I := Reachable (bufferedGuard source) anyStep) (fun _ => .of_init)
    fun _ _ _ hs _ hstep => hs.step trivial hstep

/-- A poll that returns leads on. -/
theorem not_polling_of_ready {fanotify wake : BitVec 16}
    (hreports : PollReports s.state fanotify wake)
    (h : s.callStep source (.poll (.ready fanotify wake)) = some t) :
    t.state.main ≠ .polling := by
  obtain ⟨state, hstate, rfl⟩ := Option.map_eq_some_iff.mp h
  unfold GuardState.pollCall at hstate
  split at hstate
  · split at hstate
    · rename_i hcall
      cases hcall
    · rw [← Option.some.inj hstate]
      exact MainPc.noConfusion
    · rename_i activity hcall
      obtain ⟨-, -, hready⟩ := hreports.activity hcall
      rw [← Option.some.inj hstate]
      by_cases hwake : activity.promptReady = true
      · rw [if_pos hwake]
        exact MainPc.noConfusion
      · rw [if_neg hwake, hready.resolve_left hwake]
        exact MainPc.noConfusion
  · cases hstate

end

/-- The guard over its system calls does what the guard over moves does. A state of the one
has, up to wake bytes that its reads have left, a run of the other, which in turn is one of
the guard that is given its events; and the other way round. A `poll` that returns flags
never leads back to the next `poll` at once. -/
theorem guard_calls_are_moves (source : GuardSource) :
    (∀ s, Reachable (callGuard source) Reported s → ∃ n ≤ s.state.wakeBytes,
      Reachable (bufferedGuard source) FromPoll (s.withWakeBytes n) ∧
      (s.state.main.apart = true → n = s.state.wakeBytes) ∧
      ∃ calls rest tail, s.state.world.handed = source.events 0 calls ∧
        Reachable (guardRun source.guard) anyStep ((s.state.withWakeBytes n).withBatch
          (source.events calls.length rest) (batchTail tail))) ∧
    (∀ s, Reachable (bufferedGuard source) FromPoll s → Reachable (callGuard source) Reported s) ∧
    ∀ (s t : BufferedGuard) (fanotify wake : BitVec 16), PollReports s.state fanotify wake →
      s.callStep source (.poll (.ready fanotify wake)) = some t → t.state.main ≠ .polling := by
  refine ⟨?_, fun _ => calls_reachable, fun _ _ _ _ => not_polling_of_ready⟩
  intro s h
  obtain ⟨n, hs⟩ := lags_reachable h
  obtain ⟨calls, rest, tail, hfollows⟩ := follows_reachable (reachable_anyStep hs.run)
  exact ⟨n, hs.le, hs.run, hs.same, calls, rest, tail, hfollows.handed, hfollows.run⟩

/-- A prompt is asked, and its wake byte is read with interruptions. -/
def callsAnswered : BufferedGuard :=
  runFrom (callGuard piSource) Reported .initial
    [.poll .interrupted, .poll (.ready 0x001 0x000), .buffered (.fill openPermBuffer),
      .buffered .turn, .buffered (.guard .workerRecv), .buffered (.guard .record),
      .buffered (.guard (.workerResolve (fun _ _ => true) (fun _ => .ok (.explicit .allow)))),
      .buffered .turn, .write .interrupted, .write (.bytes 1), .poll (.ready 0x000 0x001),
      .read .interrupted, .read (.bytes 1), .read .wouldBlock, .buffered (.guard .tryRecv),
      .buffered (.guard .tryRecv)]

theorem callsAnswered_reachable : Reachable (callGuard piSource) Reported callsAnswered :=
  ⟨.initial, rfl, runFrom_steps (by decide)⟩

theorem guard_calls_are_moves_answered :
    Reachable (bufferedGuard piSource) FromPoll callsAnswered := by
  obtain ⟨n, -, hrun, hsame, -⟩ :=
    (guard_calls_are_moves piSource).1 callsAnswered callsAnswered_reachable
  rw [hsame rfl] at hrun
  exact hrun

end ConfigGuard
