import ConfigGuard.Guard.Coordinator

/-!
# The guard loop and its prompt worker

The two threads of `guard::run` as one transition system: the main loop with
its poll, the draining of the wake socket and of the completions and the batch
of events being served, and the worker that takes jobs one at a time.
-/

namespace ConfigGuard
open OsPath Transition

/-- Where the main thread is. -/
inductive MainPc where
  /-- before or in `poll` -/
  | polling
  /-- in `drain_wake_reader` -/
  | drainingWake (closed fanotifyReady : Bool)
  /-- in `drain_completion_channel` -/
  | drainingCompletions (closed fanotifyReady : Bool)
  /-- before `fail_pending_prompts` -/
  | failing
  /-- before `read_event_batch` -/
  | reading
  /-- in `process_event_buffer`; `tail` is what the buffer ends with -/
  | serving (events : List GuardEvent) (tail : Except String Unit)
  /-- in `send_prompt_job`, the job sent and the prompt not recorded yet -/
  | recording (id : PromptId) (prompt : PendingPrompt) (events : List GuardEvent)
      (tail : Except String Unit)
  /-- the loop has ended, the coordinator still exists -/
  | failed (error : GuardError)
  /-- the coordinator is dropped, the worker is being joined -/
  | joining (error : GuardError)
  | returned (error : GuardError)

/-- Where the worker thread is. -/
inductive WorkerPc where
  | idle
  /-- from `recv` to the sending of the completion -/
  | asking (job : PromptJob)
  /-- before the wake byte is written -/
  | notifying
  | stopped (panicked : Bool)

structure GuardState where
  coordinator : PromptCoordinator
  world : World
  jobs : List PromptJob
  completions : List PromptCompletion
  wakeBytes : Nat
  main : MainPc
  worker : WorkerPc

namespace MainPc

/-- The coordinator exists, and with it the receiving ends of the worker's channel and socket. -/
def live : MainPc → Bool
  | joining _ | returned _ => false
  | _ => true

/-- After `process_completions`. -/
def afterCompletions (fanotifyReady : Bool) : MainPc := if fanotifyReady then reading else polling

def afterEvent (result : Except GuardError Unit) (events : List GuardEvent)
    (tail : Except String Unit) : MainPc :=
  match result with
  | .ok _ => serving events tail
  | .error error => failed error

end MainPc

def WorkerPc.isStopped : WorkerPc → Bool
  | stopped _ => true
  | _ => false

/-- `current` is `is_process_generation_current` at the moment of the call. -/
def resolvePromptJob (prompt : Prompt) (current : Int → Nat → Bool) (job : PromptJob) :
    PromptOutcome :=
  let helperIsStale := job.key.any fun key => !key.isCurrentProcess current
  let ownerIsStale := job.authorization.any fun authorization => !authorization.ownerIsCurrent current
  if helperIsStale || ownerIsStale then .failure
  else
    askPrompt prompt
      ⟨job.subject, job.targetPath, job.reason, job.defaultDecision, job.env, job.authorization⟩

inductive Move where
  | poll (fanotifyReady : Bool)
  | pollError (error : String)
  | readWake
  | wakeError (error : String)
  | tryRecv
  | failPending (order : List PromptId)
  | readBatch (events : List GuardEvent) (tail : Except String Unit)
  | readError (error : String)
  | handle
  | endBatch
  | record
  | drop
  | join
  | workerRecv
  | workerResolve (current : Int → Nat → Bool)
      (askAnswer : PromptRequest → Except String PromptAnswer)
  | workerNotify
  | workerFail

def wakeBufferSize : Nat := 64

namespace GuardState

def initial : GuardState where
  coordinator := .new .empty
  world := .empty
  jobs := []
  completions := []
  wakeBytes := 0
  main := .polling
  worker := .idle

/-- `wait_for_activity` returns when the fanotify descriptor is ready, a byte
waits in the wake socket or the worker has closed its end. -/
def poll (s : GuardState) (fanotifyReady : Bool) : Option GuardState :=
  match s.main with
  | .polling =>
    if s.wakeBytes ≠ 0 ∨ s.worker.isStopped then
      some { s with main := .drainingWake s.worker.isStopped fanotifyReady }
    else if fanotifyReady then some { s with main := .reading } else none
  | _ => none

/-- One `read` of `drain_wake_reader`: bytes, the end of the stream, or `WouldBlock`. -/
def readWake (s : GuardState) : Option GuardState :=
  match s.main with
  | .drainingWake closed fanotifyReady =>
    if s.wakeBytes ≠ 0 then some { s with wakeBytes := s.wakeBytes - min wakeBufferSize s.wakeBytes }
    else some { s with
      main := .drainingCompletions (closed || s.worker.isStopped) fanotifyReady }
  | _ => none

/-- One `try_recv` of `drain_completion_channel`, and what follows the last. -/
def tryRecv (g : Guard) (s : GuardState) : Option GuardState :=
  match s.main with
  | .drainingCompletions closed fanotifyReady =>
    match s.completions with
    | completion :: completions =>
      let (result, coordinator, world) := s.coordinator.completePrompt g.io s.world completion
      some { s with
        coordinator := coordinator
        world := world
        completions := completions
        main := match result with
          | .ok _ => .drainingCompletions closed fanotifyReady
          | .error error => .failed error }
    | [] =>
      some { s with
        main := if closed || s.worker.isStopped then .failing
          else .afterCompletions fanotifyReady }
  | _ => none

def failPending (g : Guard) (s : GuardState) (order : List PromptId) : Option GuardState :=
  match s.main with
  | .failing =>
    if order.Perm s.coordinator.pending.keys then
      let (error, coordinator, world) := s.coordinator.failPendingPrompts g.io s.world order
      some { s with coordinator := coordinator, world := world, main := .failed error }
    else none
  | _ => none

/-- Hand the next event of the batch to `handle_event`. -/
def handle (g : Guard) (s : GuardState) : Option GuardState :=
  match s.main with
  | .serving (event :: events) tail =>
    if s.world.descriptorIsFree event then
      match handleEvent g s.coordinator (s.world.handOver event) event with
      | (.finished result, coordinator, world) =>
        some { s with
          coordinator := coordinator
          world := world
          main := .afterEvent result events tail }
      | (.sending job prompt, coordinator, world) =>
        if s.worker.isStopped then
          -- nobody receives: the event gets its default and the loop ends
          let (result, world) :=
            respondAndCloseEvent g.io world event.fd event.mask job.defaultDecision
          some { s with
            coordinator := coordinator
            world := world
            main := .failed (match result with
              | .ok _ => .sendingPrompt
              | .error error => error) }
        else
          some { s with
            coordinator := coordinator
            world := world.observe (.queued (world.eventOf event.fd) job.id)
            jobs := s.jobs ++ [job]
            main := .recording job.id prompt events tail }
    else none
  | _ => none

def record (s : GuardState) : Option GuardState :=
  match s.main with
  | .recording id prompt events tail =>
    some { s with
      coordinator := s.coordinator.recordPrompt id prompt
      main := .serving events tail }
  | _ => none

def endBatch (s : GuardState) : Option GuardState :=
  match s.main with
  | .serving [] (.ok _) => some { s with main := .polling }
  | .serving [] (.error error) => some { s with main := .failed (.malformedEvent error) }
  | _ => none

/-- The pending prompts go with the coordinator; their events are not answered. -/
def drop (s : GuardState) : Option GuardState :=
  match s.main with
  | .failed error =>
    some { s with
      coordinator := { s.coordinator with pending := ∅, pendingByKey := ∅ }
      completions := []
      wakeBytes := 0
      main := .joining error }
  | _ => none

def join (s : GuardState) : Option GuardState :=
  match s.main, s.worker with
  | .joining error, .stopped panicked =>
    some { s with main := .returned (if panicked then .workerPanicked else error) }
  | _, _ => none

/-- A worker that stops drops its end of the job channel and the jobs in it. -/
def stopWorker (s : GuardState) (panicked : Bool) : GuardState :=
  { s with jobs := [], worker := .stopped panicked }

/-- Jobs sent before the coordinator was dropped are still received. -/
def workerRecv (s : GuardState) : Option GuardState :=
  match s.worker, s.jobs with
  | .idle, job :: jobs => some { s with jobs := jobs, worker := .asking job }
  | .idle, [] => if s.main.live then none else some (s.stopWorker false)
  | _, _ => none

def workerResolve (g : Guard) (s : GuardState) (current : Int → Nat → Bool)
    (askAnswer : PromptRequest → Except String PromptAnswer) : Option GuardState :=
  match s.worker with
  | .asking job =>
    let outcome := resolvePromptJob ⟨askAnswer, g.requiresGraphicalSession⟩ current job
    let s := { s with world := s.world.observe (.answered job outcome) }
    if s.main.live then
      some { s with completions := s.completions ++ [⟨job.id, outcome⟩], worker := .notifying }
    else some (s.stopWorker false)
  | _ => none

def workerNotify (s : GuardState) : Option GuardState :=
  match s.worker with
  | .notifying =>
    if s.main.live then some { s with wakeBytes := s.wakeBytes + 1, worker := .idle }
    else some (s.stopWorker false)
  | _ => none

/-- The backend panics, or the wake byte cannot be written. -/
def workerFail (s : GuardState) : Option GuardState :=
  match s.worker with
  | .asking _ => some (s.stopWorker true)
  | .notifying => some (s.stopWorker false)
  | _ => none

def step (g : Guard) (s : GuardState) : Move → Option GuardState
  | .poll fanotifyReady => s.poll fanotifyReady
  | .pollError error =>
    match s.main with
    | .polling => some { s with main := .failed (.polling error) }
    | _ => none
  | .readWake => s.readWake
  | .wakeError error =>
    match s.main with
    | .drainingWake _ _ => some { s with main := .failed (.readingWake error) }
    | _ => none
  | .tryRecv => s.tryRecv g
  | .failPending order => s.failPending g order
  | .readBatch events tail =>
    match s.main with
    | .reading => some { s with main := .serving events tail }
    | _ => none
  | .readError error =>
    match s.main with
    | .reading => some { s with main := .failed (.readingEvents error) }
    | _ => none
  | .handle => s.handle g
  | .endBatch => s.endBatch
  | .record => s.record
  | .drop => s.drop
  | .join => s.join
  | .workerRecv => s.workerRecv
  | .workerResolve current askAnswer => s.workerResolve g current askAnswer
  | .workerNotify => s.workerNotify
  | .workerFail => s.workerFail

end GuardState

/-- All interleavings of the two threads. -/
def guardRun (g : Guard) : System GuardState Move where
  init s := s = .initial
  step := GuardState.step g

end ConfigGuard
