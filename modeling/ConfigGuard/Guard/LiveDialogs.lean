import ConfigGuard.Guard.Origins
import ConfigGuard.Guard.StalePrompt
import ConfigGuard.Prompt.Stability
import ConfigGuard.Process.Kernel

/-!
# Dialogs are about processes that are there

Runs of the guard over time, on a kernel whose processes come and go: the guard
inspects the process of an event when it handles it, and the worker looks again
before it shows a dialog.
-/

namespace ConfigGuard
open OsPath Transition

/-- The guard at a moment. -/
structure Clocked where
  state : GuardState
  now : Nat

/-- The guard's runs with the times of their moves. -/
def clockedRun (g : Guard) : System Clocked (Nat × Move) where
  init s := s.state = .initial
  step s a := (s.state.step g a.2).map fun t => ⟨t, a.1⟩

/-- How long the reads of an inspection go on. -/
def inspectionTime : Nat := 5 + 2 * maxAncestors + 2

/-- Time does not go back, and what the moves read of processes is in their files: an
event that has been handled was inspected before, a job is checked when it is resolved. -/
def OnKernel (fs : Procfs) (s : Clocked) (a : Nat × Move) : Prop :=
  s.now ≤ a.1 ∧
  match a.2 with
  | .handle => ∀ event events tail, s.state.main = .serving (event :: events) tail →
    ∃ start, start + inspectionTime ≤ a.1 ∧
      event.inspected = (inspectProcess fs start event.pid).toOption
  | .workerResolve current _ =>
    current = fun pid ticks => isProcessGenerationCurrent (fs a.1 pid) pid ticks
  | _ => True

/-- The process of the event was inspected, not later than `now`. -/
def InspectedBy (fs : Procfs) (event : GuardEvent) (now : Nat) : Prop :=
  ∃ start, start + inspectionTime ≤ now ∧
    event.inspected = (inspectProcess fs start event.pid).toOption

/-- Every job is about an event that was read when it was handled, and where it was
answered its processes have been found current after that. -/
structure OnTime (g : Guard) (fs : Procfs) (read : GuardEvent → Nat → Prop) (s : Clocked) : Prop where
  jobs : ∀ job, s.state.HasJob job → InSession g job.env ∧
    ∃ event ∈ s.state.world.handed, AsksAbout g event job ∧ read event s.now
  answered : ∀ job d explicit, .answered job (.answer d explicit) ∈ s.state.world.trace →
    ∃ event ∈ s.state.world.handed, ∃ t, AsksAbout g event job ∧ read event t ∧ t ≤ s.now ∧
      job.isStale (fun pid ticks => isProcessGenerationCurrent (fs t pid) pid ticks) = false

section

variable {g : Guard} {fs : Procfs} {read : GuardEvent → Nat → Prop}
  (hmono : ∀ event t t', read event t → t ≤ t' → read event t')

include hmono

theorem onTime_step {s t : Clocked} {a : Nat × Move} (hs : OnTime g fs read s)
    (hkernel : OnKernel fs s a) (hread : a.2 = .handle → ∀ event events tail,
      s.state.main = .serving (event :: events) tail → read event a.1)
    (h : (clockedRun g).step s a = some t) : OnTime g fs read t := by
  obtain ⟨now, a⟩ := a
  obtain ⟨hnow, hreads⟩ := hkernel
  obtain ⟨u, hstep, rfl⟩ := Option.map_eq_some_iff.mp h
  dsimp only at hnow hreads hstep hread ⊢
  have hhanded : s.state.world.handed ⊆ u.world.handed := (step_inv hstep).handed.subset
  constructor
  · intro job hjob
    rcases hasJob_step hstep hjob with
      hold | ⟨rfl, event, events, tail, hmain, hmem, hasks, hsession⟩
    · obtain ⟨hsession, event, hmem, hasks, hevent⟩ := hs.jobs job hold
      exact ⟨hsession, event, hhanded hmem, hasks, hmono _ _ _ hevent hnow⟩
    · exact ⟨hsession, event, hmem, hasks, hread rfl event events tail hmain⟩
  · intro job d explicit hanswered
    have hold : .answered job (.answer d explicit) ∈ s.state.world.trace →
        ∃ event ∈ u.world.handed, ∃ t, AsksAbout g event job ∧ read event t ∧ t ≤ now ∧
          job.isStale (fun pid ticks => isProcessGenerationCurrent (fs t pid) pid ticks) = false := by
      intro hmem
      obtain ⟨event, hevent, t, hasks, hreadBy, ht, hlive⟩ := hs.answered job d explicit hmem
      exact ⟨event, hhanded hevent, t, hasks, hreadBy, ht.trans hnow, hlive⟩
    by_cases hresolve : ∃ current askAnswer, a = .workerResolve current askAnswer
    · obtain ⟨current, askAnswer, rfl⟩ := hresolve
      obtain ⟨job', outcome, hworker, houtcome, hcases⟩ := workerResolve_cases hstep
      have hworld : u.world = s.state.world.observe (.answered job' outcome) := by
        rcases hcases with ⟨_, rfl⟩ | ⟨_, rfl⟩ <;> rfl
      rw [hworld, World.trace_observe, List.mem_append, List.mem_singleton] at hanswered
      rcases hanswered with hmem | hnew
      · exact hold hmem
      · obtain ⟨rfl, rfl⟩ := Observation.answered.inj hnew
        obtain ⟨-, event, hevent, hasks, hreadBy⟩ := hs.jobs job (.inl (.inr hworker))
        refine ⟨event, hhanded hevent, now, hasks, hmono _ _ _ hreadBy hnow, le_rfl, ?_⟩
        -- the outcome of a job that is stale is no answer
        rw [resolvePromptJob_eq, hreads] at houtcome
        split at houtcome
        · cases houtcome
        · rename_i hlive
          exact Bool.eq_false_iff.mpr hlive
    · have hsame :=
        answers_step (fun current askAnswer heq => hresolve ⟨current, askAnswer, heq⟩) hstep
      exact hold (mem_answers.mp (hsame ▸ mem_answers.mpr hanswered))

theorem onTime_reachable {P : Clocked → Nat × Move → Prop}
    (hP : ∀ s a, P s a → OnKernel fs s a ∧ (a.2 = .handle → ∀ event events tail,
      s.state.main = .serving (event :: events) tail → read event a.1))
    {s : Clocked} (h : Reachable (clockedRun g) P s) : OnTime g fs read s := by
  refine h.invariant (I := OnTime g fs read) ?_ fun s a t hs hp hstep =>
    onTime_step hmono hs (hP s a hp).1 (hP s a hp).2 hstep
  intro s hinit
  have hinit : s.state = .initial := hinit
  constructor
  · intro job hjob
    rw [hinit] at hjob
    rcases hjob with (hjob | hjob) | ⟨_, hjob⟩ <;> cases hjob
  · intro job d explicit hanswered
    rw [hinit] at hanswered
    cases hanswered

end

theorem InspectedBy.mono {fs : Procfs} {event : GuardEvent} {t t' : Nat}
    (h : InspectedBy fs event t) (ht : t ≤ t') : InspectedBy fs event t' := by
  obtain ⟨start, hstart, hinspected⟩ := h
  exact ⟨start, hstart.trans ht, hinspected⟩

/-- On a kernel every event is inspected by the time it has been handled. -/
theorem inspectedBy_of_onKernel {fs : Procfs} {s : Clocked} {a : Nat × Move}
    (h : OnKernel fs s a) (ha : a.2 = .handle) {event : GuardEvent} {events : List GuardEvent}
    {tail : Except String Unit} (hmain : s.state.main = .serving (event :: events) tail) :
    InspectedBy fs event a.1 := by
  obtain ⟨now, a⟩ := a
  dsimp only at ha
  subst ha
  exact h.2 event events tail hmain

theorem ownerAncestor_mem {policy : AccessPolicy} {process : ProcessIdentity} {decision : Decision}
    {a : AncestryAuthorization} (h : authorizationFor policy process decision = some a) :
    a.ownerAncestor ∈ process.ancestorProcesses := by
  obtain ⟨owner, -, hnew⟩ := Option.bind_eq_some_iff.mp h
  have hlast := ownerChainRoot_last (new_eq_some hnew).2.2
  obtain ⟨before, after, hsplit, -⟩ := ownerChain_split process owner
  rw [hsplit]
  exact List.mem_append_right _ (List.mem_append_left _ (List.mem_of_getLast? hlast))

/-- The key and the authorization of a job are those of the process inspected for it,
where it has a key or an authorization. -/
theorem AsksAbout.process {g : Guard} {event : GuardEvent} {job : PromptJob}
    (h : AsksAbout g event job) :
    (∀ key, job.key = some key → ∃ process, event.inspected = some process ∧
      key.pid = process.pid ∧ process.startTimeTicks = some key.startTimeTicks) ∧
    ∀ a, job.authorization = some a → ∃ process, event.inspected = some process ∧
      a.ownerAncestor ∈ process.ancestorProcesses := by
  obtain ⟨evaluation, scope, hevaluation, -, hkey, hauthorization, -⟩ := h.evaluated
  unfold evaluateGuardAccess at hevaluation
  dsimp only at hevaluation
  split at hevaluation
  · cases hevaluation
  · rename_i decision _
    rw [← Except.ok.inj hevaluation] at hkey hauthorization
    constructor
    · intro key hsome
      obtain ⟨executable, _, hnew⟩ := Option.bind_eq_some_iff.mp (hkey.symm.trans hsome)
      obtain ⟨ticks, hticks, hnew⟩ := Option.bind_eq_some_iff.mp hnew
      cases hinspected : event.inspected with
      | none =>
        rw [hinspected] at hticks
        cases hticks
      | some process =>
        rw [hinspected, Option.getD_some] at hticks hnew
        refine ⟨process, rfl, ?_⟩
        cases decision with
        | allow => cases hnew
        | deny => cases hnew
        | prompt =>
          obtain rfl := Option.some.inj hnew
          exact ⟨rfl, hticks⟩
    · intro a hsome
      have hmem := ownerAncestor_mem (hauthorization.symm.trans hsome)
      cases hinspected : event.inspected with
      | none =>
        rw [hinspected] at hmem
        cases hmem
      | some process =>
        rw [hinspected, Option.getD_some] at hmem
        exact ⟨process, rfl, hmem⟩

/-- A dialog has no key only where the process could not be inspected, or its executable or
its start time are not known. -/
theorem AsksAbout.keyless {g : Guard} {event : GuardEvent} {job : PromptJob}
    (h : AsksAbout g event job) (hkey : job.key = none) {process : ProcessIdentity}
    (hprocess : event.inspected = some process) :
    process.executable = none ∨ process.startTimeTicks = none := by
  obtain ⟨evaluation, scope, hevaluation, hprompt, hkey', -⟩ := h.evaluated
  unfold evaluateGuardAccess at hevaluation
  dsimp only at hevaluation
  split at hevaluation
  · cases hevaluation
  · rename_i decision _
    rw [← Except.ok.inj hevaluation] at hprompt hkey'
    have hdecision : decision = .prompt job.reason job.defaultDecision scope := hprompt
    have hnew := hkey'.symm.trans hkey
    rw [hprocess, Option.getD_some, hdecision] at hnew
    cases hexecutable : process.executable with
    | none => exact .inl rfl
    | some executable =>
      right
      cases hticks : process.startTimeTicks with
      | none => rfl
      | some ticks =>
        rw [PromptDecisionKey.new, hexecutable, hticks] at hnew
        cases hnew

theorem ok_of_toOption {ε α : Type} {x : Except ε α} {a : α} (h : x.toOption = some a) :
    x = .ok a := by
  cases x with
  | error => cases h
  | ok b => rw [Option.some.inj h]

theorem not_stale {current : Int → Nat → Bool} {job : PromptJob}
    (h : job.isStale current = false) :
    (∀ key, job.key = some key → key.isCurrentProcess current = true) ∧
      ∀ a, job.authorization = some a → a.ownerIsCurrent current = true := by
  obtain ⟨hkey, howner⟩ := Bool.or_eq_false_iff.mp h
  constructor
  · intro key hsome
    rw [hsome, Option.any_some, Bool.not_eq_false'] at hkey
    exact hkey
  · intro a hsome
    rw [hsome, Option.any_some, Bool.not_eq_false'] at howner
    exact howner

/-- The generation that the key names was inspected, and has its process id when the
dialog comes up. -/
theorem occupant_of_live {γ : Type} {k : Kernel γ} {fs : Procfs} (hrenders : k.Renders fs)
    {g : Guard} {event : GuardEvent} {job : PromptJob} (hasks : AsksAbout g event job)
    {start now : Nat} (hinspected : event.inspected = (inspectProcess fs start event.pid).toOption)
    (hlive : job.isStale (fun pid ticks => isProcessGenerationCurrent (fs now pid) pid ticks) = false)
    {key : PromptDecisionKey} (hkey : job.key = some key) :
    key.pid = event.pid ∧ ∃ p, k.occupant (start + 4) event.pid = some p ∧
      k.startTime p = key.startTimeTicks ∧ k.occupant now event.pid = some p := by
  obtain ⟨process, hprocess, hpid, hticks⟩ := hasks.process.1 key hkey
  have hok : inspectProcess fs start event.pid = .ok process :=
    ok_of_toOption (hinspected.symm.trans hprocess)
  obtain ⟨p, hp, hstart, hcurrent⟩ := inspected_generation hrenders hok
  have hstart' : k.startTime p = key.startTimeTicks :=
    Option.some.inj (hstart.symm.trans hticks)
  have hpid' : key.pid = event.pid := hpid.trans (inspectProcess_ok hok).1
  have hkeyLive := (not_stale hlive).1 key hkey
  rw [PromptDecisionKey.isCurrentProcess, hpid', ← hstart'] at hkeyLive
  exact ⟨hpid', p, hp, hstart', ((hcurrent now).mp hkeyLive).2⟩

/-- On a kernel whose process ids pass from one process to another, every answer of a
dialog is to a question about an event that was handed to the guard: its path, its
environment, and its process as it was inspected, with the policy's decision. The
dialog has a key unless the process could not be inspected or its executable not read;
when it came up with a key, the generation that was inspected still had the process id.
Where it offers to allow the programs below an owner, the owner is an ancestor of the
process, and the generation met as such still had its id. -/
theorem dialogs_of_live_processes {γ : Type} (k : Kernel γ) (fs : Procfs) (hrenders : k.Renders fs)
    (g : Guard) (s : Clocked) (h : Reachable (clockedRun g) (OnKernel fs) s) (job : PromptJob)
    (d : Decision) (explicit : Bool)
    (hanswered : .answered job (.answer d explicit) ∈ s.state.world.trace) :
    ∃ event ∈ s.state.world.handed, AsksAbout g event job ∧
      ∃ start t, start + inspectionTime ≤ t ∧ t ≤ s.now ∧
        event.inspected = (inspectProcess fs start event.pid).toOption ∧
        (job.key = none → ∀ process, event.inspected = some process → process.executable = none) ∧
        (∀ key, job.key = some key → key.pid = event.pid ∧
          ∃ p, k.occupant (start + 4) event.pid = some p ∧ k.startTime p = key.startTimeTicks ∧
            k.occupant t event.pid = some p) ∧
        ∀ a, job.authorization = some a →
          ∃ u p, (u, a.ownerAncestor.pid) ∈ k.met fs (start + 5) event.pid ∧
            k.occupant u a.ownerAncestor.pid = some p ∧
            k.occupant t a.ownerAncestor.pid = some p := by
  obtain ⟨event, hevent, t, hasks, ⟨start, hbefore, hinspected⟩, ht, hlive⟩ :=
    (@onTime_reachable g fs (InspectedBy fs) (fun _ _ _ => InspectedBy.mono) _
      (fun _ _ hkernel => ⟨hkernel, fun ha _ _ _ => inspectedBy_of_onKernel hkernel ha⟩) _
      h).answered job d explicit hanswered
  refine ⟨event, hevent, hasks, start, t, hbefore, ht, hinspected, ?_, ?_, ?_⟩
  · intro hkey process hprocess
    have hok : inspectProcess fs start event.pid = .ok process :=
      ok_of_toOption (hinspected.symm.trans hprocess)
    obtain ⟨p, -, hticks, -⟩ := inspected_generation hrenders hok
    exact (hasks.keyless hkey hprocess).resolve_right (by rw [hticks]; nofun)
  · intro key hkey
    exact occupant_of_live hrenders hasks hinspected hlive hkey
  · intro a ha
    obtain ⟨process, hprocess, hmem⟩ := hasks.process.2 a ha
    have hok : inspectProcess fs start event.pid = .ok process :=
      ok_of_toOption (hinspected.symm.trans hprocess)
    obtain ⟨ticks, hticks, hownerLive⟩ := (Option.any_eq_true _ _).mp ((not_stale hlive).2 a ha)
    obtain ⟨u, p, hmet, hp, hcurrent⟩ :=
      inspected_ancestor hrenders hok hmem hticks
    exact ⟨u, p, hmet, hp, ((hcurrent t).mp hownerLive).2⟩

/-- The first `cat`, as it is inspected. -/
def liveCat : ProcessIdentity where
  pid := 42
  executable := some (Path.ofString "/usr/bin/cat")
  command := ["cat"]
  cwd := none
  startTimeTicks := some 100
  ancestors := [Path.ofString "/usr/bin/pi"]
  ancestorProcesses := [⟨7, Path.ofString "/usr/bin/pi", some 70⟩]

theorem inspectProcess_liveCat : inspectProcess reusedFiles 0 42 = .ok liveCat := rfl

/-- The `cat` below `pi` opens one of `pi`'s files; it is inspected from time 0 on. -/
def liveOpen : GuardEvent :=
  { catOpens with inspected := some liveCat }

def liveResolve : Move :=
  .workerResolve (fun pid ticks => isProcessGenerationCurrent (reusedFiles 90 pid) pid ticks)
    fun _ => .ok (.explicit .allow)

def liveMoves : List Move :=
  [.poll true, .readBatch [liveOpen] (.ok ()), .handle, .record, .workerRecv, liveResolve]

/-- The guard after the first moves, all of them made at time 90. -/
def liveAfter (n : Nat) : Clocked :=
  ⟨runFrom (guardRun piGuard) anyStep .initial (liveMoves.take n), 90⟩

theorem liveAfter_reachable :
    Reachable (clockedRun piGuard) (OnKernel reusedFiles) (liveAfter 6) := by
  refine ⟨⟨.initial, 90⟩, rfl, ?_⟩
  refine .tail (t := liveAfter 5) (a := (90, liveResolve))
    (.tail (t := liveAfter 4) (a := (90, .workerRecv))
    (.tail (t := liveAfter 3) (a := (90, .record)) (.tail (t := liveAfter 2) (a := (90, .handle))
      (.tail (t := liveAfter 1) (a := (90, .readBatch [liveOpen] (.ok ())))
        (.single (a := (90, .poll true)) ⟨le_rfl, trivial⟩ rfl) ⟨le_rfl, trivial⟩ rfl)
      ⟨le_rfl, ?_⟩ rfl) ⟨le_rfl, trivial⟩ rfl) ⟨le_rfl, trivial⟩ rfl) ⟨le_rfl, rfl⟩ rfl
  rintro event events tail hmain
  obtain ⟨rfl, -⟩ : event = liveOpen ∧ events = [] := by
    have h := MainPc.serving.inj hmain
    exact ⟨(List.cons.inj h.1).1.symm, (List.cons.inj h.1).2.symm⟩
  exact ⟨0, by decide, congrArg Except.toOption inspectProcess_liveCat.symm⟩

/-- The job of the dialog. -/
def liveJob : PromptJob where
  id := 0
  key := some catGenerationKey
  authorization := some
    ⟨Path.ofString "/usr/bin/cat", ⟨7, Path.ofString "/usr/bin/pi", some 70⟩⟩
  subject := ⟨Path.ofString "/usr/bin/cat", ["cat"], [Path.ofString "/usr/bin/pi"]⟩
  targetPath := piSession
  reason := .crossOwnerRead
  defaultDecision := .allow
  env := ∅

theorem dialogs_of_live_processes_cat :
    ∃ event ∈ (liveAfter 6).state.world.handed, AsksAbout piGuard event liveJob := by
  obtain ⟨event, hevent, hasks, -⟩ := dialogs_of_live_processes reusedKernel reusedFiles
    reusedKernel_renders piGuard (liveAfter 6) liveAfter_reachable liveJob .allow true
    (List.mem_of_getElem? (i := 1) rfl)
  exact ⟨event, hevent, hasks⟩

end ConfigGuard
