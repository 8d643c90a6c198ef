import ConfigGuard.Guard.LiveDialogs
import ConfigGuard.Process.Environ

/-!
# The session a dialog comes up in

A dialog is shown in the session that the environment of a process names. The guard
reads it when it handles the event, after it has inspected the process.
-/

namespace ConfigGuard
open OsPath Transition

/-- The process of the event was inspected, and its environment read after that, not
later than `now`. -/
def ReadBy (fs : Procfs) (event : GuardEvent) (now : Nat) : Prop :=
  ∃ start t, start + inspectionTime ≤ t ∧ t ≤ now ∧
    event.inspected = (inspectProcess fs start event.pid).toOption ∧
    event.env = readWaylandEnv (fs t event.pid)

/-- What the moves read of processes, environments included, is in their files. -/
def OnProcfs (fs : Procfs) (s : Clocked) (a : Nat × Move) : Prop :=
  OnKernel fs s a ∧ (a.2 = .handle → ∀ event events tail,
    s.state.main = .serving (event :: events) tail → ReadBy fs event a.1)

/-- A process that has its id at two moments has it between them. -/
def Kernel.KeepsIds {γ : Type} (k : Kernel γ) : Prop :=
  ∀ t t' t'' pid p, t ≤ t' → t' ≤ t'' → k.occupant t pid = some p →
    k.occupant t'' pid = some p → k.occupant t' pid = some p

theorem ReadBy.mono {fs : Procfs} {event : GuardEvent} {t t' : Nat} (h : ReadBy fs event t)
    (ht : t ≤ t') : ReadBy fs event t' := by
  obtain ⟨start, u, hstart, hu, hread⟩ := h
  exact ⟨start, u, hstart, hu.trans ht, hread⟩

theorem onProcfs_reachable {g : Guard} {fs : Procfs} {s : Clocked}
    (h : Reachable (clockedRun g) (OnProcfs fs) s) : OnTime g fs (ReadBy fs) s :=
  @onTime_reachable g fs (ReadBy fs) (fun _ _ _ => ReadBy.mono) _ (fun _ _ => id) _ h

/-- The environment that goes with an answered dialog is the one that the process it is
about had: it was read from the process's files while the generation in the prompt key
had the process id. Of each variable of the session it has the last value that the
environment gives it, whatever else is in there, and has no other variables. A backend
that needs a graphical session was only asked where the last value of
`WAYLAND_DISPLAY` is a nonempty one. -/
theorem dialogs_in_session {γ : Type} (k : Kernel γ) (fs : Procfs) (hrenders : k.Renders fs)
    (hkeeps : k.KeepsIds) (g : Guard) (s : Clocked)
    (h : Reachable (clockedRun g) (OnProcfs fs) s) (job : PromptJob) (d : Decision)
    (explicit : Bool) (hanswered : .answered job (.answer d explicit) ∈ s.state.world.trace) :
    ∃ event ∈ s.state.world.handed, AsksAbout g event job ∧ ∃ t ≤ s.now,
      job.env = readWaylandEnv (fs t event.pid) ∧
      (∀ key, job.key = some key → key.pid = event.pid ∧
        ∃ p, k.occupant t event.pid = some p ∧ k.startTime p = key.startTimeTicks) ∧
      (∀ bytes, (fs t event.pid).environ = some bytes → ∀ key value,
        job.env.lookup key = some value ↔
          key ∈ waylandEnvKeys ∧ LastAssigned (environEntries bytes) key value) ∧
      (g.requiresGraphicalSession = true → ∃ bytes value,
        (fs t event.pid).environ = some bytes ∧ value ≠ "" ∧
          LastAssigned (environEntries bytes) "WAYLAND_DISPLAY" value) := by
  have hreachable := onProcfs_reachable h
  obtain ⟨event, hevent, now, hasks, ⟨start, t, hstart, ht, hinspected, henv⟩, hnow, hlive⟩ :=
    hreachable.answered job d explicit hanswered
  have hjob : job.env = readWaylandEnv (fs t event.pid) := hasks.env.trans henv
  refine ⟨event, hevent, hasks, t, ht.trans hnow, hjob, ?_, ?_, ?_⟩
  · intro key hkey
    obtain ⟨hpid, p, hthen, hticks, hlater⟩ :=
      occupant_of_live hrenders hasks hinspected hlive hkey
    have hafter : start + 4 ≤ t := by
      rw [inspectionTime] at hstart
      omega
    exact ⟨hpid, p, hkeeps _ _ _ _ _ hafter ht hthen hlater, hticks⟩
  · intro bytes hfile key value
    rw [hjob]
    exact lookup_readWaylandEnv hfile key value
  · intro hrequires
    have hsession := (hreachable.jobs job (.inr ⟨_, hanswered⟩)).1 hrequires
    rw [hjob] at hsession
    exact hasGraphicalSession_readWaylandEnv hsession

/-- The environment of the processes, the display named twice. -/
def sessionEnviron : Bytes :=
  utf8 "WAYLAND_DISPLAY=wayland-0" ++ 0 :: utf8 "HOME=/home/u" ++
    0 :: utf8 "WAYLAND_DISPLAY=wayland-1" ++ [0]

def sessionFiles (t : Nat) (pid : Int) : ProcFiles :=
  { reusedFiles t pid with environ := some sessionEnviron }

theorem reusedKernel_keepsIds : reusedKernel.KeepsIds := by
  intro t t' t'' pid p ht ht' hp hp'
  simp only [reusedKernel] at hp hp' ⊢
  split at hp
  · rename_i hpid
    rw [if_pos hpid] at hp' ⊢
    rw [Option.some.injEq] at hp hp' ⊢
    split at hp <;> split at hp' <;> split <;> omega
  · rename_i hpid
    rw [if_neg hpid]
    exact hp

theorem reusedKernel_renders_session : reusedKernel.Renders sessionFiles := reusedKernel_renders

/-- A guard whose dialogs need a graphical session. -/
def sessionGuard : Guard := { piGuard with requiresGraphicalSession := true }

def sessionOpen : GuardEvent := { liveOpen with env := readWaylandEnv (sessionFiles 80 42) }

def sessionMoves : List Move :=
  [.poll true, .readBatch [sessionOpen] (.ok ()), .handle, .record, .workerRecv, liveResolve]

/-- The guard after the first moves, all of them made at time 90. -/
def sessionAfter (n : Nat) : Clocked :=
  ⟨runFrom (guardRun sessionGuard) anyStep .initial (sessionMoves.take n), 90⟩

theorem inspectProcess_session : inspectProcess sessionFiles 0 42 = .ok liveCat := rfl

/-- A step at time 90 that reads no process. -/
theorem onProcfs_of_now {s : Clocked} {a : Move} (hnow : s.now ≤ 90) (ha : a ≠ .handle)
    (hresolve : ∀ current askAnswer, a ≠ .workerResolve current askAnswer) :
    OnProcfs sessionFiles s (90, a) := by
  refine ⟨⟨hnow, ?_⟩, fun h => absurd h ha⟩
  cases a with
  | handle => exact absurd rfl ha
  | workerResolve current askAnswer => exact absurd rfl (hresolve current askAnswer)
  | _ => trivial

theorem sessionAfter_reachable :
    Reachable (clockedRun sessionGuard) (OnProcfs sessionFiles) (sessionAfter 6) := by
  have hserved : ∀ event events tail,
      (sessionAfter 2).state.main = .serving (event :: events) tail → event = sessionOpen := by
    intro event events tail hmain
    exact (List.cons.inj (MainPc.serving.inj hmain).1).1.symm
  refine ⟨⟨.initial, 90⟩, rfl, ?_⟩
  refine .tail (t := sessionAfter 5) (a := (90, liveResolve))
    (.tail (t := sessionAfter 4) (a := (90, .workerRecv))
      (.tail (t := sessionAfter 3) (a := (90, .record))
        (.tail (t := sessionAfter 2) (a := (90, .handle))
          (.tail (t := sessionAfter 1) (a := (90, .readBatch [sessionOpen] (.ok ())))
            (.single (a := (90, .poll true)) (onProcfs_of_now le_rfl nofun nofun) rfl)
            (onProcfs_of_now le_rfl nofun nofun) rfl)
          ⟨⟨le_rfl, ?_⟩, ?_⟩ rfl)
        (onProcfs_of_now le_rfl nofun nofun) rfl)
      (onProcfs_of_now le_rfl nofun nofun) rfl)
    ⟨⟨le_rfl, rfl⟩, nofun⟩ rfl
  · intro event events tail hmain
    rw [hserved event events tail hmain]
    exact ⟨0, by decide, congrArg Except.toOption inspectProcess_session.symm⟩
  · intro _ event events tail hmain
    rw [hserved event events tail hmain]
    exact ⟨0, 80, by decide, by decide, congrArg Except.toOption inspectProcess_session.symm, rfl⟩

theorem dialogs_in_session_last : ∃ value, value ≠ "" ∧
    LastAssigned (environEntries sessionEnviron) "WAYLAND_DISPLAY" value := by
  obtain ⟨_, _, _, _, _, _, _, _, hdisplay⟩ := dialogs_in_session reusedKernel sessionFiles
    reusedKernel_renders_session reusedKernel_keepsIds sessionGuard (sessionAfter 6)
    sessionAfter_reachable { liveJob with env := sessionOpen.env } .allow true
    (List.mem_of_getElem? (i := 1) rfl)
  obtain ⟨bytes, value, hfile, hne, hlast⟩ := hdisplay rfl
  obtain rfl := Option.some.inj hfile
  exact ⟨value, hne, hlast⟩

end ConfigGuard
