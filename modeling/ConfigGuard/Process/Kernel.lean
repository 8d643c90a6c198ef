import ConfigGuard.Library.Utf8
import ConfigGuard.Process.Procfs

/-!
# What the files of processes tell about the processes

The processes of a kernel over time, and what inspecting one of them finds out:
its generation, and the generations above it.
-/

namespace ConfigGuard
open OsPath Text Climb

/-- The generation that has a process id at each moment, its parent at that moment
as it is told, and when it has started. A process id passes on from one generation
to another only after some time. -/
structure Kernel (γ : Type) where
  occupant : Nat → Int → Option γ
  parent : Nat → γ → Int
  startTime : γ → Nat
  distinct : ∀ t t' pid g g', occupant t pid = some g → occupant t' pid = some g' →
    startTime g = startTime g' → g = g'

/-- A line of the kernel about a process; the process chooses its command name. -/
structure IsStatLine (startTime : Nat) (parent : Int) (line : String) : Prop where
  written : ∃ pid comm state fields newline, line = statLine pid comm state fields newline ∧
    IsStateLetter state ∧ fields.head? = some parent ∧ fields[18]? = some (startTime : Int)
  parentFits : IntRange.i32.Fits parent
  startTimeFits : IntRange.u64.Fits startTime

/-- A stat file that can be read as text is the line of the process that has the id. -/
def Kernel.Renders {γ : Type} (k : Kernel γ) (fs : Procfs) : Prop :=
  ∀ t pid line, (fs t pid).statText = some line →
    ∃ g, k.occupant t pid = some g ∧ IsStatLine (k.startTime g) (k.parent t g) line

section

variable {startTime : Nat} {parent : Int} {line : String}

theorem IsStatLine.parseStartTimeTicks (h : IsStatLine startTime parent line) :
    ConfigGuard.parseStartTimeTicks line = .ok startTime := by
  obtain ⟨pid, comm, state, fields, newline, rfl, hstate, _, hfield⟩ := h.written
  exact parseStartTimeTicks_statLine pid comm hstate fields newline hfield h.startTimeFits

theorem IsStatLine.parseParentPid (h : IsStatLine startTime parent line) :
    ConfigGuard.parseParentPid line = .ok parent := by
  obtain ⟨pid, comm, state, fields, newline, rfl, hstate, hhead, _⟩ := h.written
  exact parseParentPid_statLine pid comm hstate fields newline hhead h.parentFits

end

section

variable {γ : Type} {k : Kernel γ} {fs : Procfs} (hrenders : k.Renders fs)

include hrenders

/-- The start time that is read is that of the generation which has the id. -/
theorem readStartTimeTicks_eq (t : Nat) (pid : Int) :
    readStartTimeTicks pid (fs t pid) =
      match (fs t pid).statText with
      | none => .error (.reading pid "stat")
      | some _ => .ok ((k.occupant t pid).map k.startTime) := by
  unfold readStartTimeTicks
  cases hstat : (fs t pid).statText with
  | none => rfl
  | some line =>
    obtain ⟨g, hg, hline⟩ := hrenders t pid line hstat
    simp only [hline.parseStartTimeTicks, hg, Option.map_some, Int.toNat_natCast]

/-- A generation that had a process id is current at a later moment exactly when
it has the id then, and its stat file can be read. -/
theorem isProcessGenerationCurrent_iff {t : Nat} {pid : Int} {g : γ}
    (hg : k.occupant t pid = some g) (t' : Nat) :
    isProcessGenerationCurrent (fs t' pid) pid (k.startTime g) = true ↔
      (fs t' pid).statText.isSome = true ∧ k.occupant t' pid = some g := by
  unfold isProcessGenerationCurrent
  rw [readStartTimeTicks_eq hrenders]
  cases hstat : (fs t' pid).statText with
  | none => simp
  | some line =>
    obtain ⟨g', hg', _⟩ := hrenders t' pid line hstat
    simp only [hg', Option.map_some, beq_iff_eq, Option.isSome_some, true_and, Option.some.injEq]
    constructor
    · intro h
      exact k.distinct t' t pid g' g hg' hg h
    · rintro rfl
      rfl

end

/-- The parent a readable stat file names, unless it is `init`, the kernel or the
process itself. -/
def parentAt (fs : Procfs) (t : Nat) (pid : Int) : Option Int :=
  (fs t pid).statText.bind fun stat =>
    match parseParentPid stat with
    | .error _ => none
    | .ok parent => if parent ≤ 1 ∨ parent = pid then none else some parent

/-- The ancestor that is listed for a process met on the way up. -/
def ancestorAt (fs : Procfs) (met : Nat × Int) : Option ProcessAncestor :=
  (readExeLink (fs (met.1 + 1) met.2)).map fun executable =>
    { pid := met.2
      executable := executable
      startTimeTicks := (fs met.1 met.2).statText.bind fun stat =>
        (parseStartTimeTicks stat).toOption.map Int.toNat }

theorem ancestorProcessesFrom_eq (fs : Procfs) (hops now : Nat) (pid : Int) {stat : String}
    (hstat : (fs now pid).statText = some stat) :
    ancestorProcessesFrom fs hops (now + 2) pid stat =
      (climb (parentAt fs) 2 hops now pid).filterMap (ancestorAt fs) := by
  induction hops generalizing now pid stat with
  | zero => rfl
  | succ hops ih =>
    have hparent : parentAt fs now pid =
        match parseParentPid stat with
        | .error _ => none
        | .ok parent => if parent ≤ 1 ∨ parent = pid then none else some parent := by
      rw [parentAt, hstat, Option.bind_some]
    rw [ancestorProcessesFrom]
    cases hparse : parseParentPid stat with
    | error error =>
      rw [hparse] at hparent
      rw [climb_none hparent]
      rfl
    | ok parent =>
      rw [hparse] at hparent
      dsimp only at hparent ⊢
      by_cases hstop : parent ≤ 1 ∨ parent = pid
      · rw [if_pos hstop] at hparent ⊢
        rw [climb_none hparent]
        rfl
      · rw [if_neg hstop] at hparent ⊢
        rw [climb_some hparent, List.filterMap_cons, ancestorAt]
        dsimp only
        cases hstat' : (fs (now + 2) parent).statText with
        | none =>
          rw [climb_none (show parentAt fs (now + 2) parent = none by rw [parentAt, hstat']; rfl)]
          cases readExeLink (fs (now + 2 + 1) parent) <;> rfl
        | some stat' =>
          rw [← ih (now + 2) parent hstat']
          cases readExeLink (fs (now + 2 + 1) parent) <;> rfl

/-- The ancestors that are listed are those met on the way up, less the ones whose
executable cannot be read. -/
theorem readAncestorProcesses_eq (fs : Procfs) (now : Nat) (pid : Int) :
    readAncestorProcesses fs now pid =
      (climb (parentAt fs) 2 maxAncestors now pid).filterMap (ancestorAt fs) := by
  unfold readAncestorProcesses
  cases hstat : (fs now pid).statText with
  | none =>
    rw [climb_none (show parentAt fs now pid = none by rw [parentAt, hstat]; rfl)]
    rfl
  | some stat => exact ancestorProcessesFrom_eq fs maxAncestors now pid hstat

/-- The parent of the generation that has the id, unless it is `init`, the kernel or
the process itself. -/
def Kernel.parentOf {γ : Type} (k : Kernel γ) (t : Nat) (pid : Int) : Option Int :=
  (k.occupant t pid).bind fun g =>
    if k.parent t g ≤ 1 ∨ k.parent t g = pid then none else some (k.parent t g)

/-- The processes above a process, each as it was when the one below it named it. -/
def Kernel.above {γ : Type} (k : Kernel γ) (now : Nat) (pid : Int) : List (Nat × Int) :=
  climb k.parentOf 2 maxAncestors now pid

/-- Those of them that the stat files lead to: none above the first that cannot be read. -/
def Kernel.met {γ : Type} (k : Kernel γ) (fs : Procfs) (now : Nat) (pid : Int) :
    List (Nat × Int) :=
  (k.above now pid).take
    (((now, pid) :: k.above now pid).takeWhile fun x => (fs x.1 x.2).statText.isSome).length

/-- What an inspection that succeeds takes from the files. -/
theorem inspectProcess_ok {fs : Procfs} {now : Nat} {pid : Int} {process : ProcessIdentity}
    (h : inspectProcess fs now pid = .ok process) :
    process.pid = pid ∧ readStartTimeTicks pid (fs (now + 4) pid) = .ok process.startTimeTicks ∧
      process.ancestorProcesses = readAncestorProcesses fs (now + 5) pid := by
  unfold inspectProcess at h
  dsimp only at h
  split at h
  · cases h
  · split at h
    · cases h
    · rename_i startTimeTicks hstart
      rw [← Except.ok.inj h]
      exact ⟨rfl, hstart, rfl⟩

section

variable {γ : Type} {k : Kernel γ} {fs : Procfs} (hrenders : k.Renders fs)

include hrenders

theorem parentAt_eq : parentAt fs = fun t pid =>
    if (fs t pid).statText.isSome then k.parentOf t pid else none := by
  funext t pid
  unfold parentAt
  cases hstat : (fs t pid).statText with
  | none => rfl
  | some line =>
    obtain ⟨g, hg, hline⟩ := hrenders t pid line hstat
    rw [Option.isSome_some, if_pos rfl, Option.bind_some, hline.parseParentPid, Kernel.parentOf, hg]
    rfl

/-- The way up by the files leads to the processes above as far as they can be read. -/
theorem climb_parentAt (now : Nat) (pid : Int) :
    climb (parentAt fs) 2 maxAncestors now pid = k.met fs now pid := by
  rw [parentAt_eq hrenders]
  exact climb_while (fun x => (fs x.1 x.2).statText.isSome) maxAncestors now pid

/-- A listed ancestor is a process above, and its start time that of its generation. -/
theorem ancestorAt_spec {now : Nat} {pid : Int} {a : ProcessAncestor}
    (ha : a ∈ readAncestorProcesses fs now pid) :
    ∃ t, (t, a.pid) ∈ k.met fs now pid ∧ readExeLink (fs (t + 1) a.pid) = some a.executable ∧
      ∀ ticks, a.startTimeTicks = some ticks →
        ∃ g, k.occupant t a.pid = some g ∧ ticks = k.startTime g := by
  rw [readAncestorProcesses_eq, climb_parentAt hrenders] at ha
  obtain ⟨⟨t, p⟩, hmet, hlisted⟩ := List.mem_filterMap.mp ha
  obtain ⟨executable, hexecutable, rfl⟩ := Option.map_eq_some_iff.mp hlisted
  refine ⟨t, hmet, hexecutable, ?_⟩
  intro ticks hticks
  obtain ⟨line, hline, hparsed⟩ := Option.bind_eq_some_iff.mp hticks
  obtain ⟨g, hg, hstat⟩ := hrenders t p line hline
  rw [hstat.parseStartTimeTicks] at hparsed
  exact ⟨g, hg, (Option.some.inj hparsed).symm⟩

theorem inspected_generation {now : Nat} {pid : Int} {process : ProcessIdentity}
    (h : inspectProcess fs now pid = .ok process) :
    ∃ g, k.occupant (now + 4) pid = some g ∧ process.startTimeTicks = some (k.startTime g) ∧
      ∀ t, isProcessGenerationCurrent (fs t pid) pid (k.startTime g) = true ↔
        (fs t pid).statText.isSome = true ∧ k.occupant t pid = some g := by
  obtain ⟨-, hstart, -⟩ := inspectProcess_ok h
  rw [readStartTimeTicks_eq hrenders] at hstart
  split at hstart
  · cases hstart
  · rename_i line hline
    obtain ⟨g, hg, _⟩ := hrenders _ _ _ hline
    rw [hg] at hstart
    exact ⟨g, hg, (Except.ok.inj hstart).symm, isProcessGenerationCurrent_iff hrenders hg⟩

theorem inspected_ancestor {now : Nat} {pid : Int} {process : ProcessIdentity}
    (h : inspectProcess fs now pid = .ok process) {a : ProcessAncestor}
    (ha : a ∈ process.ancestorProcesses) {ticks : Nat} (hticks : a.startTimeTicks = some ticks) :
    ∃ t g, (t, a.pid) ∈ k.met fs (now + 5) pid ∧ k.occupant t a.pid = some g ∧
      ∀ t', isProcessGenerationCurrent (fs t' a.pid) a.pid ticks = true ↔
        (fs t' a.pid).statText.isSome = true ∧ k.occupant t' a.pid = some g := by
  rw [(inspectProcess_ok h).2.2] at ha
  obtain ⟨t, hmet, -, hgeneration⟩ := ancestorAt_spec hrenders ha
  obtain ⟨g, hg, rfl⟩ := hgeneration ticks hticks
  exact ⟨t, g, hmet, hg, isProcessGenerationCurrent_iff hrenders hg⟩

end

/-- On a kernel that writes its stat lines around command names that its processes
choose, a process that is inspected gets the start time of the generation that has
its id, and the check that is made of it later succeeds exactly while this
generation has the id and can be read. The ancestors are those of the processes
above it, each the parent of the one before, whose executables can be read, up to the
first whose stat file cannot be; the same check tells whether one of them still is
the generation it was. -/
theorem inspected_generations {γ : Type} (k : Kernel γ) (fs : Procfs) (hrenders : k.Renders fs)
    (now : Nat) (pid : Int) (process : ProcessIdentity)
    (h : inspectProcess fs now pid = .ok process) :
    (∃ g, k.occupant (now + 4) pid = some g ∧ process.startTimeTicks = some (k.startTime g) ∧
      ∀ t, isProcessGenerationCurrent (fs t pid) pid (k.startTime g) = true ↔
        (fs t pid).statText.isSome = true ∧ k.occupant t pid = some g) ∧
    process.ancestorProcesses = (k.met fs (now + 5) pid).filterMap (ancestorAt fs) ∧
    ∀ a ∈ process.ancestorProcesses, ∀ ticks, a.startTimeTicks = some ticks →
      ∃ t g, (t, a.pid) ∈ k.met fs (now + 5) pid ∧ k.occupant t a.pid = some g ∧
        ∀ t', isProcessGenerationCurrent (fs t' a.pid) a.pid ticks = true ↔
          (fs t' a.pid).statText.isSome = true ∧ k.occupant t' a.pid = some g := by
  refine ⟨inspected_generation hrenders h, ?_, ?_⟩
  · rw [(inspectProcess_ok h).2.2, readAncestorProcesses_eq, climb_parentAt hrenders]
  · exact fun a ha ticks hticks => inspected_ancestor hrenders h ha hticks

/-- A `cat` below a `pi` has the process id 42; another generation has it later. -/
def reusedKernel : Kernel Nat where
  occupant t pid :=
    if pid = 42 then some (if t < 100 then 100 else 200) else if pid = 7 then some 70 else none
  parent _ g := if g = 70 then 1 else 7
  startTime g := g
  distinct _ _ _ _ _ _ _ h := h

/-- All of them give themselves the command name that is most of a line. -/
def reusedFiles (t : Nat) (pid : Int) : ProcFiles :=
  match reusedKernel.occupant t pid with
  | none => ⟨none, none, none, none, none, none⟩
  | some g =>
    { exe := some (Path.ofString (if g = 70 then "/usr/bin/pi (deleted)" else "/usr/bin/cat"))
      cwd := none
      cmdline := some (utf8 "cat")
      comm := none
      stat := some (utf8 (statLine pid fakeComm 'S'
        (reusedKernel.parent t g :: List.replicate 17 0 ++ [(g : Int), -1]) true))
      environ := none }

theorem reusedKernel_renders : reusedKernel.Renders reusedFiles := by
  intro t pid line hline
  unfold reusedFiles at hline
  cases hg : reusedKernel.occupant t pid with
  | none =>
    rw [hg] at hline
    cases hline
  | some g =>
    rw [hg] at hline
    have hsmall : g = 70 ∨ g = 100 ∨ g = 200 := by
      simp only [reusedKernel] at hg
      split at hg
      · split at hg <;> simp_all
      · split at hg <;> simp_all
    rw [ProcFiles.statText, Option.bind_some, toStr_utf8, Option.some.injEq] at hline
    refine ⟨g, rfl, ⟨pid, fakeComm, 'S', _, true, hline.symm, isStateLetter_of_isAlpha rfl, rfl,
      rfl⟩, ?_, ?_⟩
    · rcases hsmall with rfl | rfl | rfl <;> simp [reusedKernel, IntRange.Fits, IntRange.i32]
    · rcases hsmall with rfl | rfl | rfl <;> simp [reusedKernel, IntRange.Fits, IntRange.u64]

/-- The `cat` that was inspected is not the process that has its id later. -/
theorem inspected_generations_reused :
    isProcessGenerationCurrent (reusedFiles 100 42) 42 100 = false := by
  obtain ⟨g, hg, -, hcurrent⟩ :=
    (inspected_generations reusedKernel reusedFiles reusedKernel_renders 0 42 _ rfl).1
  obtain rfl : g = 100 := (Option.some.inj hg).symm
  rw [Bool.eq_false_iff]
  intro h
  exact absurd ((hcurrent 100).mp h).2 (by decide)

end ConfigGuard
