import ConfigGuard.Audit.IdentityCache
import ConfigGuard.Audit.ProcessCache
import ConfigGuard.Fanotify.Event
import ConfigGuard.Library.Transition
import Mathlib.Data.Nat.Pairing

/-!
# Attribution of audited closes

`record_identity_and_select_process` of `audit.rs` over runs of exec, open and
close events, and when the identity a close is attributed to was recorded by the
process that closes.
-/

namespace ConfigGuard
open OsPath Transition

def fanCloseNowrite : UInt64 := 0x10

def fanOpen : UInt64 := 0x20

/-- An audited event, with what `inspect_process` yields when it is called while
the event is handled, at its open part and at its close part, and the times of
these calls. `actual` is the process the event comes from; the code sees it
only as `generation`, where the kernel supplies a pidfd. -/
structure AuditEvent where
  mask : UInt64
  pid : Int
  object : AuditObjectId
  generation : Option ProcessGeneration
  openedAt : Nat
  inspectedAtOpen : Option ProcessIdentity
  closedAt : Nat
  inspectedAtClose : Option ProcessIdentity
  actual : ProcessGeneration

structure ExecEvent where
  pid : Int
  executablePath : Path
  generation : Option ProcessGeneration
  inspected : Option ProcessIdentity
  executedAt : Nat

namespace AuditEvent

def isOpen (event : AuditEvent) : Bool := event.mask &&& fanOpen != 0

def key (event : AuditEvent) : AuditIdentityKey := ⟨event.pid, event.object⟩

end AuditEvent

def accessKinds (mask : UInt64) : List AccessKind :=
  (if mask &&& fanCloseNowrite ≠ 0 then [.read] else []) ++
    (if mask &&& fanCloseWrite ≠ 0 then [.write] else [])

/-- An identity in the cache. Nothing reads `recordedBy`, the process whose open
event recorded it. -/
structure RecordedIdentity where
  identity : ProcessIdentity
  recordedBy : ProcessGeneration
  deriving DecidableEq, Repr

namespace RecordedIdentity

def startTime (recorded : RecordedIdentity) : Option Nat := recorded.identity.startTimeTicks

end RecordedIdentity

structure AuditCaches where
  identities : AuditIdentityCache RecordedIdentity
  processes : AuditProcessCache

/-- Where the identity of a close comes from. -/
inductive SelectedIdentity where
  | recorded (identity : RecordedIdentity)
  | executed (identity : ProcessIdentity)
  | inspected (identity : ProcessIdentity)

namespace AuditCaches

def new (capacity processCapacity ttl : Nat) : AuditCaches where
  identities := .withCapacity capacity
  processes := .withLimits processCapacity ttl

def execIdentity (caches : AuditCaches) (generation : Option ProcessGeneration) (now : Nat) :
    Option ProcessIdentity × AuditProcessCache :=
  match generation with
  | some generation => caches.processes.getAt generation now
  | none => (none, caches.processes)

/-- The identity an open event records. -/
def openIdentity (caches : AuditCaches) (event : AuditEvent) :
    Option ProcessIdentity × AuditProcessCache :=
  match event.inspectedAtOpen with
  | some process => (some process, caches.processes)
  | none => caches.execIdentity event.generation event.openedAt

def recordOpenIdentity (caches : AuditCaches) (event : AuditEvent) : AuditCaches :=
  if event.isOpen then
    let (process, processes) := caches.openIdentity event
    { identities :=
        match process with
        | some process =>
          caches.identities.insert RecordedIdentity.startTime event.pid event.object
            ⟨process, event.actual⟩
        | none => caches.identities.invalidate event.pid event.object
      processes := processes }
  else caches

def recordIdentityAndSelectProcess (caches : AuditCaches) (event : AuditEvent) :
    Option (List AccessKind × SelectedIdentity) × AuditCaches :=
  let caches := caches.recordOpenIdentity event
  match accessKinds event.mask with
  | [] => (none, caches)
  | accesses =>
    match caches.identities.take event.pid event.object with
    | (some recorded, identities) =>
      (some (accesses, .recorded recorded), { caches with identities := identities })
    | (none, identities) =>
      let caches := { caches with identities := identities }
      let (executed, processes) := caches.execIdentity event.generation event.closedAt
      (some (accesses,
        match executed with
        | some process => .executed process
        | none => .inspected (event.inspectedAtClose.getD (ProcessIdentity.unknown event.pid))),
        { caches with processes := processes })

def recordExecIdentity (display : Path → String) (caches : AuditCaches) (event : ExecEvent) :
    AuditCaches :=
  match event.generation with
  | none => caches
  | some generation =>
    { caches with
      processes := caches.processes.insertExecAt generation
        (event.inspected.getD (.fromExecutable display event.pid event.executablePath))
        event.executedAt }

end AuditCaches

inductive AuditInput where
  | exec (event : ExecEvent)
  | access (event : AuditEvent)

/-- `selections` are the identities that closes were attributed to. -/
structure AuditState where
  caches : AuditCaches
  selections : List (AuditEvent × SelectedIdentity)

namespace AuditState

def step (display : Path → String) (s : AuditState) : AuditInput → Option AuditState
  | .exec event => some { s with caches := s.caches.recordExecIdentity display event }
  | .access event =>
    match s.caches.recordIdentityAndSelectProcess event with
    | (some (_, selected), caches) =>
      some { caches := caches, selections := s.selections ++ [(event, selected)] }
    | (none, caches) => some { s with caches := caches }

end AuditState

/-- How the limits of the caches are set, and how a path is displayed. -/
structure AuditSettings where
  capacity : Nat
  processCapacity : Nat
  ttl : Nat
  display : Path → String

def auditRun (settings : AuditSettings) : System AuditState AuditInput where
  init s := s = ⟨.new settings.capacity settings.processCapacity settings.ttl, []⟩
  step := AuditState.step settings.display

/-- Each generation's process id and start time. Generations with one process
id start at different times. -/
structure ProcessTable where
  pid : ProcessGeneration → Int
  startTime : ProcessGeneration → Nat
  distinct : ∀ g g', pid g = pid g' → startTime g = startTime g' → g = g'

/-- The event describes its process: its process id, its generation where one is
given, and each successful inspection. -/
structure AuditEvent.Truthful (table : ProcessTable) (event : AuditEvent) : Prop where
  pid : event.pid = table.pid event.actual
  generation : ∀ generation, event.generation = some generation → generation = event.actual
  opened : ∀ process, event.inspectedAtOpen = some process →
    process.startTimeTicks = some (table.startTime event.actual)
  closed : ∀ process, event.inspectedAtClose = some process →
    process.startTimeTicks = some (table.startTime event.actual)

def ExecEvent.Truthful (table : ProcessTable) (event : ExecEvent) : Prop :=
  ∀ generation process, event.generation = some generation → event.inspected = some process →
    process.startTimeTicks = some (table.startTime generation)

def AuditInput.Truthful (table : ProcessTable) : AuditInput → Prop
  | exec event => event.Truthful table
  | access event => event.Truthful table

/-- The identities of other generations that are still queued under the event's
process id and file are replaced by the event: it is an open, and they do not
lack a start time together with the identity it records, if it records one. -/
def AuditCaches.Replaces (caches : AuditCaches) (event : AuditEvent) : Prop :=
  ∀ recorded ∈ caches.identities.queue event.key, recorded.recordedBy ≠ event.actual →
    event.isOpen = true ∧ ∀ process, (caches.openIdentity event).1 = some process →
      process.startTimeTicks ≠ none ∨ recorded.startTime ≠ none

/-- Every event with an open or a close replaces such identities. -/
def AuditState.ReplacesStale (s : AuditState) : AuditInput → Prop
  | .exec _ => True
  | .access event => event.isOpen = true ∨ accessKinds event.mask ≠ [] → s.caches.Replaces event

/-- An identity's start time, where it has one, is that of the generation. -/
def StartsWith (table : ProcessTable) (generation : ProcessGeneration)
    (identity : ProcessIdentity) : Prop :=
  identity.startTimeTicks = none ∨ identity.startTimeTicks = some (table.startTime generation)

/-- The identities in the caches are those of the generations they are kept for,
and those under one process id and file were recorded by one generation. -/
structure WellRecorded (table : ProcessTable) (caches : AuditCaches) : Prop where
  executed : caches.processes.All (StartsWith table)
  bounded : caches.identities.capacity = 0 → ∀ key, caches.identities.queue key = []
  oneStartTime : caches.identities.OneStartTime RecordedIdentity.startTime
  recorded : ∀ key, ∀ r ∈ caches.identities.queue key,
    StartsWith table r.recordedBy r.identity ∧ table.pid r.recordedBy = key.pid
  oneGeneration : ∀ key, ∀ r ∈ caches.identities.queue key,
    ∀ r' ∈ caches.identities.queue key, r.recordedBy = r'.recordedBy

section

variable {table : ProcessTable} {caches : AuditCaches} {event : AuditEvent}

theorem wellRecorded_new (capacity processCapacity ttl : Nat) :
    WellRecorded table (.new capacity processCapacity ttl) := by
  refine ⟨.withLimits _ _, fun _ _ => rfl, ?_, ?_, ?_⟩
  · intro key a ha
    cases ha
  · intro key r hr
    cases hr
  · intro key r hr
    cases hr

theorem execIdentity_startsWith (h : caches.processes.All (StartsWith table))
    (generation : Option ProcessGeneration) (now : Nat) :
    (caches.execIdentity generation now).2.All (StartsWith table) ∧
      ∀ g process, generation = some g →
        (caches.execIdentity generation now).1 = some process → StartsWith table g process := by
  cases generation with
  | none => exact ⟨h, nofun⟩
  | some g =>
    refine ⟨(h.getAt g now).1, ?_⟩
    rintro _ process ⟨⟩ hprocess
    exact (h.getAt g now).2 process hprocess

theorem openIdentity_startsWith (h : caches.processes.All (StartsWith table))
    (htruthful : event.Truthful table) :
    (caches.openIdentity event).2.All (StartsWith table) ∧
      ∀ process, (caches.openIdentity event).1 = some process →
        StartsWith table event.actual process := by
  unfold AuditCaches.openIdentity
  cases hinspected : event.inspectedAtOpen with
  | some process =>
    refine ⟨h, ?_⟩
    rintro _ ⟨⟩
    exact .inr (htruthful.opened process hinspected)
  | none =>
    obtain ⟨hall, hprocess⟩ := execIdentity_startsWith h event.generation event.openedAt
    refine ⟨hall, ?_⟩
    intro process hsome
    cases hgeneration : event.generation with
    | none =>
      rw [hgeneration] at hsome
      cases hsome
    | some g =>
      rw [← htruthful.generation g hgeneration]
      exact hprocess g process hgeneration hsome

/-- Identities of two generations with one process id share a start time only by
having none. -/
theorem startTime_none_of_eq {g g' : ProcessGeneration} {a b : ProcessIdentity}
    (ha : StartsWith table g a) (hb : StartsWith table g' b) (hpid : table.pid g = table.pid g')
    (hne : g ≠ g') (h : a.startTimeTicks = b.startTimeTicks) :
    a.startTimeTicks = none ∧ b.startTimeTicks = none := by
  rcases ha with ha | ha
  · exact ⟨ha, h.symm.trans ha⟩
  · rcases hb with hb | hb
    · exact ⟨h.trans hb, hb⟩
    · have hstart : table.startTime g = table.startTime g' :=
        Option.some.inj (ha.symm.trans (h.trans hb))
      exact absurd (table.distinct g g' hpid hstart) hne

/-- An identity that stays queued under the key of an open event was recorded by
the event's generation. -/
theorem recordedBy_of_kept (h : WellRecorded table caches) (htruthful : event.Truthful table)
    (hreplaces : caches.Replaces event) {process : ProcessIdentity}
    (hprocess : (caches.openIdentity event).1 = some process) {r : RecordedIdentity}
    (hr : r ∈ caches.identities.queue event.key)
    (hsame : caches.identities.capacity ≠ 0 → r.startTime = process.startTimeTicks) :
    r.recordedBy = event.actual := by
  by_contra hother
  have hcapacity : caches.identities.capacity ≠ 0 := by
    intro hzero
    rw [h.bounded hzero] at hr
    cases hr
  obtain ⟨hstart, hpid⟩ := h.recorded event.key r hr
  have hpids : table.pid r.recordedBy = table.pid event.actual := hpid.trans htruthful.pid
  obtain ⟨hnone, hnone'⟩ := startTime_none_of_eq hstart
    ((openIdentity_startsWith h.executed htruthful).2 process hprocess) hpids hother
    (hsame hcapacity)
  rcases (hreplaces r hr hother).2 process hprocess with hsome | hsome
  · exact hsome hnone'
  · exact hsome hnone

/-- Queues that only lose identities, and executed identities that are kept. -/
theorem WellRecorded.shrink {identities : AuditIdentityCache RecordedIdentity}
    {processes : AuditProcessCache} (h : WellRecorded table caches)
    (hprocesses : processes.All (StartsWith table))
    (hcapacity : identities.capacity = caches.identities.capacity)
    (hsubset : ∀ key, identities.queue key ⊆ caches.identities.queue key) :
    WellRecorded table ⟨identities, processes⟩ := by
  refine ⟨hprocesses, ?_, h.oneStartTime.of_subset hsubset, ?_, ?_⟩
  · intro hzero key
    refine List.eq_nil_of_subset_nil ?_
    rw [← h.bounded (hcapacity.symm.trans hzero) key]
    exact hsubset key
  · intro key r hr
    exact h.recorded key r (hsubset key hr)
  · intro key r hr r' hr'
    exact h.oneGeneration key r (hsubset key hr) r' (hsubset key hr')

/-- An identity is recorded for an open event, after which all that is queued
under its process id and file are of the event's generation. -/
theorem WellRecorded.insert (h : WellRecorded table caches) (htruthful : event.Truthful table)
    (hreplaces : caches.Replaces event) {process : ProcessIdentity}
    (hprocess : (caches.openIdentity event).1 = some process) :
    WellRecorded table
        ⟨caches.identities.insert RecordedIdentity.startTime event.pid event.object
          ⟨process, event.actual⟩, (caches.openIdentity event).2⟩ ∧
      ∀ r ∈ (caches.identities.insert RecordedIdentity.startTime event.pid event.object
          ⟨process, event.actual⟩).queue event.key, r.recordedBy = event.actual := by
  obtain ⟨hprocesses, hidentity⟩ := openIdentity_startsWith h.executed htruthful
  -- what is queued afterwards is the new identity or one of the same generation
  have hmem : ∀ key r, r ∈ (caches.identities.insert RecordedIdentity.startTime event.pid
        event.object ⟨process, event.actual⟩).queue key →
      key = event.key ∧ r = ⟨process, event.actual⟩ ∨ r ∈ caches.identities.queue key ∧
        (key = event.key → r.recordedBy = event.actual) := by
    intro key r hr
    rcases AuditIdentityCache.mem_queue_insert h.oneStartTime hr with hnew | ⟨hold, hsame⟩
    · exact .inl hnew
    · refine .inr ⟨hold, ?_⟩
      rintro rfl
      exact recordedBy_of_kept h htruthful hreplaces hprocess hold (hsame rfl)
  refine ⟨⟨hprocesses, ?_, h.oneStartTime.insert, ?_, ?_⟩, ?_⟩
  · intro hzero key
    rw [AuditIdentityCache.capacity_insert] at hzero
    have hsame : caches.identities.insert RecordedIdentity.startTime event.pid event.object
        ⟨process, event.actual⟩ = caches.identities := if_pos hzero
    exact (congrArg (·.queue key) hsame).trans (h.bounded hzero key)
  · intro key r hr
    rcases hmem key r hr with ⟨rfl, rfl⟩ | ⟨hold, _⟩
    · exact ⟨hidentity process hprocess, htruthful.pid.symm⟩
    · exact h.recorded key r hold
  · intro key r hr r' hr'
    rcases hmem key r hr with ⟨rfl, rfl⟩ | ⟨hold, hkey⟩
    · rcases hmem _ r' hr' with ⟨_, rfl⟩ | ⟨_, hkey'⟩
      · rfl
      · exact (hkey' rfl).symm
    · rcases hmem _ r' hr' with ⟨hkey', rfl⟩ | ⟨hold', _⟩
      · exact hkey hkey'
      · exact h.oneGeneration key r hold r' hold'
  · intro r hr
    rcases hmem event.key r hr with ⟨_, rfl⟩ | ⟨_, hkey⟩
    · rfl
    · exact hkey rfl

/-- After the open part of an event nothing is left under its process id and
file that another generation has recorded. -/
theorem recordOpenIdentity_wellRecorded (h : WellRecorded table caches)
    (htruthful : event.Truthful table) (hreplaces : caches.Replaces event) :
    WellRecorded table (caches.recordOpenIdentity event) ∧
      ∀ r ∈ (caches.recordOpenIdentity event).identities.queue event.key,
        r.recordedBy = event.actual := by
  unfold AuditCaches.recordOpenIdentity
  by_cases hopen : event.isOpen = true
  · rw [if_pos hopen]
    dsimp only
    cases hprocess : (caches.openIdentity event).1 with
    | none =>
      have hprocesses := (openIdentity_startsWith h.executed htruthful).1
      refine ⟨h.shrink hprocesses rfl ?_, ?_⟩
      · intro key r hr
        exact (AuditIdentityCache.mem_queue_invalidate hr).1
      · intro r hr
        exact absurd rfl (AuditIdentityCache.mem_queue_invalidate hr).2
    | some process => exact h.insert htruthful hreplaces hprocess
  · -- an event that opens nothing replaces nothing, so nothing stale is queued
    rw [if_neg hopen]
    refine ⟨h, ?_⟩
    intro r hr
    by_contra hother
    exact hopen (hreplaces r hr hother).1

theorem recordExecIdentity_wellRecorded (h : WellRecorded table caches) (display : Path → String)
    {exec : ExecEvent} (htruthful : exec.Truthful table) :
    WellRecorded table (caches.recordExecIdentity display exec) := by
  unfold AuditCaches.recordExecIdentity
  cases hgeneration : exec.generation with
  | none => exact h
  | some g =>
    have hstart : StartsWith table g
        (exec.inspected.getD (.fromExecutable display exec.pid exec.executablePath)) := by
      cases hinspected : exec.inspected with
      | none => exact .inl rfl
      | some process => exact .inr (htruthful g process hgeneration hinspected)
    exact h.shrink (h.executed.insertExecAt hstart exec.executedAt) rfl
      (fun _ => List.Subset.refl _)

/-- An event with neither an open nor a close is passed over. -/
theorem recordIdentityAndSelectProcess_idle
    (hidle : ¬ (event.isOpen = true ∨ accessKinds event.mask ≠ [])) :
    caches.recordIdentityAndSelectProcess event = (none, caches) := by
  obtain ⟨hopen, haccesses⟩ := not_or.mp hidle
  simp [AuditCaches.recordIdentityAndSelectProcess, AuditCaches.recordOpenIdentity, hopen,
    not_not.mp haccesses]

/-- Handling an event keeps the caches, and the identity its close takes from the
cache was recorded by its own generation. -/
theorem recordIdentityAndSelectProcess_spec (h : WellRecorded table caches)
    (htruthful : event.Truthful table)
    (hreplaces : event.isOpen = true ∨ accessKinds event.mask ≠ [] → caches.Replaces event) :
    WellRecorded table (caches.recordIdentityAndSelectProcess event).2 ∧
      ∀ accesses recorded,
        (caches.recordIdentityAndSelectProcess event).1 = some (accesses, .recorded recorded) →
        recorded.recordedBy = event.actual := by
  by_cases hidle : event.isOpen = true ∨ accessKinds event.mask ≠ []
  swap
  · rw [recordIdentityAndSelectProcess_idle hidle]
    exact ⟨h, nofun⟩
  obtain ⟨hopened, hown⟩ := recordOpenIdentity_wellRecorded h htruthful (hreplaces hidle)
  unfold AuditCaches.recordIdentityAndSelectProcess
  generalize caches.recordOpenIdentity event = opened at hopened hown
  dsimp only
  have hmem : ∀ key, (opened.identities.take event.pid event.object).2.queue key ⊆
      opened.identities.queue key := fun _ _ => AuditIdentityCache.mem_queue_take
  have hcapacity := AuditIdentityCache.capacity_take opened.identities event.pid event.object
  split
  · exact ⟨hopened, nofun⟩
  · split
    · rename_i recorded identities htake
      rw [htake] at hmem hcapacity
      refine ⟨hopened.shrink hopened.executed hcapacity hmem, ?_⟩
      rintro _ _ ⟨⟩
      exact hown recorded (AuditIdentityCache.take_eq_some htake)
    · rename_i identities htake
      rw [htake] at hmem hcapacity
      have hexec := (execIdentity_startsWith hopened.executed event.generation event.closedAt).1
      refine ⟨hopened.shrink hexec hcapacity hmem, ?_⟩
      intro accesses recorded hselected
      split at hselected <;> cases hselected

end

/-- In a run whose events describe their processes and whose opens and closes
replace the identities of other generations that are still queued for their
process id and file, every close that is attributed to a cached identity is
attributed to one that an open event of the closing generation recorded. -/
theorem closeIdentity_sameGeneration (table : ProcessTable) (settings : AuditSettings)
    (s : AuditState)
    (h : Reachable (auditRun settings) (fun s a => a.Truthful table ∧ s.ReplacesStale a) s) :
    ∀ event recorded, (event, .recorded recorded) ∈ s.selections →
      recorded.recordedBy = event.actual := by
  have hboth : WellRecorded table s.caches ∧ ∀ event recorded,
      (event, .recorded recorded) ∈ s.selections → recorded.recordedBy = event.actual := by
    refine h.invariant (I := fun s => WellRecorded table s.caches ∧ ∀ event recorded,
      (event, .recorded recorded) ∈ s.selections → recorded.recordedBy = event.actual) ?_ ?_
    · rintro _ rfl
      refine ⟨wellRecorded_new _ _ _, ?_⟩
      intro event recorded hmem
      cases hmem
    · rintro s a t ⟨hs, hselections⟩ ⟨htruthful, hreplaces⟩ hstep
      cases a with
      | exec exec =>
        rw [← Option.some.inj hstep]
        exact ⟨recordExecIdentity_wellRecorded hs settings.display htruthful, hselections⟩
      | access event =>
        obtain ⟨hcaches, hselected⟩ := recordIdentityAndSelectProcess_spec hs htruthful hreplaces
        simp only [auditRun, AuditState.step] at hstep
        split at hstep
        · rename_i accesses selected caches hresult
          rw [hresult] at hcaches hselected
          rw [← Option.some.inj hstep]
          refine ⟨hcaches, ?_⟩
          intro event' recorded hmem
          rcases List.mem_append.mp hmem with hmem | hmem
          · exact hselections event' recorded hmem
          · obtain ⟨rfl, rfl⟩ := Prod.mk.inj (List.mem_singleton.mp hmem)
            exact hselected accesses recorded rfl
        · rename_i caches hresult
          rw [hresult] at hcaches
          rw [← Option.some.inj hstep]
          exact ⟨hcaches, hselections⟩
  exact hboth.2

/-- All processes have the id 42; their start times tell them apart. -/
def reusedPid : ProcessTable where
  pid _ := 42
  startTime generation := Nat.pair generation.device generation.inode
  distinct := by
    rintro ⟨device, inode⟩ ⟨device', inode'⟩ _ hstart
    obtain ⟨rfl, rfl⟩ := Nat.pair_eq_pair.mp hstart
    rfl

def firstGeneration : ProcessGeneration := ⟨0, 1⟩

def secondGeneration : ProcessGeneration := ⟨0, 2⟩

def startedAs (generation : ProcessGeneration) : ProcessIdentity :=
  { ProcessIdentity.unknown 42 with startTimeTicks := some (reusedPid.startTime generation) }

def journal : AuditObjectId := ⟨1, 7⟩

def opensJournal (generation : ProcessGeneration) : AuditEvent where
  mask := fanOpen
  pid := 42
  object := journal
  generation := some generation
  openedAt := 0
  inspectedAtOpen := some (startedAs generation)
  closedAt := 0
  inspectedAtClose := none
  actual := generation

def closesJournal (generation : ProcessGeneration) : AuditEvent :=
  { opensJournal generation with mask := fanCloseNowrite }

theorem opensJournal_truthful (generation : ProcessGeneration) :
    (opensJournal generation).Truthful reusedPid := by
  refine ⟨rfl, ?_, ?_, nofun⟩
  · rintro _ ⟨⟩
    rfl
  · rintro _ ⟨⟩
    rfl

theorem closesJournal_truthful (generation : ProcessGeneration) :
    (closesJournal generation).Truthful reusedPid := by
  refine ⟨rfl, ?_, ?_, nofun⟩
  · rintro _ ⟨⟩
    rfl
  · rintro _ ⟨⟩
    rfl

def defaultSettings : AuditSettings where
  capacity := AuditIdentityCache.defaultCapacity
  processCapacity := AuditProcessCache.defaultCapacity
  ttl := AuditProcessCache.defaultTtl
  display _ := ""

def auditStart : AuditState :=
  ⟨.new defaultSettings.capacity defaultSettings.processCapacity defaultSettings.ttl, []⟩

/-- After the first generation has opened the journal. -/
def journalOpened : AuditState :=
  ⟨auditStart.caches.recordOpenIdentity (opensJournal firstGeneration), []⟩

/-- The second generation opens the journal while the first one's identity is
still queued for their process id. -/
def journalReopened : AuditState :=
  ⟨journalOpened.caches.recordOpenIdentity (opensJournal secondGeneration), []⟩

def journalReclosed : AuditState where
  caches :=
    (journalReopened.caches.recordIdentityAndSelectProcess (closesJournal secondGeneration)).2
  selections :=
    [(closesJournal secondGeneration, .recorded ⟨startedAs secondGeneration, secondGeneration⟩)]

/-- The open of the second generation replaces the identity of the first one. -/
theorem closeIdentity_sameGeneration_journal :
    (closesJournal secondGeneration,
        .recorded ⟨startedAs secondGeneration, secondGeneration⟩) ∈ journalReclosed.selections ∧
      secondGeneration = (closesJournal secondGeneration).actual := by
  have hreachable : Reachable (auditRun defaultSettings)
      (fun s a => a.Truthful reusedPid ∧ s.ReplacesStale a) journalReclosed := by
    refine ⟨auditStart, rfl, .tail (t := journalReopened)
      (a := .access (closesJournal secondGeneration))
      (.tail (t := journalOpened) (a := .access (opensJournal secondGeneration))
        (.single (a := .access (opensJournal firstGeneration)) ⟨opensJournal_truthful _, ?_⟩ rfl)
        ⟨opensJournal_truthful _, ?_⟩ rfl)
      ⟨closesJournal_truthful _, ?_⟩ rfl⟩
    · intro _ recorded hmem
      cases hmem
    · intro _ recorded _ _
      refine ⟨rfl, ?_⟩
      rintro _ ⟨⟩
      exact .inl (Option.some_ne_none _)
    · intro _ recorded hmem hother
      obtain rfl := List.mem_singleton.mp hmem
      exact absurd rfl hother
  exact ⟨List.mem_cons_self, closeIdentity_sameGeneration reusedPid defaultSettings
    journalReclosed hreachable _ _ List.mem_cons_self⟩

/-- The first generation's identity is taken for the close of `generation`. -/
def journalClosedBy (generation : ProcessGeneration) : AuditState where
  caches := (journalOpened.caches.recordIdentityAndSelectProcess (closesJournal generation)).2
  selections := [(closesJournal generation, .recorded ⟨startedAs firstGeneration, firstGeneration⟩)]

/-- The second generation closes the journal without having opened it, and the
close is attributed to the first one. -/
theorem close_attributed_to_stale :
    ¬ ∀ (table : ProcessTable) (settings : AuditSettings) (s : AuditState),
      Reachable (auditRun settings) (fun _ a => a.Truthful table) s →
      ∀ event recorded, (event, .recorded recorded) ∈ s.selections →
        recorded.recordedBy = event.actual := by
  intro h
  have hreachable : Reachable (auditRun defaultSettings)
      (fun _ a => a.Truthful reusedPid) (journalClosedBy secondGeneration) :=
    ⟨auditStart, rfl, .tail (t := journalOpened) (a := .access (closesJournal secondGeneration))
      (.single (a := .access (opensJournal firstGeneration)) (opensJournal_truthful _) rfl)
      (closesJournal_truthful _) rfl⟩
  have hsame := h reusedPid defaultSettings (journalClosedBy secondGeneration) hreachable
    (closesJournal secondGeneration) ⟨startedAs firstGeneration, firstGeneration⟩
    List.mem_cons_self
  exact absurd hsame (by decide)

end ConfigGuard
