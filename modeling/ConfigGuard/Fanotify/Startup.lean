import ConfigGuard.Fanotify.Scope
import ConfigGuard.Fanotify.Watch
import ConfigGuard.Policy.AliasOrder
import ConfigGuard.Reconcile.Command

/-!
# Until the first event

`run_guard` and `run_audit_mode` of `main.rs`, `run` of `fanotify.rs`, `install`
of `watch.rs` and `systemd_notify.rs`, up to where events are read: the scope is
settled, the marks are installed, and systemd is told.
-/

namespace ConfigGuard
open OsPath

inductive SocketAddr where
  | fromAbstractName (name : Bytes)
  | fromPathname (path : Path)
  deriving DecidableEq, Repr

inductive NotifyError where
  | parsingAbstract
  | parsingPath
  | creatingSocket
  | sending
  | short (sent length : Nat)
  deriving DecidableEq, Repr

def NotifyError.message : NotifyError → String
  | parsingAbstract => "parsing abstract systemd notification socket"
  | parsingPath => "parsing systemd notification socket path"
  | creatingSocket => "creating systemd notification socket"
  | sending => "sending systemd readiness notification"
  | short sent length => s!"short systemd readiness notification: sent {sent} of {length} bytes"

/-- The bytes that the address of a socket has room for. -/
def sunPathLength : Nat := 108

def notifyAddress (notifySocket : Bytes) : Except NotifyError SocketAddr :=
  match notifySocket with
  | 64 :: abstractName =>
    if sunPathLength < abstractName.length + 1 then .error .parsingAbstract
    else .ok (.fromAbstractName abstractName)
  | bytes =>
    if bytes.contains 0 ∨ sunPathLength ≤ bytes.length then .error .parsingPath
    else .ok (.fromPathname ⟨bytes⟩)

/-- What the operating system answers about the socket. -/
structure NotifyIo where
  unbound : Except String Unit
  sendToAddr : SocketAddr → Bytes → Except String Nat

/-- What can be seen of the start of a run. -/
inductive StartEffect where
  | marked (path : Path)
  | printed (status : String)
  | ready (address : SocketAddr) (message : Bytes)
  deriving DecidableEq, Repr

/-- The datagram that is sent, if one is. -/
def notifyReady (io : NotifyIo) (notifySocket : Option Bytes) (status : String) :
    List StartEffect × Except NotifyError Unit :=
  match notifySocket with
  | none => ([], .ok ())
  | some notifySocket =>
    match notifyAddress notifySocket with
    | .error error => ([], .error error)
    | .ok address =>
      match io.unbound with
      | .error _ => ([], .error .creatingSocket)
      | .ok () =>
        let message := utf8 ("READY=1\nSTATUS=" ++ status)
        match io.sendToAddr address message with
        | .error _ => ([], .error .sending)
        | .ok sent =>
          if sent ≠ message.length then
            ([.ready address message], .error (.short sent message.length))
          else ([.ready address message], .ok ())

inductive StartError where
  | scope (error : ScopeError)
  | policy (error : CommandError)
  | fanotifyInit (error : String)
  | watch (error : WatchError)
  | markingMount (path : Path) (error : WatchError)
  | notify (error : NotifyError)

def StartError.message (displayPlace : List Component → String) : StartError → String
  | scope error => error.message
  | policy error => error.message displayPlace
  | fanotifyInit _ => "fanotify_init failed; monitoring usually requires CAP_SYS_ADMIN"
  | watch error => error.message Path.display
  | markingMount path _ => s!"marking mount containing {path.display}"
  | notify error => error.message

inductive WatchMode where
  | audit
  | guard
  deriving DecidableEq, Repr

/-- What a run finds when it starts; `markMount` is the answer of the kernel to a mark on the
mount a path is on, and `listing` what `read_dir` of `~/.config` yields. -/
structure StartWorld where
  canonicalize : Path → Except String Path
  currentDir : Option Path
  home : Option Path
  listing : Path → Option (List (Option ConfigDirEntry))
  policyConfig : Except CommandError PolicyConfig
  fanotifyInit : Except String Unit
  fs : FileSystem
  markMount : Path → Except String Unit
  notifySocket : Option Bytes
  notifyIo : NotifyIo

/-- `mounts` answers to marks on mounts. The marks of the kernel are listed with the last one
first. -/
def markAuditMounts (mounts : FileSystem) (marked : List Path) :
    List Path → List Path × Except StartError Unit
  | [] => (marked, .ok ())
  | path :: paths =>
    match markPath mounts marked path with
    | (marked, .error error) => (marked, .error (.markingMount path error))
    | (marked, .ok ()) => markAuditMounts mounts marked paths

def watchList (paths : List Path) : String := ", ".intercalate (paths.map Path.display)

/-- The marks in the order they are made, and the text about them. -/
def install (world : StartWorld) (mode : WatchMode) (fuel : Nat) (paths excludedPaths : List Path) :
    Option (List Path × Except StartError String) :=
  match mode with
  | .audit =>
    let mounts := { world.fs with fanotifyMark := world.markMount }
    let (marked, result) := markAuditMounts mounts [] paths
    some (marked.reverse, result.map fun () =>
      s!"watching {watchList paths} with mount notifications ({paths.length} root requests installed)")
  | .guard =>
    match markPathTrees world.fs excludedPaths fuel paths [] 0 with
    | none => none
    | some (marked, .error error) => some (marked.reverse, .error (.watch error))
    | some (marked, .ok markedPaths) =>
      some (marked.reverse, .ok
        s!"watching {watchList paths} ({markedPaths} directories marked)")

/-- `run` up to the loop. -/
def startRun (world : StartWorld) (mode : WatchMode) (fuel : Nat) (paths excludedPaths : List Path) :
    Option (List StartEffect × Except StartError Unit) :=
  match world.fanotifyInit with
  | .error error => some ([], .error (.fanotifyInit error))
  | .ok () =>
    match install world mode fuel paths excludedPaths with
    | none => none
    | some (marked, .error error) => some (marked.map .marked, .error error)
    | some (marked, .ok status) =>
      let (sent, result) := notifyReady world.notifyIo world.notifySocket status
      some (marked.map .marked ++ .printed status :: sent, result.mapError .notify)

/-- What a run works with. -/
structure RunSetup where
  canonicalPaths : List Path
  paths : List Path
  excludedPaths : List Path
  policy : StaticPolicy

def prepare (world : StartWorld) (paths excludedPaths : List Path) : Except StartError RunSetup :=
  match canonicalizeScopePaths world.canonicalize world.currentDir "watch" paths with
  | .error error => .error (.scope error)
  | .ok canonicalPaths =>
    match canonicalizeScopePaths world.canonicalize world.currentDir "excluded" excludedPaths with
    | .error error => .error (.scope error)
    | .ok excludedPaths =>
      let homeDir := auditHome canonicalPaths world.home
      let pathAliases := configSymlinkAliases homeDir (world.listing homeDir)
      let paths := expandScopeWithAliases canonicalPaths pathAliases
      match world.policyConfig with
      | .error error => .error (.policy error)
      | .ok config =>
        .ok { canonicalPaths, paths, excludedPaths, policy := { config, pathAliases } }

def startCommand (world : StartWorld) (mode : WatchMode) (fuel : Nat)
    (paths excludedPaths : List Path) : Option (List StartEffect × Except StartError Unit) :=
  match prepare world paths excludedPaths with
  | .error error => some ([], .error error)
  | .ok setup => startRun world mode fuel setup.paths setup.excludedPaths

theorem notifyReady_cases (io : NotifyIo) (notifySocket : Option Bytes) (status : String) :
    (notifyReady io notifySocket status).1 = [] ∧
        ((notifyReady io notifySocket status).2 = .ok () → notifySocket = none) ∨
      ∃ address, (notifyReady io notifySocket status).1 =
        [.ready address (utf8 ("READY=1\nSTATUS=" ++ status))] := by
  unfold notifyReady
  cases notifySocket with
  | none => exact .inl ⟨rfl, fun _ => rfl⟩
  | some notifySocket =>
    dsimp only
    cases notifyAddress notifySocket with
    | error error => exact .inl ⟨rfl, fun h => (by cases h)⟩
    | ok address =>
      dsimp only
      cases io.unbound with
      | error error => exact .inl ⟨rfl, fun h => (by cases h)⟩
      | ok _ =>
        dsimp only
        cases io.sendToAddr address (utf8 ("READY=1\nSTATUS=" ++ status)) with
        | error error => exact .inl ⟨rfl, fun h => (by cases h)⟩
        | ok sent =>
          dsimp only
          split <;> exact .inr ⟨address, rfl⟩

theorem notifyReady_sent {io : NotifyIo} {notifySocket : Option Bytes} {status : String}
    {address : SocketAddr} {message : Bytes}
    (h : .ready address message ∈ (notifyReady io notifySocket status).1) :
    (notifyReady io notifySocket status).1 = [.ready address message] ∧
      message = utf8 ("READY=1\nSTATUS=" ++ status) := by
  rcases notifyReady_cases io notifySocket status with ⟨hnil, -⟩ | ⟨address', hone⟩
  · rw [hnil] at h
    cases h
  · rw [hone, List.mem_singleton, StartEffect.ready.injEq] at h
    obtain ⟨rfl, rfl⟩ := h
    exact ⟨hone, rfl⟩

theorem notifyReady_told {io : NotifyIo} {notifySocket : Option Bytes} {status : String}
    (h : (notifyReady io notifySocket status).2 = .ok ()) :
    notifySocket = none ∨
      ∃ address message, .ready address message ∈ (notifyReady io notifySocket status).1 := by
  rcases notifyReady_cases io notifySocket status with ⟨-, hnone⟩ | ⟨address, hone⟩
  · exact .inl (hnone h)
  · exact .inr ⟨address, _, hone ▸ List.mem_singleton_self _⟩

/-- The effects of a start with all its marks. -/
theorem startRun_installed {world : StartWorld} {mode : WatchMode} {fuel : Nat}
    {paths excludedPaths marked : List Path} {status : String}
    (hinit : world.fanotifyInit = .ok ())
    (hinstall : install world mode fuel paths excludedPaths = some (marked, .ok status)) :
    startRun world mode fuel paths excludedPaths =
      some (marked.map .marked ++
          .printed status :: (notifyReady world.notifyIo world.notifySocket status).1,
        (notifyReady world.notifyIo world.notifySocket status).2.mapError .notify) := by
  rw [startRun, hinit]
  dsimp only
  rw [hinstall]

theorem ready_mem_iff {marked : List Path} {status : String} {sent : List StartEffect}
    {address : SocketAddr} {message : Bytes} :
    .ready address message ∈ marked.map StartEffect.marked ++ .printed status :: sent ↔
      .ready address message ∈ sent := by
  simp

/-- What resolving a path promises: it is absolute, and is not behind a symlink. -/
structure StartWorld.Resolves (world : StartWorld) : Prop where
  absolute : ∀ home entries entry real, world.listing home = some entries →
    some entry ∈ entries → entry.canonical = some real → real.isAbsolute = true
  notBehind : ∀ absolute path, world.canonicalize absolute = .ok path →
    ∀ home, ∀ link ∈ configSymlinkAliases home (world.listing home),
      path.startsWith link.logicalRoot = false

theorem StartWorld.Resolves.aliases {world : StartWorld} (h : world.Resolves) (home : Path) :
    ∀ link ∈ configSymlinkAliases home (world.listing home), link.realRoot.isAbsolute = true := by
  intro link hlink
  cases hlisting : world.listing home with
  | none =>
    rw [hlisting] at hlink
    cases hlink
  | some entries =>
    rw [hlisting] at hlink
    obtain ⟨entry, hentry, hlink⟩ := mem_configSymlinkAliases hlink
    obtain ⟨maybe, hmem, hsome⟩ := List.mem_filterMap.mp hentry
    exact h.absolute home entries entry _ hlisting (hsome ▸ hmem) (configSymlinkAlias_eq_some hlink).1

/-- Where the parts of a setup come from. -/
theorem prepare_ok {world : StartWorld} {paths excludedPaths : List Path} {setup : RunSetup}
    (h : prepare world paths excludedPaths = .ok setup) :
    (∀ root ∈ setup.canonicalPaths, ∃ absolute, world.canonicalize absolute = .ok root) ∧
      (∃ home, setup.policy.pathAliases = configSymlinkAliases home (world.listing home)) ∧
      setup.paths = expandScopeWithAliases setup.canonicalPaths setup.policy.pathAliases := by
  have hcanonical : ∀ {kind paths canonical},
      canonicalizeScopePaths world.canonicalize world.currentDir kind paths = .ok canonical →
      ∀ root ∈ canonical, ∃ absolute, world.canonicalize absolute = .ok root := by
    intro kind paths canonical hok
    unfold canonicalizeScopePaths at hok
    split at hok
    · cases hok
    · exact canonicalizeScopePathsIn_ok hok
  unfold prepare at h
  split at h
  · cases h
  · rename_i canonicalPaths hpaths
    split at h
    · cases h
    · dsimp only at h
      split at h
      · cases h
      · obtain rfl := Except.ok.inj h
        exact ⟨hcanonical hpaths, ⟨_, rfl⟩, rfl⟩

/-- All that the guard is asked about and the policy judges is reported to it. -/
structure Watching (world : StartWorld) (setup : RunSetup) (marked : List Path) : Prop where
  /-- The kernel has accepted each mark, on a root or on a real directory below one. -/
  marks : ∀ x ∈ marked, ToMark world.fs setup.paths setup.excludedPaths x ∧ 0 ∉ x.bytes ∧
    world.fs.fanotifyMark x = .ok ()
  /-- The filter passes what the policy judges at or below a path of the command line. -/
  accepted : ∀ target, (∃ root ∈ setup.canonicalPaths,
      (setup.policy.decisionPath target).startsWith root = true) →
    isExcluded target setup.excludedPaths = false →
      isWatchedPath target setup.paths setup.excludedPaths = true
  /-- It passes what is below such a path, or behind a symlink there, and nothing else. -/
  only : ∀ target, isWatchedPath target setup.paths setup.excludedPaths = true →
    (∃ root ∈ setup.canonicalPaths, target.startsWith root = true) ∨
      ∃ link ∈ setup.policy.pathAliases, Covered setup.canonicalPaths link ∧
        target.startsWith link.realRoot = true
  /-- What it passes in a real directory below a root is in a directory with a mark. -/
  reported : ∀ root ∈ setup.paths, world.fs.isDir root = true →
    ∀ parent, Descends world.fs root parent → ∀ name, Path.IsName name →
      isWatchedPath (parent.join ⟨name⟩) setup.paths setup.excludedPaths = true →
        parent ∈ marked

theorem watching_of_installed {world : StartWorld} (hnames : world.fs.NamesValid)
    (hresolves : world.Resolves) {paths excludedPaths : List Path} {setup : RunSetup}
    (hsetup : prepare world paths excludedPaths = .ok setup) {marked : List Path}
    (haccepted : ∀ x ∈ marked, ToMark world.fs setup.paths setup.excludedPaths x ∧
      Accepted world.fs x)
    (hmarked : ∀ x, ToMark world.fs setup.paths setup.excludedPaths x → x ∈ marked) :
    Watching world setup marked := by
  obtain ⟨hcanonical, ⟨home, haliases⟩, hscope⟩ := prepare_ok hsetup
  refine ⟨haccepted, ?_, ?_, ?_⟩
  · rintro target ⟨root, hroot, hlogical⟩ hexcluded
    obtain ⟨absolute, habsolute⟩ := hcanonical root hroot
    rw [StaticPolicy.decisionPath] at hlogical
    rw [haliases] at hlogical hscope
    rw [hscope]
    exact isWatchedPath_of_logical hroot (hresolves.aliases home)
      (hresolves.notBehind absolute root habsolute home) hlogical hexcluded
  · intro target hwatched
    rw [hscope] at hwatched
    exact (isWatchedPath_expand.mp hwatched).1
  · intro root hroot hdir parent hparent name hname hwatched
    exact hmarked parent (.inr (inTree_of_watched hnames hroot hdir hparent hname hwatched))

def guardStatus (paths : List Path) (markedPaths : Nat) : String :=
  s!"watching {watchList paths} ({markedPaths} directories marked)"

/-- The marks of a finite file system are installed in finitely many steps, and what comes
after them is said of all. -/
theorem install_guard {world : StartWorld} (hnames : world.fs.NamesValid)
    (hfinite : ∀ root, world.fs.isDir root = true → {x | Descends world.fs root x}.Finite)
    (paths excludedPaths : List Path) :
    ∃ fuel marked result,
      (∀ k, install world .guard (fuel + k) paths excludedPaths = some (marked, result)) ∧
      (∀ x ∈ marked, ToMark world.fs paths excludedPaths x ∧ Accepted world.fs x) ∧
      ∀ status, result = .ok status → status = guardStatus paths marked.length ∧
        ∀ x, ToMark world.fs paths excludedPaths x → x ∈ marked := by
  have hroots : ∀ root ∈ paths, world.fs.isDir root = true → {x | Descends world.fs root x}.Finite :=
    fun root _ => hfinite root
  obtain ⟨fuel, marked, outcome, hrun, hinstalled⟩ :=
    markPathTrees_installed excludedPaths hnames hroots [] 0
  have haccepted : ∀ x ∈ marked.reverse, ToMark world.fs paths excludedPaths x ∧
      Accepted world.fs x := fun x hx =>
    (hinstalled.sound x (List.mem_reverse.mp hx)).resolve_left List.not_mem_nil
  cases outcome with
  | error error =>
    refine ⟨fuel, marked.reverse, .error (.watch error), ?_, haccepted, fun _ h => (by cases h)⟩
    intro k
    rw [install, hrun k]
  | ok count =>
    obtain ⟨hcomplete, hcount⟩ := hinstalled.complete count rfl
    refine ⟨fuel, marked.reverse, .ok (guardStatus paths count), ?_, haccepted, ?_⟩
    · intro k
      rw [install, hrun k]
      rfl
    · intro status hstatus
      obtain rfl := Except.ok.inj hstatus
      rw [List.length_nil, Nat.add_zero, Nat.zero_add] at hcount
      rw [List.length_reverse, hcount]
      exact ⟨rfl, fun x hx => List.mem_reverse.mpr (hcomplete x hx)⟩

/-- The guard's start on a finite file system comes to an end. If systemd is told that it is
ready, that was the last thing done, every mark was accepted by the kernel before and is
counted in the message, and from then on whatever the policy judges at or below a path of the
command line, also behind the symlinks of `~/.config`, is watched unless it is excluded. Where
systemd is to be told and was not, the start failed. -/
theorem ready_guard_is_watching (world : StartWorld) (hnames : world.fs.NamesValid)
    (hresolves : world.Resolves)
    (hfinite : ∀ root, world.fs.isDir root = true → {x | Descends world.fs root x}.Finite)
    (paths excludedPaths : List Path) :
    ∃ fuel effects result,
      (∀ k, startCommand world .guard (fuel + k) paths excludedPaths = some (effects, result)) ∧
      (result = .ok () → world.notifySocket = none ∨
        ∃ address message, .ready address message ∈ effects) ∧
      ∀ address message, .ready address message ∈ effects →
        ∃ setup marked, prepare world paths excludedPaths = .ok setup ∧
          effects = marked.map .marked ++
            [.printed (guardStatus setup.paths marked.length), .ready address message] ∧
          message = utf8 ("READY=1\nSTATUS=" ++ guardStatus setup.paths marked.length) ∧
          Watching world setup marked := by
  cases hsetup : prepare world paths excludedPaths with
  | error error =>
    refine ⟨0, [], .error error, ?_, fun h => (by cases h), fun _ _ h => (by cases h)⟩
    intro k
    rw [startCommand, hsetup]
  | ok setup =>
    cases hinit : world.fanotifyInit with
    | error error =>
      refine ⟨0, [], .error (.fanotifyInit error), ?_, fun h => (by cases h),
        fun _ _ h => (by cases h)⟩
      intro k
      rw [startCommand, hsetup]
      dsimp only
      rw [startRun, hinit]
    | ok _ =>
      obtain ⟨fuel, marked, result, hinstall, haccepted, hstatus⟩ :=
        install_guard hnames hfinite setup.paths setup.excludedPaths
      have hrun : ∀ k, startCommand world .guard (fuel + k) paths excludedPaths =
          startRun world .guard (fuel + k) setup.paths setup.excludedPaths := by
        intro k
        rw [startCommand, hsetup]
      cases result with
      | error error =>
        refine ⟨fuel, marked.map .marked, .error error, ?_, fun h => (by cases h), ?_⟩
        · intro k
          rw [hrun, startRun, hinit]
          dsimp only
          rw [hinstall]
        · intro address message hready
          obtain ⟨path, -, heq⟩ := List.mem_map.mp hready
          cases heq
      | ok status =>
        obtain ⟨rfl, hmarked⟩ := hstatus status rfl
        let told := notifyReady world.notifyIo world.notifySocket
          (guardStatus setup.paths marked.length)
        refine ⟨fuel, marked.map .marked ++ .printed (guardStatus setup.paths marked.length) :: told.1,
          told.2.mapError .notify, ?_, ?_, ?_⟩
        · intro k
          rw [hrun, startRun_installed hinit (hinstall k)]
        · intro hok
          have htold : told.2 = .ok () := by
            cases hresult : told.2 with
            | error error =>
              rw [hresult] at hok
              cases hok
            | ok _ => rfl
          rcases notifyReady_told htold with hnone | ⟨address, message, hsent⟩
          · exact .inl hnone
          · exact .inr ⟨address, message, ready_mem_iff.mpr hsent⟩
        · intro address message hready
          obtain ⟨(hone : told.1 = _), rfl⟩ := notifyReady_sent (ready_mem_iff.mp hready)
          rw [hone]
          exact ⟨setup, marked, rfl, rfl, rfl,
            watching_of_installed hnames hresolves hsetup haccepted hmarked⟩

/-- A small tree below the only watched path, and a systemd that listens. -/
def smallWorld : StartWorld where
  canonicalize path := .ok path
  currentDir := some (Path.ofString "/")
  home := none
  listing _ := none
  policyConfig := .ok {}
  fanotifyInit := .ok ()
  fs := smallTree
  markMount _ := .ok ()
  notifySocket := some (utf8 "/run/systemd/notify")
  notifyIo := { unbound := .ok (), sendToAddr := fun _ message => .ok message.length }

theorem resolves_smallWorld : smallWorld.Resolves where
  absolute _ _ _ _ hlisting := by cases hlisting
  notBehind _ _ _ _ link hlink := by cases hlink

theorem finite_below_smallTree (root : Path) : {x | Descends smallTree root x}.Finite := by
  refine Set.Finite.subset (Set.toFinite {root, watchedSubdir}) ?_
  intro x hx
  cases hx with
  | refl => exact .inl rfl
  | tail _ hlast =>
    obtain ⟨entries, entry, hread, hentry, hdir, rfl⟩ := hlast
    obtain ⟨rfl, rfl | rfl⟩ := readDir_smallTree hread hentry
    · exact .inr rfl
    · cases hdir

theorem ready_guard_is_watching_smallWorld :
    ∃ fuel effects result,
      (∀ k, startCommand smallWorld .guard (fuel + k) [watchedDir] [] = some (effects, result)) ∧
      (result = .ok () → ∃ setup marked address message, effects = marked.map .marked ++
        [.printed (guardStatus setup.paths marked.length), .ready address message] ∧
        Watching smallWorld setup marked) := by
  obtain ⟨fuel, effects, result, hrun, htold, hready⟩ :=
    ready_guard_is_watching smallWorld namesValid_smallTree resolves_smallWorld
      (fun root _ => finite_below_smallTree root) [watchedDir] []
  refine ⟨fuel, effects, result, hrun, ?_⟩
  intro hok
  rcases htold hok with hnone | ⟨address, message, hmem⟩
  · cases hnone
  · obtain ⟨setup, marked, -, heffects, -, hwatching⟩ := hready address message hmem
    exact ⟨setup, marked, address, message, heffects, hwatching⟩

end ConfigGuard
