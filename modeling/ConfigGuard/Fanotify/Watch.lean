import ConfigGuard.Fanotify.Event
import ConfigGuard.Library.Worklist
import Mathlib.Data.Set.Finite.Lattice
import Mathlib.Order.Bounds.Basic

/-!
# The marks of guard mode

`watch.rs`: guard mode marks every real directory below the watched roots, and
the event filter tests paths against the same roots and exclusions.
-/

namespace ConfigGuard
open OsPath

/-- What `DirEntry::file_type` says, which does not follow symlinks. -/
inductive FileType where
  | file
  | directory
  | symlink
  deriving DecidableEq, Repr

structure DirEntry where
  name : Bytes
  fileType : Except String FileType

/-- The file system while the marks are made: `isDir` follows symlinks, and
`fanotifyMark` is the answer of the kernel. -/
structure FileSystem where
  isDir : Path → Bool
  readDir : Path → Except String (List (Except String DirEntry))
  fanotifyMark : Path → Except String Unit

inductive WatchError where
  | interiorNul
  | fanotifyMark (error : String)
  | marking (path : Path) (error : WatchError)
  | readingDir (path : Path) (error : String)
  | readingEntry (path : Path) (error : String)
  | readingFileType (path : Path) (error : String)

/-- The outermost text of the error. -/
def WatchError.message (display : Path → String) : WatchError → String
  | interiorNul => "watch path contains an interior nul byte"
  | fanotifyMark _ => "fanotify_mark failed"
  | marking path _ => s!"marking {display path}"
  | readingDir path _ => s!"reading {display path}"
  | readingEntry path _ => s!"reading entry under {display path}"
  | readingFileType path _ => s!"reading file type for {display path}"

/-- The call of `fanotify_mark`. The kernel's marks, the last one first, have one more where
it accepts the path, and nothing else adds to them. -/
def FileSystem.callFanotifyMark (fs : FileSystem) (marked : List Path) (path : Path) :
    List Path × Except String Unit :=
  match fs.fanotifyMark path with
  | .error error => (marked, .error error)
  | .ok () => (path :: marked, .ok ())

def markPath (fs : FileSystem) (marked : List Path) (path : Path) :
    List Path × Except WatchError Unit :=
  if path.bytes.contains 0 then (marked, .error .interiorNul)
  else
    let (marked, result) := fs.callFanotifyMark marked path
    (marked, result.mapError .fanotifyMark)

def markGuardPath (fs : FileSystem) (marked : List Path) (path : Path) :
    List Path × Except WatchError Unit :=
  markPath fs marked path

/-- The loop of `child_directories` over the entries of `path`. -/
def collectDirectories (path : Path) (excludedPaths : List Path) :
    List (Except String DirEntry) → Except WatchError (List Path)
  | [] => .ok []
  | .error e :: _ => .error (.readingEntry path e)
  | .ok entry :: entries =>
    let child := path.join ⟨entry.name⟩
    match entry.fileType with
    | .error e => .error (.readingFileType child e)
    | .ok fileType =>
      match collectDirectories path excludedPaths entries with
      | .error e => .error e
      | .ok directories =>
        if fileType = .directory ∧ isExcluded child excludedPaths = false then
          .ok (child :: directories)
        else .ok directories

def childDirectories (fs : FileSystem) (excludedPaths : List Path) (path : Path) :
    Except WatchError (List Path) :=
  match fs.readDir path with
  | .error e => .error (.readingDir path e)
  | .ok entries => collectDirectories path excludedPaths entries

/-- The marking of one directory in the loop of `mark_path_tree`. -/
def markCurrentPath (fs : FileSystem) (marked : List Path) (currentPath : Path) :
    List Path × Except WatchError Unit :=
  let (marked, result) := markGuardPath fs marked currentPath
  (marked, result.mapError (.marking currentPath))

/-- The marks of the kernel, and the number that is returned. -/
def markPathTree (fs : FileSystem) (excludedPaths : List Path) (fuel : Nat) (path : Path)
    (marked : List Path) : Option (List Path × Except WatchError Nat) :=
  if fs.isDir path then
    Worklist.walk (markCurrentPath fs) (childDirectories fs excludedPaths) fuel [path] marked 0
  else
    match markGuardPath fs marked path with
    | (marked, .error e) => some (marked, .error e)
    | (marked, .ok ()) => some (marked, .ok 1)

def markPathTrees (fs : FileSystem) (excludedPaths : List Path) (fuel : Nat) :
    List Path → List Path → Nat → Option (List Path × Except WatchError Nat)
  | [], marked, count => some (marked, .ok count)
  | path :: paths, marked, count =>
    if isExcluded path excludedPaths then markPathTrees fs excludedPaths fuel paths marked count
    else
      match markPathTree fs excludedPaths fuel path marked with
      | none => none
      | some (marked, .error e) => some (marked, .error e)
      | some (marked, .ok n) => markPathTrees fs excludedPaths fuel paths marked (count + n)

/-- The path can be passed to the kernel, which accepts a mark on it. -/
def Accepted (fs : FileSystem) (path : Path) : Prop :=
  0 ∉ path.bytes ∧ fs.fanotifyMark path = .ok ()

/-- The path cannot be passed to the kernel, or the kernel refuses a mark on it. -/
def Refused (fs : FileSystem) (path : Path) : Prop :=
  0 ∈ path.bytes ∨ ∃ error, fs.fanotifyMark path = .error error

/-- The directory, one of its entries or the type of an entry cannot be read. -/
def Unreadable (fs : FileSystem) (path : Path) : Prop :=
  (∃ error, fs.readDir path = .error error) ∨
    ∃ entries, fs.readDir path = .ok entries ∧ ((∃ error, .error error ∈ entries) ∨
      ∃ entry, .ok entry ∈ entries ∧ ∃ error, entry.fileType = .error error)

section Calls

variable {fs : FileSystem} {marked marked' : List Path} {path : Path}

theorem markGuardPath_of_nul (h : 0 ∈ path.bytes) :
    markGuardPath fs marked path = (marked, .error .interiorNul) := by
  rw [markGuardPath, markPath, if_pos (List.contains_iff_mem.mpr h)]

theorem markGuardPath_of_refused {error : String} (h : 0 ∉ path.bytes)
    (herror : fs.fanotifyMark path = .error error) :
    markGuardPath fs marked path = (marked, .error (.fanotifyMark error)) := by
  rw [markGuardPath, markPath, if_neg (mt List.contains_iff_mem.mp h),
    FileSystem.callFanotifyMark, herror]
  rfl

theorem markGuardPath_of_accepted (h : Accepted fs path) :
    markGuardPath fs marked path = (path :: marked, .ok ()) := by
  rw [markGuardPath, markPath, if_neg (mt List.contains_iff_mem.mp h.1),
    FileSystem.callFanotifyMark, h.2]
  rfl

theorem markGuardPath_cases (fs : FileSystem) (marked : List Path) (path : Path) :
    Accepted fs path ∧ markGuardPath fs marked path = (path :: marked, .ok ()) ∨
      Refused fs path ∧ ∃ e, markGuardPath fs marked path = (marked, .error e) := by
  by_cases hnul : 0 ∈ path.bytes
  · exact .inr ⟨.inl hnul, _, markGuardPath_of_nul hnul⟩
  · cases hmark : fs.fanotifyMark path with
    | error error => exact .inr ⟨.inr ⟨error, hmark⟩, _, markGuardPath_of_refused hnul hmark⟩
    | ok _ => exact .inl ⟨⟨hnul, hmark⟩, markGuardPath_of_accepted ⟨hnul, hmark⟩⟩

theorem markCurrentPath_ok (h : markCurrentPath fs marked path = (marked', .ok ())) :
    marked' = path :: marked ∧ Accepted fs path := by
  rcases markGuardPath_cases fs marked path with ⟨haccepted, hmark⟩ | ⟨-, e, hmark⟩
  · rw [markCurrentPath, hmark] at h
    exact ⟨(Prod.mk.inj h).1.symm, haccepted⟩
  · rw [markCurrentPath, hmark] at h
    cases (Prod.mk.inj h).2

theorem markCurrentPath_error {e : WatchError}
    (h : markCurrentPath fs marked path = (marked', .error e)) :
    marked' = marked ∧ Refused fs path := by
  rcases markGuardPath_cases fs marked path with ⟨-, hmark⟩ | ⟨hrefused, e', hmark⟩
  · rw [markCurrentPath, hmark] at h
    cases (Prod.mk.inj h).2
  · rw [markCurrentPath, hmark] at h
    exact ⟨(Prod.mk.inj h).1.symm, hrefused⟩

/-- A directory that has been visited has a mark the kernel accepted. -/
theorem visits_marks {visited : List Path}
    (h : Worklist.Visits (markCurrentPath fs) marked visited marked') :
    marked' = visited.reverse ++ marked ∧ ∀ x ∈ visited, Accepted fs x := by
  induction h with
  | nil marked => exact ⟨rfl, fun x hx => absurd hx List.not_mem_nil⟩
  | cons hvisit _ ih =>
    obtain ⟨hmark, haccepted⟩ := markCurrentPath_ok hvisit
    obtain ⟨hmarked, hall⟩ := ih
    refine ⟨by rw [hmarked, hmark, List.reverse_cons, List.append_assoc]; rfl, ?_⟩
    intro x hx
    obtain rfl | hx := List.mem_cons.mp hx
    · exact haccepted
    · exact hall x hx

theorem unreadable_of_collect {excludedPaths : List Path}
    {entries : List (Except String DirEntry)} {e : WatchError}
    (h : collectDirectories path excludedPaths entries = .error e) :
    (∃ error, .error error ∈ entries) ∨
      ∃ entry, .ok entry ∈ entries ∧ ∃ error, entry.fileType = .error error := by
  induction entries generalizing e with
  | nil => cases h
  | cons first entries ih =>
    cases first with
    | error error => exact .inl ⟨error, List.mem_cons_self⟩
    | ok entry =>
      rw [collectDirectories] at h
      cases htype : entry.fileType with
      | error error => exact .inr ⟨entry, List.mem_cons_self, error, htype⟩
      | ok fileType =>
        cases hrest : collectDirectories path excludedPaths entries with
        | error e' =>
          obtain ⟨error, hmem⟩ | ⟨other, hmem, hother⟩ := ih hrest
          · exact .inl ⟨error, List.mem_cons_of_mem _ hmem⟩
          · exact .inr ⟨other, List.mem_cons_of_mem _ hmem, hother⟩
        | ok directories =>
          rw [htype, hrest] at h
          dsimp only at h
          split at h <;> cases h

theorem unreadable_of_error {excludedPaths : List Path} {e : WatchError}
    (h : childDirectories fs excludedPaths path = .error e) : Unreadable fs path := by
  rw [childDirectories] at h
  cases hread : fs.readDir path with
  | error error => exact .inl ⟨error, hread⟩
  | ok entries =>
    rw [hread] at h
    exact .inr ⟨entries, hread, unreadable_of_collect h⟩

end Calls

theorem isExcluded_iff {path : Path} {excludedPaths : List Path} :
    isExcluded path excludedPaths = true ↔
      ∃ excluded ∈ excludedPaths, excluded.components <+: path.components := by
  simp only [isExcluded, List.any_eq_true, Path.startsWith_iff]

/-- What lies below an excluded path is excluded. -/
theorem isExcluded_above {path below : Path} {excludedPaths : List Path}
    (hbelow : path.components <+: below.components)
    (h : isExcluded below excludedPaths = false) : isExcluded path excludedPaths = false := by
  rw [← Bool.not_eq_true, isExcluded_iff] at h ⊢
  rintro ⟨excluded, hmem, hpath⟩
  exact h ⟨excluded, hmem, hpath.trans hbelow⟩

/-- The names in a directory are names. -/
def FileSystem.NamesValid (fs : FileSystem) : Prop :=
  ∀ path entries entry, fs.readDir path = .ok entries → .ok entry ∈ entries →
    Path.IsName entry.name

/-- A real directory right below another. -/
def RealChild (fs : FileSystem) (path child : Path) : Prop :=
  ∃ entries entry, fs.readDir path = .ok entries ∧ .ok entry ∈ entries ∧
    entry.fileType = .ok .directory ∧ child = path.join ⟨entry.name⟩

/-- Reached by real directories, without crossing a symlink. -/
def Descends (fs : FileSystem) : Path → Path → Prop := Relation.ReflTransGen (RealChild fs)

section RealDirectories

variable {fs : FileSystem} (hnames : fs.NamesValid) {root path child : Path}

include hnames

theorem components_realChild (h : RealChild fs path child) :
    ∃ name, child.components = path.components ++ [.normal name] := by
  obtain ⟨entries, entry, hread, hentry, -, rfl⟩ := h
  exact ⟨entry.name, Path.components_join (hnames path entries entry hread hentry)⟩

theorem Descends.below (h : Descends fs root path) : root.components <+: path.components := by
  induction h with
  | refl => exact List.prefix_rfl
  | tail _ hstep ih =>
    obtain ⟨name, hname⟩ := components_realChild hnames hstep
    exact ih.trans (hname ▸ List.prefix_append _ _)

/-- A finite tree has no infinite descent: every step adds a component. -/
theorem acc_of_finite (hfinite : {x | Descends fs root x}.Finite) :
    Acc (fun y x => RealChild fs x y) root := by
  obtain ⟨depth, hdepth⟩ := (hfinite.image fun x => x.components.length).bddAbove
  have hbelow : ∀ k x, Descends fs root x → depth < x.components.length + k →
      Acc (fun y x => RealChild fs x y) x := by
    intro k
    induction k with
    | zero =>
      intro x hx hlt
      have hle : x.components.length ≤ depth := hdepth ⟨x, hx, rfl⟩
      omega
    | succ k ih =>
      intro x hx hlt
      refine Acc.intro x fun y hy => ih y (hx.tail hy) ?_
      obtain ⟨name, hname⟩ := components_realChild hnames hy
      rw [hname, List.length_append, List.length_singleton]
      omega
  exact hbelow (depth + 1) root .refl (by omega)

end RealDirectories

theorem mem_collectDirectories {path : Path} {excludedPaths : List Path}
    {entries : List (Except String DirEntry)} {directories : List Path}
    (h : collectDirectories path excludedPaths entries = .ok directories) (child : Path) :
    child ∈ directories ↔
      (∃ entry, .ok entry ∈ entries ∧ entry.fileType = .ok .directory ∧
        child = path.join ⟨entry.name⟩) ∧ isExcluded child excludedPaths = false := by
  induction entries generalizing directories with
  | nil =>
    obtain rfl := Except.ok.inj h
    simp
  | cons first entries ih =>
    cases first with
    | error e => cases h
    | ok entry =>
      rw [collectDirectories] at h
      cases htype : entry.fileType with
      | error e =>
        rw [htype] at h
        cases h
      | ok fileType =>
        cases hrest : collectDirectories path excludedPaths entries with
        | error e =>
          rw [htype, hrest] at h
          cases h
        | ok rest =>
          rw [htype, hrest] at h
          dsimp only at h
          have hrest := ih hrest
          -- the first entry is a directory that is walked, or is passed over
          split at h
          · rename_i hkept
            obtain rfl := Except.ok.inj h
            rw [List.mem_cons, hrest]
            constructor
            · rintro (rfl | ⟨⟨other, hother, hdir, hchild⟩, hexcluded⟩)
              · exact ⟨⟨entry, List.mem_cons_self, hkept.1 ▸ htype, rfl⟩, hkept.2⟩
              · exact ⟨⟨other, List.mem_cons_of_mem _ hother, hdir, hchild⟩, hexcluded⟩
            · rintro ⟨⟨other, hother, hdir, hchild⟩, hexcluded⟩
              obtain heq | hother := List.mem_cons.mp hother
              · obtain rfl := Except.ok.inj heq
                exact .inl hchild
              · exact .inr ⟨⟨other, hother, hdir, hchild⟩, hexcluded⟩
          · rename_i hskipped
            obtain rfl := Except.ok.inj h
            rw [hrest]
            constructor
            · rintro ⟨⟨other, hother, hdir, hchild⟩, hexcluded⟩
              exact ⟨⟨other, List.mem_cons_of_mem _ hother, hdir, hchild⟩, hexcluded⟩
            · rintro ⟨⟨other, hother, hdir, hchild⟩, hexcluded⟩
              obtain heq | hother := List.mem_cons.mp hother
              · obtain rfl := Except.ok.inj heq
                rw [htype] at hdir
                exact absurd ⟨Except.ok.inj hdir, hchild ▸ hexcluded⟩ hskipped
              · exact ⟨⟨other, hother, hdir, hchild⟩, hexcluded⟩

/-- The children the walk goes on with: the real directories that are not excluded. -/
theorem mem_childDirectories {fs : FileSystem} {excludedPaths : List Path} {path : Path}
    {directories : List Path} (h : childDirectories fs excludedPaths path = .ok directories)
    (child : Path) :
    child ∈ directories ↔ RealChild fs path child ∧ isExcluded child excludedPaths = false := by
  rw [childDirectories] at h
  cases hread : fs.readDir path with
  | error e =>
    rw [hread] at h
    cases h
  | ok entries =>
    rw [hread] at h
    rw [mem_collectDirectories h child]
    constructor
    · rintro ⟨⟨entry, hentry, hdir, hchild⟩, hexcluded⟩
      exact ⟨⟨entries, entry, hread, hentry, hdir, hchild⟩, hexcluded⟩
    · rintro ⟨⟨others, entry, hread', hentry, hdir, hchild⟩, hexcluded⟩
      rw [hread] at hread'
      obtain rfl := Except.ok.inj hread'
      exact ⟨⟨entry, hentry, hdir, hchild⟩, hexcluded⟩

/-- A real directory at or below a directory root, neither of them excluded. -/
def InTree (fs : FileSystem) (paths excludedPaths : List Path) (path : Path) : Prop :=
  ∃ root ∈ paths, isExcluded root excludedPaths = false ∧ fs.isDir root = true ∧
    Descends fs root path ∧ isExcluded path excludedPaths = false

/-- A root that is not excluded, or a directory in the tree of one. -/
def ToMark (fs : FileSystem) (paths excludedPaths : List Path) (path : Path) : Prop :=
  path ∈ paths ∧ isExcluded path excludedPaths = false ∨ InTree fs paths excludedPaths path

/-- What installing the marks of `paths` has done when it stops. -/
structure Installed (fs : FileSystem) (paths excludedPaths marked : List Path) (count : Nat)
    (marked' : List Path) (outcome : Except WatchError Nat) : Prop where
  keeps : ∀ x ∈ marked, x ∈ marked'
  sound : ∀ x ∈ marked', x ∈ marked ∨ ToMark fs paths excludedPaths x ∧ Accepted fs x
  complete : ∀ n, outcome = .ok n → (∀ x, ToMark fs paths excludedPaths x → x ∈ marked') ∧
    n + marked.length = count + marked'.length
  failed : ∀ e, outcome = .error e →
    (∃ x, ToMark fs paths excludedPaths x ∧ Refused fs x) ∨
      ∃ x, InTree fs paths excludedPaths x ∧ Unreadable fs x

section Trees

variable {fs : FileSystem} {excludedPaths : List Path} {root : Path}

theorem realChild_of_child {x y : Path}
    (h : Worklist.Child (childDirectories fs excludedPaths) x y) :
    RealChild fs x y ∧ isExcluded y excludedPaths = false := by
  obtain ⟨next, hnext, hy⟩ := h
  exact (mem_childDirectories hnext y).mp hy

theorem inTree_of_reaches (hroot : isExcluded root excludedPaths = false)
    (hdir : fs.isDir root = true) {x : Path}
    (h : Worklist.Reaches (childDirectories fs excludedPaths) root x) :
    InTree fs [root] excludedPaths x := by
  refine ⟨root, List.mem_singleton.mpr rfl, hroot, hdir, ?_, ?_⟩
  · exact Relation.ReflTransGen.mono (fun _ _ hchild => (realChild_of_child hchild).1) _ _ h
  · cases h with
    | refl => exact hroot
    | tail _ hlast => exact (realChild_of_child hlast).2

/-- Where every directory reached could be read, the walk follows every real
directory that is not excluded. -/
theorem reaches_of_descends (hnames : fs.NamesValid)
    (hread : ∀ y, Worklist.Reaches (childDirectories fs excludedPaths) root y →
      ∃ next, childDirectories fs excludedPaths y = .ok next) {x : Path}
    (h : Descends fs root x) (hx : isExcluded x excludedPaths = false) :
    Worklist.Reaches (childDirectories fs excludedPaths) root x := by
  induction h with
  | refl => exact .refl
  | @tail y z _ hstep ih =>
    have hy : isExcluded y excludedPaths = false := by
      obtain ⟨name, hname⟩ := components_realChild hnames hstep
      exact isExcluded_above (hname ▸ List.prefix_append _ _) hx
    obtain ⟨next, hnext⟩ := hread y (ih hy)
    exact (ih hy).tail ⟨next, hnext, (mem_childDirectories hnext z).mpr ⟨hstep, hx⟩⟩

theorem markPathTree_dir (hnames : fs.NamesValid)
    (hroot : isExcluded root excludedPaths = false) (hdir : fs.isDir root = true)
    {marked visited marked' : List Path} {outcome : Except WatchError Nat}
    (h : Worklist.Walked (markCurrentPath fs) (childDirectories fs excludedPaths) [root] marked 0
      visited marked' outcome) :
    Installed fs [root] excludedPaths marked 0 marked' outcome := by
  obtain ⟨hmarked, haccepted⟩ : marked' = visited.reverse ++ marked ∧ ∀ x ∈ visited, Accepted fs x := by
    obtain ⟨between, hvisits, hend⟩ := h.visits
    obtain rfl | ⟨y, e, -, herror⟩ := hend
    · exact visits_marks hvisits
    · rw [(markCurrentPath_error herror).1]
      exact visits_marks hvisits
  have hmem : ∀ x, x ∈ marked' ↔ x ∈ visited ∨ x ∈ marked := fun x => by
    rw [hmarked, List.mem_append, List.mem_reverse]
  refine ⟨fun x hx => (hmem x).mpr (.inr hx), ?_, ?_, ?_⟩
  · intro x hx
    obtain hx | hx := (hmem x).mp hx
    · obtain ⟨y, hy, hyx⟩ := h.sound x hx
      obtain rfl := List.mem_singleton.mp hy
      exact .inr ⟨.inr (inTree_of_reaches hroot hdir hyx), haccepted x hx⟩
    · exact .inl hx
  · intro n hn
    obtain ⟨hreached, hcount⟩ := h.complete n hn
    have hvisited := hreached root List.mem_cons_self
    refine ⟨?_, by rw [hmarked, List.length_append, List.length_reverse]; omega⟩
    rintro x (⟨hx, -⟩ | ⟨other, hother, -, -, hdescends, hx⟩)
    · obtain rfl := List.mem_singleton.mp hx
      exact (hmem x).mpr (.inl (hvisited x .refl).1)
    · obtain rfl := List.mem_singleton.mp hother
      have hreaches := reaches_of_descends hnames (fun y hy => (hvisited y hy).2) hdescends hx
      exact (hmem x).mpr (.inl (hvisited x hreaches).1)
  · intro e he
    obtain ⟨x, hx, y, hxy, hfail⟩ := h.failed e he
    obtain rfl := List.mem_singleton.mp hx
    have htree := inTree_of_reaches hroot hdir hxy
    obtain ⟨_, _, hvisit⟩ | hchildren := hfail
    · exact .inl ⟨y, .inr htree, (markCurrentPath_error hvisit).2⟩
    · exact .inr ⟨y, htree, unreadable_of_error hchildren⟩

/-- A root that is no directory is marked alone. -/
theorem toMark_of_not_dir (hdir : fs.isDir root = false) {x : Path}
    (h : ToMark fs [root] excludedPaths x) : x = root := by
  obtain ⟨hx, -⟩ | ⟨other, hother, -, hotherDir, -⟩ := h
  · exact List.mem_singleton.mp hx
  · rw [List.mem_singleton.mp hother, hdir] at hotherDir
    cases hotherDir

theorem markPathTree_spec (hnames : fs.NamesValid)
    (hroot : isExcluded root excludedPaths = false)
    (hfinite : fs.isDir root = true → {x | Descends fs root x}.Finite) (marked : List Path) :
    ∃ fuel marked' outcome,
      (∀ k, markPathTree fs excludedPaths (fuel + k) root marked = some (marked', outcome)) ∧
      Installed fs [root] excludedPaths marked 0 marked' outcome := by
  have hself : ToMark fs [root] excludedPaths root := .inl ⟨List.mem_cons_self, hroot⟩
  cases hdir : fs.isDir root with
  | true =>
    have hacc : ∀ x ∈ [root],
        Acc (fun y z => Worklist.Child (childDirectories fs excludedPaths) z y) x := by
      intro x hx
      obtain rfl := List.mem_singleton.mp hx
      exact Subrelation.accessible (fun hchild => (realChild_of_child hchild).1)
        (acc_of_finite hnames (hfinite hdir))
    obtain ⟨fuel, ⟨marked', outcome⟩, hwalk⟩ := Worklist.walk_ends hacc marked 0
    obtain ⟨visited, hwalked⟩ := Worklist.walk_spec hwalk
    refine ⟨fuel, marked', outcome, ?_, markPathTree_dir hnames hroot hdir hwalked⟩
    intro k
    rw [markPathTree, if_pos hdir]
    exact Worklist.walk_add hwalk k
  | false =>
    have hnot : ¬ fs.isDir root = true := by
      rw [hdir]
      exact Bool.false_ne_true
    rcases markGuardPath_cases fs marked root with ⟨haccepted, hmark⟩ | ⟨hrefused, e, hmark⟩
    · refine ⟨0, root :: marked, .ok 1, ?_, ?_⟩
      · intro k
        rw [markPathTree, if_neg hnot, hmark]
      · refine ⟨fun _ hx => List.mem_cons_of_mem _ hx, ?_, ?_, fun _ he => (by cases he)⟩
        · intro x hx
          obtain rfl | hx := List.mem_cons.mp hx
          · exact .inr ⟨hself, haccepted⟩
          · exact .inl hx
        · intro n hn
          obtain rfl := Except.ok.inj hn
          refine ⟨?_, by rw [List.length_cons]; omega⟩
          intro x hx
          rw [toMark_of_not_dir hdir hx]
          exact List.mem_cons_self
    · refine ⟨0, marked, .error e, ?_, ?_⟩
      · intro k
        rw [markPathTree, if_neg hnot, hmark]
      · exact ⟨fun _ hx => hx, fun _ hx => .inl hx, fun _ hn => (by cases hn),
          fun _ _ => .inl ⟨root, hself, hrefused⟩⟩

theorem inTree_cons {paths : List Path} {x : Path} :
    InTree fs (root :: paths) excludedPaths x ↔
      InTree fs [root] excludedPaths x ∨ InTree fs paths excludedPaths x := by
  simp only [InTree, List.mem_cons, List.not_mem_nil, or_false, or_and_right, exists_or,
    exists_eq_left]

theorem toMark_cons {paths : List Path} {x : Path} :
    ToMark fs (root :: paths) excludedPaths x ↔
      ToMark fs [root] excludedPaths x ∨ ToMark fs paths excludedPaths x := by
  rw [ToMark, ToMark, ToMark, inTree_cons, List.mem_cons, List.mem_singleton]
  tauto

/-- An excluded root contributes nothing. -/
theorem not_toMark_of_excluded (hroot : isExcluded root excludedPaths = true) {x : Path} :
    ¬ ToMark fs [root] excludedPaths x := by
  rintro (⟨hx, hexcluded⟩ | ⟨other, hother, hexcluded, -⟩)
  · rw [List.mem_singleton.mp hx, hroot] at hexcluded
    cases hexcluded
  · rw [List.mem_singleton.mp hother, hroot] at hexcluded
    cases hexcluded

theorem Installed.append {paths marked marked' marked'' : List Path} {count n : Nat}
    {outcome : Except WatchError Nat}
    (h : Installed fs [root] excludedPaths marked 0 marked' (.ok n))
    (hrest : Installed fs paths excludedPaths marked' (count + n) marked'' outcome) :
    Installed fs (root :: paths) excludedPaths marked count marked'' outcome where
  keeps x hx := hrest.keeps x (h.keeps x hx)
  sound x hx := by
    rw [toMark_cons]
    obtain hx | ⟨htarget, haccepted⟩ := hrest.sound x hx
    · obtain hx | ⟨htarget, haccepted⟩ := h.sound x hx
      · exact .inl hx
      · exact .inr ⟨.inl htarget, haccepted⟩
    · exact .inr ⟨.inr htarget, haccepted⟩
  complete m hm := by
    obtain ⟨hroot, hcount⟩ := h.complete n rfl
    obtain ⟨hpaths, htotal⟩ := hrest.complete m hm
    refine ⟨?_, by omega⟩
    intro x hx
    obtain hx | hx := toMark_cons.mp hx
    · exact hrest.keeps x (hroot x hx)
    · exact hpaths x hx
  failed e he := by
    obtain ⟨x, hx, hmark⟩ | ⟨x, hx, hread⟩ := hrest.failed e he
    · exact .inl ⟨x, toMark_cons.mpr (.inr hx), hmark⟩
    · exact .inr ⟨x, inTree_cons.mpr (.inr hx), hread⟩

theorem Installed.stop {paths marked marked' : List Path} {count : Nat} {e : WatchError}
    (h : Installed fs [root] excludedPaths marked 0 marked' (.error e)) :
    Installed fs (root :: paths) excludedPaths marked count marked' (.error e) where
  keeps := h.keeps
  sound x hx := (h.sound x hx).imp_right fun htarget =>
    ⟨toMark_cons.mpr (.inl htarget.1), htarget.2⟩
  complete _ hn := by cases hn
  failed e' he := by
    obtain ⟨x, hx, hmark⟩ | ⟨x, hx, hread⟩ := h.failed e' he
    · exact .inl ⟨x, toMark_cons.mpr (.inl hx), hmark⟩
    · exact .inr ⟨x, inTree_cons.mpr (.inl hx), hread⟩

theorem Installed.skip (hroot : isExcluded root excludedPaths = true)
    {paths marked marked' : List Path} {count : Nat} {outcome : Except WatchError Nat}
    (h : Installed fs paths excludedPaths marked count marked' outcome) :
    Installed fs (root :: paths) excludedPaths marked count marked' outcome where
  keeps := h.keeps
  sound x hx := (h.sound x hx).imp_right fun htarget =>
    ⟨toMark_cons.mpr (.inr htarget.1), htarget.2⟩
  complete n hn := by
    refine ⟨?_, (h.complete n hn).2⟩
    intro x hx
    obtain hx | hx := toMark_cons.mp hx
    · exact absurd hx (not_toMark_of_excluded hroot)
    · exact (h.complete n hn).1 x hx
  failed e he := by
    obtain ⟨x, hx, hmark⟩ | ⟨x, hx, hread⟩ := h.failed e he
    · exact .inl ⟨x, toMark_cons.mpr (.inr hx), hmark⟩
    · exact .inr ⟨x, inTree_cons.mpr (.inr hx), hread⟩

variable (excludedPaths) in
theorem markPathTrees_installed (hnames : fs.NamesValid) {paths : List Path}
    (hfinite : ∀ root ∈ paths, fs.isDir root = true → {x | Descends fs root x}.Finite)
    (marked : List Path) (count : Nat) :
    ∃ fuel marked' outcome,
      (∀ k, markPathTrees fs excludedPaths (fuel + k) paths marked count =
        some (marked', outcome)) ∧
      Installed fs paths excludedPaths marked count marked' outcome := by
  induction paths generalizing marked count with
  | nil =>
    refine ⟨0, marked, .ok count, fun _ => rfl, fun _ hx => hx, fun _ hx => .inl hx, ?_,
      fun _ he => (by cases he)⟩
    intro n hn
    obtain rfl := Except.ok.inj hn
    refine ⟨?_, rfl⟩
    rintro x (⟨hx, -⟩ | ⟨_, hx, -⟩) <;> cases hx
  | cons root paths ih =>
    have hrest := ih fun other hother => hfinite other (List.mem_cons_of_mem _ hother)
    cases hroot : isExcluded root excludedPaths with
    | true =>
      obtain ⟨fuel, marked', outcome, hrun, hinstalled⟩ := hrest marked count
      refine ⟨fuel, marked', outcome, ?_, hinstalled.skip hroot⟩
      intro k
      rw [markPathTrees, if_pos hroot]
      exact hrun k
    | false =>
      have hnot : ¬ isExcluded root excludedPaths = true := by
        rw [hroot]
        exact Bool.false_ne_true
      obtain ⟨fuel, marked', outcome, htree, hinstalled⟩ :=
        markPathTree_spec hnames hroot (hfinite root List.mem_cons_self) marked
      cases outcome with
      | error e =>
        refine ⟨fuel, marked', .error e, ?_, hinstalled.stop⟩
        intro k
        rw [markPathTrees, if_neg hnot, htree]
      | ok n =>
        obtain ⟨fuel', marked'', outcome, hrun, hpaths⟩ := hrest marked' (count + n)
        refine ⟨fuel + fuel', marked'', outcome, ?_, hinstalled.append hpaths⟩
        intro k
        have htree' := htree (fuel' + k)
        have hrun' := hrun (fuel + k)
        rw [← Nat.add_assoc] at htree'
        rw [Nat.add_left_comm, ← Nat.add_assoc] at hrun'
        rw [markPathTrees, if_neg hnot, htree']
        exact hrun'

end Trees

/-- A file the filter accepts, in a real directory below a directory root, has
its directory marked: exclusion is closed downwards. -/
theorem inTree_of_watched {fs : FileSystem} (hnames : fs.NamesValid) {paths excludedPaths : List Path}
    {root parent : Path} (hroot : root ∈ paths) (hdir : fs.isDir root = true)
    (hparent : Descends fs root parent) {name : Bytes} (hname : Path.IsName name)
    (h : isWatchedPath (parent.join ⟨name⟩) paths excludedPaths = true) :
    InTree fs paths excludedPaths parent := by
  rw [isWatchedPath, Bool.and_eq_true, Bool.not_eq_true'] at h
  have hfile : parent.components <+: (parent.join ⟨name⟩).components := by
    rw [Path.components_join hname]
    exact List.prefix_append _ _
  exact ⟨root, hroot, isExcluded_above ((hparent.below hnames).trans hfile) h.2, hdir, hparent,
    isExcluded_above hfile h.2⟩

/-- On a finite tree marking the watched roots ends. The kernel has accepted every mark
that is listed, each on a root or a real directory to be marked. It fails only where one
of these cannot be marked or read, and otherwise they are exactly what has a mark; then
every file the event filter accepts in a directory reached from a directory root lies in
a marked one. -/
theorem markPathTrees_marks_watched (fs : FileSystem) (hnames : fs.NamesValid)
    (paths excludedPaths : List Path)
    (hfinite : ∀ root ∈ paths, fs.isDir root = true → {x | Descends fs root x}.Finite) :
    ∃ fuel marked outcome,
      (∀ k, markPathTrees fs excludedPaths (fuel + k) paths [] 0 = some (marked, outcome)) ∧
      (∀ x ∈ marked, ToMark fs paths excludedPaths x ∧ 0 ∉ x.bytes ∧
        fs.fanotifyMark x = .ok ()) ∧
      (∀ e, outcome = .error e →
        (∃ x, ToMark fs paths excludedPaths x ∧ Refused fs x) ∨
          ∃ x, InTree fs paths excludedPaths x ∧ Unreadable fs x) ∧
      ∀ n, outcome = .ok n →
        n = marked.length ∧ (∀ x, x ∈ marked ↔ ToMark fs paths excludedPaths x) ∧
        ∀ root ∈ paths, fs.isDir root = true → ∀ parent, Descends fs root parent →
          ∀ name, Path.IsName name →
            isWatchedPath (parent.join ⟨name⟩) paths excludedPaths = true → parent ∈ marked := by
  obtain ⟨fuel, marked, outcome, hrun, hinstalled⟩ :=
    markPathTrees_installed excludedPaths hnames hfinite [] 0
  have hsound : ∀ x ∈ marked, ToMark fs paths excludedPaths x ∧ Accepted fs x := by
    intro x hx
    exact (hinstalled.sound x hx).resolve_left List.not_mem_nil
  refine ⟨fuel, marked, outcome, hrun, hsound, hinstalled.failed, ?_⟩
  intro n hn
  obtain ⟨hcomplete, hcount⟩ := hinstalled.complete n hn
  refine ⟨by simpa using hcount, fun x => ⟨fun hx => (hsound x hx).1, hcomplete x⟩, ?_⟩
  intro root hroot hdir parent hparent name hname hwatched
  exact hcomplete parent (.inr (inTree_of_watched hnames hroot hdir hparent hname hwatched))

def watchedDir : Path := Path.ofString "/w"

def watchedSubdir : Path := watchedDir.join ⟨utf8 "a"⟩

/-- A directory with one real directory, which is empty, and a symlink. -/
def smallTree : FileSystem where
  isDir path := path = watchedDir ∨ path = watchedSubdir
  readDir path :=
    if path = watchedDir then
      .ok [.ok ⟨utf8 "a", .ok .directory⟩, .ok ⟨utf8 "l", .ok .symlink⟩]
    else if path = watchedSubdir then .ok []
    else .error "Not a directory"
  fanotifyMark _ := .ok ()

theorem readDir_smallTree {path : Path} {entries : List (Except String DirEntry)}
    {entry : DirEntry} (hread : smallTree.readDir path = .ok entries)
    (hentry : .ok entry ∈ entries) :
    path = watchedDir ∧
      (entry = ⟨utf8 "a", .ok .directory⟩ ∨ entry = ⟨utf8 "l", .ok .symlink⟩) := by
  dsimp only [smallTree] at hread
  split at hread
  · rename_i hpath
    obtain rfl := Except.ok.inj hread
    simpa [hpath] using hentry
  · split at hread
    · obtain rfl := Except.ok.inj hread
      cases hentry
    · cases hread

theorem namesValid_smallTree : smallTree.NamesValid := by
  intro path entries entry hread hentry
  obtain ⟨-, rfl | rfl⟩ := readDir_smallTree hread hentry
  · exact ⟨by decide, by decide, by decide, by decide⟩
  · exact ⟨by decide, by decide, by decide, by decide⟩

theorem descends_smallTree {x : Path} (hx : Descends smallTree watchedDir x) :
    x = watchedDir ∨ x = watchedSubdir := by
  cases hx with
  | refl => exact .inl rfl
  | tail _ hlast =>
    obtain ⟨entries, entry, hread, hentry, hdir, rfl⟩ := hlast
    obtain ⟨rfl, rfl | rfl⟩ := readDir_smallTree hread hentry
    · exact .inr rfl
    · cases hdir

theorem finite_smallTree : {x | Descends smallTree watchedDir x}.Finite :=
  Set.Finite.subset (Set.toFinite {watchedDir, watchedSubdir}) fun _ => descends_smallTree

theorem toMark_smallTree {x : Path} (h : ToMark smallTree [watchedDir] [] x) :
    x = watchedDir ∨ x = watchedSubdir := by
  obtain ⟨hroot, -⟩ | ⟨root, hroot, -, -, hdescends, -⟩ := h
  · exact .inl (List.mem_singleton.mp hroot)
  · exact descends_smallTree (List.mem_singleton.mp hroot ▸ hdescends)

theorem not_unreadable_smallTree {x : Path} (hx : x = watchedDir ∨ x = watchedSubdir) :
    ¬ Unreadable smallTree x := by
  have hsub : smallTree.readDir watchedSubdir = .ok [] := by rfl
  rintro (⟨error, herror⟩ | ⟨entries, hread, ⟨error, hmem⟩ | ⟨entry, hmem, error, htype⟩⟩)
  · obtain rfl | rfl := hx
    · cases herror
    · cases hsub.symm.trans herror
  · obtain rfl | rfl := hx
    · obtain rfl := Except.ok.inj hread
      simp at hmem
    · obtain rfl := Except.ok.inj (hsub.symm.trans hread)
      cases hmem
  · obtain ⟨-, rfl | rfl⟩ := readDir_smallTree hread hmem <;> cases htype

/-- Both directories are marked. -/
theorem markPathTrees_smallTree :
    ∃ fuel marked, (∀ k, markPathTrees smallTree [] (fuel + k) [watchedDir] [] 0 =
        some (marked, .ok marked.length)) ∧
      ∀ x, x ∈ marked ↔ x = watchedDir ∨ x = watchedSubdir := by
  have hfinite : ∀ root ∈ [watchedDir], smallTree.isDir root = true →
      {x | Descends smallTree root x}.Finite := by
    intro root hroot _
    obtain rfl := List.mem_singleton.mp hroot
    exact finite_smallTree
  obtain ⟨fuel, marked, outcome, hrun, -, hfailed, hdone⟩ :=
    markPathTrees_marks_watched smallTree namesValid_smallTree [watchedDir] [] hfinite
  have hsub : Descends smallTree watchedDir watchedSubdir :=
    .single ⟨_, ⟨utf8 "a", .ok .directory⟩, rfl, List.mem_cons_self, rfl, rfl⟩
  cases outcome with
  | error e =>
    obtain ⟨x, hx, hrefused⟩ | ⟨x, hx, hunreadable⟩ := hfailed e rfl
    · obtain hnul | ⟨error, herror⟩ := hrefused
      · obtain rfl | rfl := toMark_smallTree hx <;> exact absurd hnul (by decide)
      · cases herror
    · exact absurd hunreadable (not_unreadable_smallTree (toMark_smallTree (.inr hx)))
  | ok n =>
    obtain ⟨hcount, hmarked, -⟩ := hdone n rfl
    refine ⟨fuel, marked, fun k => hcount ▸ hrun k, fun x => ?_⟩
    rw [hmarked]
    refine ⟨toMark_smallTree, ?_⟩
    rintro (rfl | rfl)
    · exact .inl ⟨List.mem_cons_self, rfl⟩
    · exact .inr ⟨watchedDir, List.mem_cons_self, rfl, by decide, hsub, rfl⟩

end ConfigGuard
