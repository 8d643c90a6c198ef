import ConfigGuard.Policy.Decide

/-!
# Process identities and the subjects made from them

`ProcessIdentity` of `process.rs`, and how far the decision on a process
depends on its command line.
-/

namespace ConfigGuard
open OsPath Selection

structure ProcessAncestor where
  pid : Int
  executable : Path
  startTimeTicks : Option Nat
  deriving DecidableEq, Repr

structure ProcessIdentity where
  pid : Int
  executable : Option Path
  command : List String
  cwd : Option Path
  startTimeTicks : Option Nat
  ancestors : List Path
  ancestorProcesses : List ProcessAncestor
  deriving DecidableEq, Repr

namespace ProcessIdentity

/-- Paths that are not UTF-8 are shown lossily; `display` stands for that rendering. -/
def fromExecutable (display : Path → String) (pid : Int) (executable : Path) : ProcessIdentity where
  pid := pid
  executable := some executable
  command := [display executable]
  cwd := none
  startTimeTicks := none
  ancestors := []
  ancestorProcesses := []

def unknown (pid : Int) : ProcessIdentity where
  pid := pid
  executable := none
  command := []
  cwd := none
  startTimeTicks := none
  ancestors := []
  ancestorProcesses := []

def subject (process : ProcessIdentity) : ProcessSubject where
  executable :=
    (process.executable.or (process.command.head?.map Path.ofString)).getD (Path.ofString "unknown")
  command := process.command
  ancestors := process.ancestors

end ProcessIdentity

/-- What the decision reads of a subject besides its name. -/
def SameImage (s t : ProcessSubject) : Prop :=
  s.executable = t.executable ∧ s.ancestors = t.ancestors

theorem subjectMatchesWithin_congr {s t : ProcessSubject} (h : SameImage s t) (n : Nat)
    (allowed : Bytes) (name : String) :
    subjectMatchesWithin n allowed s name = subjectMatchesWithin n allowed t name := by
  obtain ⟨he, ha⟩ := h
  induction n generalizing allowed with
  | zero => rfl
  | succ n ih =>
    simp only [subjectMatchesWithin, subjectMatchesExecutableWithAncestorPrefix, he, ha, ih]

theorem subjectsAllow_congr {s t : ProcessSubject} (h : SameImage s t) (allowed : List String)
    (name : String) : subjectsAllow allowed s name = subjectsAllow allowed t name := by
  simp only [subjectsAllow, subjectMatches, subjectMatchesWithin_congr h]

theorem allows_congr {s t : ProcessSubject} (h : SameImage s t) (owned : OwnedPath)
    (name : String) : owned.allows s name = owned.allows t name := by
  simp only [OwnedPath.allows, subjectsAllow_congr h]

/-- Two subjects with one executable, one chain of ancestors and one name are
treated alike. -/
theorem decide_congr {s t : ProcessSubject} (h : SameImage s t)
    (hname : subjectName s = subjectName t) (config : PolicyConfig) (target : Path)
    (access : AccessKind) :
    Policy.decide config s target access = Policy.decide config t target access := by
  have howner : (fun owned : OwnedPath => owned.allows s (subjectName s)) =
      fun owned => owned.allows t (subjectName t) := by
    funext owned
    rw [allows_congr h, hname]
  have hshared : Policy.sharedPathAllows config s (subjectName s) target access =
      Policy.sharedPathAllows config t (subjectName t) target access := by
    simp only [Policy.sharedPathAllows, subjectsAllow_congr h, hname]
  have hsensitive : Policy.sensitiveDevToolAccess config s (subjectName s) target =
      Policy.sensitiveDevToolAccess config t (subjectName t) target := by
    simp only [Policy.sensitiveDevToolAccess, subjectsAllow_congr h, hname]
  simp only [Policy.decide, howner, hshared, hsensitive]

def HasUtf8Name (executable : Path) : Prop := ∃ name, executable.fileName.bind toStr = some name

theorem subjectName_of_utf8 {subject : ProcessSubject} {name : String}
    (h : subject.executable.fileName.bind toStr = some name) : subjectName subject = name := by
  rw [subjectName, h]
  rfl

/-- With no UTF-8 file name the first command word is the name. -/
theorem subjectName_of_not_utf8 {subject : ProcessSubject} {word : String} {words : List String}
    (h : ¬ HasUtf8Name subject.executable) (hc : subject.command = word :: words) :
    subjectName subject = word := by
  have hnone : subject.executable.fileName.bind toStr = none := by
    rw [Option.eq_none_iff_forall_ne_some]
    intro name hname
    exact h ⟨name, hname⟩
  rw [subjectName, hnone, hc]
  rfl

/-- One owned path, with nothing else configured. -/
def ownedOnly (path : Path) (owner : String) : PolicyConfig where
  ownedPaths := [{ path := path, owner := owner }]

theorem ownerFor_ownedOnly (path : Path) (owner : String) :
    Policy.ownerFor (ownedOnly path owner) path = some { path := path, owner := owner } := by
  simp [Policy.ownerFor, ownedOnly, Path.startsWith_refl, maxByKey]

theorem decide_ownedOnly {path : Path} (hpath : path.fileName ≠ some (utf8 ".gitignore"))
    (owner : String) (subject : ProcessSubject) (access : AccessKind) :
    Policy.decide (ownedOnly path owner) subject path access = .allow ↔
      owner = subjectName subject := by
  have hown := ownerFor_ownedOnly path owner
  constructor
  · intro h
    by_contra hne
    have hne' : (owner == subjectName subject) = false := beq_eq_false_iff_ne.mpr hne
    have hsensitive : Policy.sensitiveDevToolAccess (ownedOnly path owner) subject
        (subjectName subject) path = none := by
      unfold Policy.sensitiveDevToolAccess
      split <;> rfl
    have hshared : Policy.sharedPathAllows (ownedOnly path owner) subject
        (subjectName subject) path access = false := rfl
    rw [Policy.decide, if_neg hpath] at h
    simp only [hown, hshared, hsensitive, Option.any_some, OwnedPath.allows, hne', subjectsAllow,
      List.any_nil, Bool.or_false, Bool.false_eq_true, if_false] at h
    cases access <;> cases h
  · rintro rfl
    rw [Policy.decide, if_neg hpath]
    simp [hown, OwnedPath.allows]

/-- A path of the form `/x`, which is not a `.gitignore`. -/
def plainPath : Path := Path.ofString "/x"

theorem plainPath_fileName : plainPath.fileName ≠ some (utf8 ".gitignore") := by decide

/-- The command line is irrelevant to every decision exactly for the
executables whose file name is UTF-8; for any other executable the process
names itself by its first command word. -/
theorem decide_ignores_command_iff (executable : Path) :
    (∀ (config : PolicyConfig) (target : Path) (access : AccessKind) (p q : ProcessIdentity),
      p.executable = some executable → q.executable = some executable →
      p.ancestors = q.ancestors →
      Policy.decide config p.subject target access =
        Policy.decide config q.subject target access) ↔
    HasUtf8Name executable := by
  constructor
  · intro h
    by_contra hname
    let named (word : String) : ProcessIdentity :=
      { ProcessIdentity.unknown 1 with executable := some executable, command := [word] }
    have hsubject : ∀ word, subjectName (named word).subject = word := by
      intro word
      have hcommand : (named word).subject.command = [word] := rfl
      exact subjectName_of_not_utf8 hname hcommand
    have heq := h (ownedOnly plainPath "a") plainPath .read (named "a") (named "b") rfl rfl rfl
    have hallow : Policy.decide (ownedOnly plainPath "a") (named "a").subject plainPath .read =
        .allow := (decide_ownedOnly plainPath_fileName _ _ _).mpr (hsubject "a").symm
    rw [heq, decide_ownedOnly plainPath_fileName, hsubject] at hallow
    exact absurd hallow (by decide)
  · rintro ⟨name, hname⟩ config target access p q hp hq hanc
    have hpe : p.subject.executable = executable := by simp [ProcessIdentity.subject, hp]
    have hqe : q.subject.executable = executable := by simp [ProcessIdentity.subject, hq]
    refine decide_congr ⟨hpe.trans hqe.symm, hanc⟩ ?_ config target access
    rw [subjectName_of_utf8 (hpe ▸ hname), subjectName_of_utf8 (hqe ▸ hname)]

/-- `/tmp/` followed by a byte that is not UTF-8. -/
def unreadableName : Path := ⟨utf8 "/tmp/" ++ [255]⟩

def firefoxConfig : PolicyConfig := ownedOnly (Path.ofString "/home/u/.mozilla") "firefox"

/-- A process run from such a file calls itself `firefox` and reads firefox's
files; under its own name it is asked about. -/
theorem command_decides_unreadableName :
    ¬ ∀ (config : PolicyConfig) (target : Path) (access : AccessKind) (executable : Path)
      (p q : ProcessIdentity), p.executable = some executable → q.executable = some executable →
      p.ancestors = q.ancestors →
      Policy.decide config p.subject target access =
        Policy.decide config q.subject target access := by
  intro h
  have heq := h firefoxConfig (Path.ofString "/home/u/.mozilla/cookies") .read unreadableName
    { ProcessIdentity.unknown 42 with executable := some unreadableName, command := ["firefox"] }
    { ProcessIdentity.unknown 42 with executable := some unreadableName, command := ["helper"] }
    rfl rfl rfl
  exact absurd heq (by decide)

end ConfigGuard
