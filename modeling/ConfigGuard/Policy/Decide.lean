import ConfigGuard.Policy.Config
import ConfigGuard.Library.Selection

/-!
# Subject matching and the policy decision

`Policy::decide` and everything it calls. Rule strings are matched on their
UTF-8 bytes; every separator of the rule language is an ASCII byte.
-/

namespace ConfigGuard
open OsPath Selection

/-- The executable's file name, else the first command word, else `unknown`. -/
def subjectName (subject : ProcessSubject) : String :=
  (((subject.executable.fileName.bind toStr).or subject.command.head?).getD "unknown")

def executableHasName (executable : Path) (name : String) : Bool :=
  executable.fileName.bind toStr == some name

def ancestorMatches (rule : Bytes) (ancestor : Path) : Bool :=
  match (utf8 "exe-prefix:").isPrefixOf? rule with
  | some pre => ancestor.startsWith ⟨pre⟩
  | none =>
    match (utf8 "exe:").isPrefixOf? rule with
    | some path => ancestor.same ⟨path⟩
    | none => (ancestor.fileName.bind toStr).map utf8 == some rule

def colon : UInt8 := 58

def bar : UInt8 := 124

def subjectMatchesExecutableWithAncestorPrefix (rule : Bytes) (subject : ProcessSubject) : Bool :=
  match splitOnce colon rule with
  | none => false
  | some (executable, ancestorPrefix) =>
    subject.executable.same ⟨executable⟩ &&
      subject.ancestors.any fun ancestor => ancestor.startsWith ⟨ancestorPrefix⟩

/-- `subject_matches` and `subject_matches_with_ancestor`, which call each
other on ever shorter rules: the fuel bounds the length of the rule. -/
def subjectMatchesWithin : Nat → Bytes → ProcessSubject → String → Bool
  | 0, _, _, _ => false
  | fuel + 1, allowed, subject, name =>
    if allowed = utf8 "*" ∨ allowed = utf8 name then true
    else match (utf8 "exe-prefix:").isPrefixOf? allowed with
    | some pre => subject.executable.startsWith ⟨pre⟩
    | none =>
    match (utf8 "exe:").isPrefixOf? allowed with
    | some path => subject.executable.same ⟨path⟩
    | none =>
    match (utf8 "exe-with-ancestor-prefix:").isPrefixOf? allowed with
    | some rule => subjectMatchesExecutableWithAncestorPrefix rule subject
    | none =>
    match (utf8 "with-ancestor:").isPrefixOf? allowed with
    | some rule =>
      match splitOnce bar rule with
      | none => false
      | some (subjectRule, ancestorRule) =>
        subjectMatchesWithin fuel subjectRule subject name &&
          subject.ancestors.any (ancestorMatches ancestorRule)
    | none => false

def subjectMatches (allowed : Bytes) (subject : ProcessSubject) (name : String) : Bool :=
  subjectMatchesWithin (allowed.length + 1) allowed subject name

theorem isPrefixOf?_length {pre rule rest : Bytes} (h : pre.isPrefixOf? rule = some rest) :
    rule.length = pre.length + rest.length := by
  rw [← List.isPrefixOf?_eq_some_iff_append_eq.mp h, List.length_append]

theorem splitOnce_length {c : UInt8} {rule l r : Bytes} (h : splitOnce c rule = some (l, r)) :
    l.length < rule.length := by
  have he := congrArg List.length (splitOnce_spec h).1
  rw [List.length_append, List.length_cons] at he
  omega

/-- Every recursive call is on a shorter rule, so the fuel never runs out. -/
theorem subjectMatchesWithin_stable {n m : Nat} {allowed : Bytes} (hn : allowed.length < n)
    (hm : allowed.length < m) (subject : ProcessSubject) (name : String) :
    subjectMatchesWithin n allowed subject name = subjectMatchesWithin m allowed subject name := by
  induction n generalizing m allowed with
  | zero => omega
  | succ n ih =>
    obtain ⟨m, rfl⟩ : ∃ k, m = k + 1 := ⟨m - 1, by omega⟩
    simp only [subjectMatchesWithin]
    -- only the `with-ancestor:` branch calls itself
    congr 1
    split <;> try rfl
    split <;> try rfl
    split <;> try rfl
    split <;> try rfl
    rename_i rule hrule
    split <;> try rfl
    rename_i l r hsplit
    have hpre := isPrefixOf?_length hrule
    have hl := splitOnce_length hsplit
    rw [ih (m := m) (by omega) (by omega)]

/-- A rule with an ancestor asks whether the rule before the bar matches. -/
theorem subjectMatches_withAncestor (rule : Bytes) (subject : ProcessSubject) (name : String) :
    subjectMatches (utf8 "with-ancestor:" ++ rule) subject name =
      (decide (utf8 "with-ancestor:" ++ rule = utf8 name) ||
        (splitOnce bar rule).any fun parts =>
          subjectMatches parts.1 subject name &&
            subject.ancestors.any (ancestorMatches parts.2)) := by
  by_cases hname : utf8 "with-ancestor:" ++ rule = utf8 name
  · rw [subjectMatches, subjectMatchesWithin, if_pos (.inr hname), decide_eq_true hname,
      Bool.true_or]
  · have hliteral : ¬ (utf8 "with-ancestor:" ++ rule = utf8 "*" ∨
        utf8 "with-ancestor:" ++ rule = utf8 name) := by
      rintro (hstar | heq)
      · cases hstar
      · exact hname heq
    have hplain : (utf8 "exe-prefix:").isPrefixOf? (utf8 "with-ancestor:" ++ rule) = none := rfl
    have hexe : (utf8 "exe:").isPrefixOf? (utf8 "with-ancestor:" ++ rule) = none := rfl
    have hwith : (utf8 "exe-with-ancestor-prefix:").isPrefixOf?
        (utf8 "with-ancestor:" ++ rule) = none := rfl
    have hrule : (utf8 "with-ancestor:").isPrefixOf? (utf8 "with-ancestor:" ++ rule) =
        some rule := rfl
    rw [subjectMatches, subjectMatchesWithin, if_neg hliteral, hplain, hexe, hwith, hrule,
      decide_eq_false hname, Bool.false_or]
    dsimp only
    cases hsplit : splitOnce bar rule with
    | none => rfl
    | some parts =>
      have hlonger := isPrefixOf?_length hrule
      have hshorter := splitOnce_length hsplit
      dsimp only
      rw [Option.any_some, subjectMatches,
        subjectMatchesWithin_stable (by omega) (Nat.lt_succ_self parts.1.length)]

def subjectsAllow (allowedSubjects : List String) (subject : ProcessSubject) (name : String) :
    Bool :=
  allowedSubjects.any fun allowed => subjectMatches (utf8 allowed) subject name

def OwnedPath.allows (owned : OwnedPath) (subject : ProcessSubject) (name : String) : Bool :=
  owned.owner == name || subjectsAllow owned.allowedSubjects subject name

def sharedPathMatches (shared : SharedPath) (target : Path) : Bool :=
  if shared.pathPrefix then shared.path.bytes.isPrefixOf target.bytes
  else target.startsWith shared.path

namespace Policy

def defaultDecision (config : PolicyConfig) : Decision := if config.failOpen then .allow else .deny

/-- The governing rule: the longest path, in bytes, among the owned paths the
target lies under. -/
def ownerFor (config : PolicyConfig) (target : Path) : Option OwnedPath :=
  maxByKey (fun owned => owned.path.bytes.length)
    (config.ownedPaths.filter fun owned => target.startsWith owned.path)

/-- The governing rule is one of the rules over the target, none of them longer. -/
theorem ownerFor_eq_some {config : PolicyConfig} {target : Path} {owned : OwnedPath}
    (h : ownerFor config target = some owned) :
    owned ∈ config.ownedPaths ∧ target.startsWith owned.path = true ∧
      ∀ other ∈ config.ownedPaths, target.startsWith other.path = true →
        other.path.bytes.length ≤ owned.path.bytes.length := by
  have hmem := maxByKey_mem _ h
  rw [List.mem_filter] at hmem
  refine ⟨hmem.1, hmem.2, ?_⟩
  intro other hother hover
  exact key_le_maxByKey (fun owned : OwnedPath => owned.path.bytes.length) h
    (List.mem_filter.mpr ⟨hother, hover⟩)

def sharedPathAllows (config : PolicyConfig) (subject : ProcessSubject) (name : String)
    (target : Path) (access : AccessKind) : Bool :=
  config.sharedPaths.any fun shared =>
    sharedPathMatches shared target && shared.access.contains access &&
      subjectsAllow shared.allowedSubjects subject name

def sensitiveDevToolAccess (config : PolicyConfig) (subject : ProcessSubject) (name : String)
    (target : Path) : Option PathRule :=
  if subjectsAllow config.devTools subject name then
    maxByKey (fun rule => rule.path.bytes.length)
      (config.sensitivePaths.filter fun rule => target.startsWith rule.path)
  else none

def prompt (config : PolicyConfig) (reason : DecisionReason) (scope : Path) : Decision :=
  .prompt reason (defaultDecision config) scope

def promptForSensitiveAccess (config : PolicyConfig) (access : AccessKind) (target : Path) :
    Decision :=
  match access with
  | .read => prompt config .sensitiveReadByDevTool target
  | .write | .destructiveWrite => prompt config .sensitiveWrite target

def promptForCrossOwnerAccess (config : PolicyConfig) (access : AccessKind) (scope : Path) :
    Decision :=
  match access with
  | .read => prompt config .crossOwnerRead scope
  | .write | .destructiveWrite => prompt config .crossOwnerWrite scope

def decide (config : PolicyConfig) (subject : ProcessSubject) (target : Path)
    (access : AccessKind) : Decision :=
  if target.fileName = some (utf8 ".gitignore") then .allow
  else
    let name := subjectName subject
    let owner := ownerFor config target
    if owner.any (·.allows subject name) then .allow
    else if owner.any (·.denyNonOwner) then .deny
    else if sharedPathAllows config subject name target access then .allow
    else match sensitiveDevToolAccess config subject name target with
      | some rule => promptForSensitiveAccess config access rule.path
      | none =>
        match owner with
        | some owner => promptForCrossOwnerAccess config access owner.path
        | none => .allow

def ownerMatchesAncestor (owned : OwnedPath) (ancestor : Path) : Bool :=
  executableHasName ancestor owned.owner

/-- The first ancestor some owned path names as its owner, given by that name. -/
def authorizationOwnerSubject (config : PolicyConfig) (subject : ProcessSubject) :
    Option String :=
  subject.ancestors.findSome? fun ancestor =>
    (config.ownedPaths.find? fun owned => ownerMatchesAncestor owned ancestor).map (·.owner)

end Policy

end ConfigGuard
