import ConfigGuard.Library.Text

/-!
# The fields of `/proc/<pid>/stat`

The kernel writes the command name of a process between parentheses, without
escaping it. `process.rs` reads the fields behind the last closing one.
-/

namespace ConfigGuard
open Text

inductive StatError where
  | missingCommandName
  | missingStartTime
  | missingParentPid
  | startTimeNotInteger (error : ParseIntError)
  | parentPidNotInteger (error : ParseIntError)
  deriving DecidableEq, Repr

/-- The closing parenthesis of the command name and the space after it. -/
def commandEnd : List Char := [')', ' ']

def parseStatFieldsAfterCommand (stat : String) : Except StatError (List (List Char)) :=
  match rfind commandEnd stat.toList with
  | none => .error .missingCommandName
  | some i => .ok (splitWhitespace (stat.toList.drop (i + 2)))

def startTimeIndex : Nat := 19

def parseStartTimeTicks (stat : String) : Except StatError Int :=
  match parseStatFieldsAfterCommand stat with
  | .error error => .error error
  | .ok fields =>
    match fields[startTimeIndex]? with
    | none => .error .missingStartTime
    | some field => (parseInt .u64 field).mapError .startTimeNotInteger

def parentPidIndex : Nat := 1

def parseParentPid (stat : String) : Except StatError Int :=
  match parseStatFieldsAfterCommand stat with
  | .error error => .error error
  | .ok fields =>
    match fields[parentPidIndex]? with
    | none => .error .missingParentPid
    | some field => (parseInt .i32 field).mapError .parentPidNotInteger

/-- The state and the fields after the command name. -/
def statTail (state : Char) (fields : List Int) : List Char :=
  [state] ++ (fields.map decimal).flatMap (' ' :: ·)

/-- `pid (comm) state f1 f2 …`, with or without the end of the line. -/
def statLine (pid : Int) (comm : String) (state : Char) (fields : List Int) (newline : Bool) :
    String :=
  String.ofList ((decimal pid ++ [' ', '('] ++ comm.toList) ++
    (commandEnd ++ (statTail state fields ++ if newline then ['\n'] else [])))

structure IsStateLetter (state : Char) : Prop where
  notParen : state ≠ ')'
  dark : isWhiteSpace state = false

theorem isStateLetter_of_isAlpha {c : Char} (h : c.isAlpha = true) : IsStateLetter c := by
  change (decide ('A'.val ≤ c.val ∧ c.val ≤ 'Z'.val) ||
    (decide ('a'.val ≤ c.val) && decide (c.val ≤ 'z'.val))) = true at h
  simp only [Bool.or_eq_true, Bool.and_eq_true, decide_eq_true_eq] at h
  have hrange : 65 ≤ c.toNat ∧ c.toNat ≤ 122 := by
    rcases h with h | h
    · have hlow : 65 ≤ c.toNat := UInt32.le_iff_toNat_le.mp h.1
      have hhigh : c.toNat ≤ 90 := UInt32.le_iff_toNat_le.mp h.2
      omega
    · have hlow : 97 ≤ c.toNat := UInt32.le_iff_toNat_le.mp h.1
      have hhigh : c.toNat ≤ 122 := UInt32.le_iff_toNat_le.mp h.2
      omega
  constructor
  · rintro rfl
    exact absurd hrange.1 (by decide)
  · simp only [isWhiteSpace, Bool.or_eq_false_iff, Bool.and_eq_false_iff, decide_eq_false_iff_not,
      beq_eq_false_iff_ne]
    omega

section StatLine

variable (pid : Int) (comm : String) {state : Char} (hstate : IsStateLetter state)
  (fields : List Int) (newline : Bool)

include hstate

theorem splitWhitespace_statTail :
    splitWhitespace (statTail state fields ++ if newline then ['\n'] else []) =
      [state] :: fields.map decimal := by
  have hstateWord : IsWord [state] :=
    ⟨List.cons_ne_nil _ _, fun c hc => List.mem_singleton.mp hc ▸ hstate.dark⟩
  have hfields : ∀ w ∈ fields.map decimal, IsWord w := by
    intro w hw
    obtain ⟨field, -, rfl⟩ := List.mem_map.mp hw
    exact decimal_isWord field
  have htail : splitWhitespace (statTail state fields) = [state] :: fields.map decimal :=
    splitWhitespace_spaced hstateWord hfields
  cases newline with
  | false => rw [if_neg (by decide), List.append_nil, htail]
  | true =>
    rw [if_pos rfl, splitWhitespace_append _ (by decide), htail]
    exact List.append_nil _

/-- Only the command name can hold a parenthesis. -/
theorem paren_notMem_statTail :
    ')' ∉ [' '] ++ (statTail state fields ++ if newline then ['\n'] else []) := by
  simp only [statTail, List.mem_append, List.mem_cons, List.mem_flatMap, List.mem_map, not_or]
  refine ⟨⟨by decide, List.not_mem_nil⟩, ⟨⟨hstate.notParen.symm, List.not_mem_nil⟩, ?_⟩, ?_⟩
  · rintro ⟨_, ⟨field, -, rfl⟩, hfield⟩
    rcases hfield with hspace | hfield
    · cases hspace
    · exact notMem_decimal rfl (by decide) field hfield
  · cases newline <;> decide

/-- Whatever the command name is, the fields read are those written behind it. -/
theorem parseStatFieldsAfterCommand_statLine :
    parseStatFieldsAfterCommand (statLine pid comm state fields newline) =
      .ok ([state] :: fields.map decimal) := by
  have hend := rfind_last (decimal pid ++ [' ', '('] ++ comm.toList)
    (paren_notMem_statTail hstate fields newline)
  rw [parseStatFieldsAfterCommand, statLine, String.toList_ofList,
    show commandEnd = ')' :: [' '] from rfl, hend]
  dsimp only
  rw [List.drop_length_add_append, ← splitWhitespace_statTail hstate fields newline]
  rfl

theorem parseParentPid_statLine {parent : Int} (hfirst : fields.head? = some parent)
    (hfits : IntRange.i32.Fits parent) :
    parseParentPid (statLine pid comm state fields newline) = .ok parent := by
  obtain ⟨rest, rfl⟩ := List.head?_eq_some_iff.mp hfirst
  rw [parseParentPid, parseStatFieldsAfterCommand_statLine pid comm hstate]
  have hfield : ([state] :: (parent :: rest).map decimal)[parentPidIndex]? =
      some (decimal parent) := rfl
  simp only [hfield, parseInt_decimal hfits]
  rfl

theorem parseStartTimeTicks_statLine {startTime : Int} (hfield : fields[18]? = some startTime)
    (hfits : IntRange.u64.Fits startTime) :
    parseStartTimeTicks (statLine pid comm state fields newline) = .ok startTime := by
  rw [parseStartTimeTicks, parseStatFieldsAfterCommand_statLine pid comm hstate]
  have hfield : ([state] :: fields.map decimal)[startTimeIndex]? = some (decimal startTime) := by
    rw [startTimeIndex, List.getElem?_cons_succ, List.getElem?_map, hfield, Option.map_some]
  simp only [hfield, parseInt_decimal hfits]
  rfl

/-- No command name makes the parser read another parent or another start time
than the kernel wrote. -/
theorem stat_not_spoofed (hlength : 19 ≤ fields.length) :
    (-2 ^ 31 ≤ fields[0] → fields[0] < 2 ^ 31 →
      parseParentPid (statLine pid comm state fields newline) = .ok fields[0]) ∧
    (0 ≤ fields[18] → fields[18] < 2 ^ 64 →
      parseStartTimeTicks (statLine pid comm state fields newline) = .ok fields[18]) := by
  constructor
  · intro hlow hhigh
    refine parseParentPid_statLine pid comm hstate fields newline ?_ ?_
    · rw [List.head?_eq_getElem?]
      exact List.getElem?_eq_getElem _
    · unfold IntRange.Fits IntRange.i32
      split
      · exact ⟨_, rfl, by omega⟩
      · dsimp only
        omega
  · intro hlow hhigh
    refine parseStartTimeTicks_statLine pid comm hstate fields newline ?_ ?_
    · exact List.getElem?_eq_getElem _
    · unfold IntRange.Fits IntRange.u64
      split
      · omega
      · dsimp only
        omega

end StatLine

/-- A command name that is most of a line of its own. -/
def fakeComm : String := "x) S 1 1 1 0 ("

def statFields : List Int := 4321 :: List.replicate 17 0 ++ [123456789, -1]

theorem stat_not_spoofed_fakeComm :
    parseParentPid (statLine 42 fakeComm 'S' statFields true) = .ok 4321 ∧
      parseStartTimeTicks (statLine 42 fakeComm 'S' statFields true) = .ok 123456789 :=
  have h := stat_not_spoofed 42 fakeComm (isStateLetter_of_isAlpha (by decide)) statFields true
    (by decide)
  ⟨h.1 (by decide) (by decide), h.2 (by decide) (by decide)⟩

end ConfigGuard
