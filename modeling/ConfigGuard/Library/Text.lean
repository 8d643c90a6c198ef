import Mathlib.Data.List.Basic
import Mathlib.Algebra.Group.Int.Defs
import Mathlib.Algebra.Group.Nat.Defs

/-!
# Text as lists of characters

The last occurrence of a pattern, the words between white space, and decimal
numbers of bounded size.
-/

namespace Text

/-- The position of the last occurrence. -/
def rfind (pat : List Char) : List Char → Option Nat
  | [] => if pat = [] then some 0 else none
  | c :: cs =>
    match rfind pat cs with
    | some i => some (i + 1)
    | none => if pat.isPrefixOf (c :: cs) then some 0 else none

theorem rfind_append {pat before after : List Char} {i : Nat} (h : rfind pat after = some i) :
    rfind pat (before ++ after) = some (before.length + i) := by
  induction before with
  | nil => rw [List.nil_append, h, List.length_nil, Nat.zero_add]
  | cons c cs ih =>
    rw [List.cons_append, rfind, ih, List.length_cons]
    simp only [Option.some.injEq]
    omega

/-- A pattern does not occur where its first character does not. -/
theorem rfind_eq_none {c : Char} {pat text : List Char} (h : c ∉ text) :
    rfind (c :: pat) text = none := by
  induction text with
  | nil => rfl
  | cons d ds ih =>
    rw [List.mem_cons, not_or] at h
    rw [rfind, ih h.2]
    have hne : (c == d) = false := beq_eq_false_iff_ne.mpr h.1
    simp [List.isPrefixOf, hne]

/-- Where the rest has no more of its first character, the occurrence is the last. -/
theorem rfind_last (before : List Char) {c : Char} {pat after : List Char}
    (h : c ∉ pat ++ after) :
    rfind (c :: pat) (before ++ (c :: pat ++ after)) = some before.length := by
  have hhere : rfind (c :: pat) (c :: pat ++ after) = some 0 := by
    rw [List.cons_append, rfind, rfind_eq_none h]
    simp [List.isPrefixOf, List.isPrefixOf_iff_prefix]
  rw [rfind_append hhere, Nat.add_zero]

/-- A text is split in one way at the last occurrence of a character. -/
theorem append_cons_inj {c : Char} {a b d e : List Char} (hd : c ∉ d) (he : c ∉ e)
    (h : a ++ c :: d = b ++ c :: e) : a = b ∧ d = e := by
  have hlast : rfind [c] (a ++ c :: d) = some a.length := rfind_last a hd
  have hlast' : rfind [c] (b ++ c :: e) = some b.length := rfind_last b he
  rw [h] at hlast
  have hlength : b.length = a.length := Option.some.inj (hlast'.symm.trans hlast)
  obtain ⟨hab, hde⟩ := List.append_inj h hlength.symm
  exact ⟨hab, (List.cons.inj hde).2⟩

/-- The characters with the Unicode property White_Space. -/
def isWhiteSpace (c : Char) : Bool :=
  let n := c.toNat
  (0x09 ≤ n && n ≤ 0x0D) || n == 0x20 || n == 0x85 || n == 0xA0 || n == 0x1680 ||
    (0x2000 ≤ n && n ≤ 0x200A) || n == 0x2028 || n == 0x2029 || n == 0x202F || n == 0x205F ||
    n == 0x3000

def splitWhitespace (text : List Char) : List (List Char) :=
  (text.splitOnP isWhiteSpace).filter (!·.isEmpty)

structure IsWord (word : List Char) : Prop where
  nonempty : word ≠ []
  dark : ∀ c ∈ word, isWhiteSpace c = false

theorem splitWhitespace_word {word : List Char} (h : IsWord word) :
    splitWhitespace word = [word] := by
  rw [splitWhitespace, List.splitOnP_eq_singleton h.dark]
  simp [h.nonempty]

theorem splitWhitespace_append (before : List Char) {c : Char} (hc : isWhiteSpace c = true)
    (after : List Char) :
    splitWhitespace (before ++ c :: after) = splitWhitespace before ++ splitWhitespace after := by
  rw [splitWhitespace, List.splitOnP_append_cons _ _ hc, List.filter_append, splitWhitespace,
    splitWhitespace]

/-- Words with a space before each but the first. -/
theorem splitWhitespace_spaced {word : List Char} (h : IsWord word) {words : List (List Char)}
    (hwords : ∀ w ∈ words, IsWord w) :
    splitWhitespace (word ++ words.flatMap (' ' :: ·)) = word :: words := by
  induction words generalizing word with
  | nil => rw [List.flatMap_nil, List.append_nil, splitWhitespace_word h]
  | cons next words ih =>
    rw [List.flatMap_cons, List.cons_append, splitWhitespace_append _ rfl, splitWhitespace_word h,
      ih (hwords next List.mem_cons_self) fun w hw => hwords w (List.mem_cons_of_mem _ hw),
      List.singleton_append]

def decimal (n : Int) : List Char :=
  if n < 0 then '-' :: Nat.toDigits 10 n.natAbs else Nat.toDigits 10 n.natAbs

inductive ParseIntError where
  | empty
  | invalidDigit
  | posOverflow
  | negOverflow
  deriving DecidableEq, Repr

/-- Adds the digits to the magnitude read so far, which must not pass the limit. -/
def accumulate (limit : Nat) (overflow : ParseIntError) :
    Nat → List Char → Except ParseIntError Nat
  | acc, [] => .ok acc
  | acc, c :: cs =>
    if c.isDigit then
      let next := 10 * acc + (c.toNat - '0'.toNat)
      if next ≤ limit then accumulate limit overflow next cs else .error overflow
    else .error .invalidDigit

/-- The largest magnitude of a positive number of the type and, when the type
is signed, of a negative one. -/
structure IntRange where
  pos : Nat
  neg : Option Nat

def IntRange.i32 : IntRange := ⟨2 ^ 31 - 1, some (2 ^ 31)⟩

def IntRange.u64 : IntRange := ⟨2 ^ 64 - 1, none⟩

def IntRange.Fits (range : IntRange) (n : Int) : Prop :=
  if n < 0 then ∃ limit, range.neg = some limit ∧ n.natAbs ≤ limit else n.natAbs ≤ range.pos

/-- `str::parse` for an integer type of this range. -/
def parseInt (range : IntRange) : List Char → Except ParseIntError Int
  | [] => .error .empty
  | c :: cs =>
    let positive digits := (accumulate range.pos .posOverflow 0 digits).map fun n : Nat => (n : Int)
    if cs = [] ∧ (c = '+' ∨ c = '-') then .error .invalidDigit
    else if c = '+' then positive cs
    else
      match range.neg with
      | some limit =>
        if c = '-' then (accumulate limit .negOverflow 0 cs).map fun n : Nat => -(n : Int)
        else positive (c :: cs)
      | none => positive (c :: cs)

theorem le_ofDigitChars (cs : List Char) (acc : Nat) : acc ≤ Nat.ofDigitChars 10 cs acc := by
  induction cs generalizing acc with
  | nil => exact Nat.le_of_eq Nat.ofDigitChars_nil.symm
  | cons c cs ih =>
    rw [Nat.ofDigitChars_cons]
    have h := ih (10 * acc + (c.toNat - '0'.toNat))
    omega

theorem accumulate_digits {limit : Nat} {overflow : ParseIntError} {cs : List Char} {acc : Nat}
    (hdigits : ∀ c ∈ cs, c.isDigit = true) (hle : Nat.ofDigitChars 10 cs acc ≤ limit) :
    accumulate limit overflow acc cs = .ok (Nat.ofDigitChars 10 cs acc) := by
  induction cs generalizing acc with
  | nil => rw [accumulate, Nat.ofDigitChars_nil]
  | cons c cs ih =>
    rw [Nat.ofDigitChars_cons] at hle ⊢
    have hnext := Nat.le_trans (le_ofDigitChars cs (10 * acc + (c.toNat - '0'.toNat))) hle
    rw [accumulate, if_pos (hdigits c List.mem_cons_self)]
    simp only [if_pos hnext]
    exact ih (fun d hd => hdigits d (List.mem_cons_of_mem _ hd)) hle

theorem isDigit_toDigits {n : Nat} {c : Char} (h : c ∈ Nat.toDigits 10 n) : c.isDigit = true :=
  Nat.isDigit_of_mem_toDigits (by omega) (by omega) h

theorem toDigits_injective : Function.Injective (Nat.toDigits 10) := by
  intro m n h
  rw [← Nat.ofDigitChars_ten_toDigits (n := m), h, Nat.ofDigitChars_ten_toDigits]

theorem accumulate_toDigits {limit n : Nat} (overflow : ParseIntError) (h : n ≤ limit) :
    accumulate limit overflow 0 (Nat.toDigits 10 n) = .ok n := by
  rw [accumulate_digits (fun _ => isDigit_toDigits) (by rwa [Nat.ofDigitChars_ten_toDigits]),
    Nat.ofDigitChars_ten_toDigits]

/-- A number that fits the type is read back from its decimals. -/
theorem parseInt_decimal {range : IntRange} {n : Int} (h : range.Fits n) :
    parseInt range (decimal n) = .ok n := by
  obtain ⟨c, cs, hdigits⟩ := List.exists_cons_of_ne_nil (Nat.toDigits_ne_nil (n := n.natAbs) (b := 10))
  have hc : c.isDigit = true := isDigit_toDigits (n := n.natAbs) (by rw [hdigits]; simp)
  have hplus : c ≠ '+' := by rintro rfl; cases hc
  have hminus : c ≠ '-' := by rintro rfl; cases hc
  rw [decimal]
  rw [IntRange.Fits] at h
  split at h
  · rename_i hneg
    obtain ⟨limit, hlimit, hle⟩ := h
    rw [if_pos hneg, parseInt]
    simp only [hdigits, hlimit, reduceCtorEq, false_and, if_false, if_true]
    rw [← hdigits, accumulate_toDigits _ hle]
    simp only [Except.map, Int.ofNat_natAbs_of_nonpos (Int.le_of_lt hneg), Int.neg_neg]
    rfl
  · rename_i hnonneg
    rw [if_neg hnonneg, hdigits, parseInt]
    have hpositive : (accumulate range.pos .posOverflow 0 (c :: cs)).map (fun n : Nat => (n : Int)) = .ok n := by
      rw [← hdigits, accumulate_toDigits _ h]
      simp only [Except.map, Int.natAbs_of_nonneg (Int.not_lt.mp hnonneg)]
    simp only [hplus, hminus, or_self, and_false, if_false]
    split <;> exact hpositive

theorem isWhiteSpace_of_isDigit {c : Char} (h : c.isDigit = true) : isWhiteSpace c = false := by
  rw [Char.isDigit, Bool.and_eq_true, decide_eq_true_eq, decide_eq_true_eq] at h
  have hlow : 48 ≤ c.toNat := UInt32.le_iff_toNat_le.mp h.1
  have hhigh : c.toNat ≤ 57 := UInt32.le_iff_toNat_le.mp h.2
  simp only [isWhiteSpace, Bool.or_eq_false_iff, Bool.and_eq_false_iff, decide_eq_false_iff_not,
    beq_eq_false_iff_ne]
  omega

theorem decimal_isWord (n : Int) : IsWord (decimal n) := by
  have hdigits : ∀ c ∈ Nat.toDigits 10 n.natAbs, isWhiteSpace c = false :=
    fun c hc => isWhiteSpace_of_isDigit (isDigit_toDigits hc)
  unfold decimal
  split
  · refine ⟨List.cons_ne_nil _ _, ?_⟩
    intro c hc
    obtain rfl | hc := List.mem_cons.mp hc
    · rfl
    · exact hdigits c hc
  · exact ⟨Nat.toDigits_ne_nil, hdigits⟩

/-- Decimals are written with digits and a minus sign. -/
theorem notMem_decimal {c : Char} (hdigit : c.isDigit = false) (hminus : c ≠ '-') (n : Int) :
    c ∉ decimal n := by
  have hdigits : c ∉ Nat.toDigits 10 n.natAbs := by
    intro hc
    rw [isDigit_toDigits hc] at hdigit
    cases hdigit
  unfold decimal
  split
  · rw [List.mem_cons, not_or]
    exact ⟨hminus, hdigits⟩
  · exact hdigits

end Text
