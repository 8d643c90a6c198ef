import Mathlib.Data.Nat.Digits.Defs

/-!
# Little-endian numbers in byte strings

A number of a given width at a given offset, read and written.
-/

namespace LittleEndian

def value (bs : List UInt8) : Nat := Nat.ofDigits 256 (bs.map UInt8.toNat)

def bytes : Nat → Nat → List UInt8
  | 0, _ => []
  | width + 1, n => UInt8.ofNat (n % 256) :: bytes width (n / 256)

@[simp] theorem length_bytes (width n : Nat) : (bytes width n).length = width := by
  induction width generalizing n with
  | zero => rfl
  | succ width ih => rw [bytes, List.length_cons, ih]

theorem value_cons (b : UInt8) (bs : List UInt8) : value (b :: bs) = b.toNat + 256 * value bs := by
  rw [value, List.map_cons, Nat.ofDigits_cons, value]

/-- What does not fit into the bytes is lost. -/
theorem value_bytes_mod (width n : Nat) : value (bytes width n) = n % 256 ^ width := by
  induction width generalizing n with
  | zero => rw [Nat.pow_zero, Nat.mod_one, bytes, value, List.map_nil, Nat.ofDigits_nil]
  | succ width ih =>
    have hbyte : (UInt8.ofNat (n % 256)).toNat = n % 256 :=
      UInt8.toNat_ofNat_of_lt' (Nat.mod_lt _ (by decide))
    rw [bytes, value_cons, ih, hbyte, Nat.pow_succ', Nat.mod_mul]

theorem value_bytes {width n : Nat} (h : n < 256 ^ width) : value (bytes width n) = n := by
  rw [value_bytes_mod, Nat.mod_eq_of_lt h]

/-- The number of `width` bytes at `offset`. -/
def field (bs : List UInt8) (offset width : Nat) : Nat := value ((bs.drop offset).take width)

theorem field_here {width n : Nat} (h : n < 256 ^ width) (after : List UInt8) :
    field (bytes width n ++ after) 0 width = n := by
  rw [field, List.drop_zero, List.take_left' (length_bytes width n), value_bytes h]

theorem field_skip (skipped n : Nat) (after : List UInt8) {offset : Nat} (h : skipped ≤ offset)
    (width : Nat) : field (bytes skipped n ++ after) offset width =
      field after (offset - skipped) width := by
  obtain ⟨k, rfl⟩ := Nat.exists_eq_add_of_le h
  have hdrop : (bytes skipped n ++ after).drop (skipped + k) = after.drop k := by
    rw [List.drop_append, length_bytes, Nat.add_sub_cancel_left, List.drop_of_length_le,
      List.nil_append]
    rw [length_bytes]
    omega
  rw [field, hdrop, Nat.add_sub_cancel_left, field]

/-- Bytes behind a field do not count for it. -/
theorem field_take {bs : List UInt8} {offset width n : Nat} (h : offset + width ≤ n) :
    field (bs.take n) offset width = field bs offset width := by
  rw [field, List.drop_take, List.take_take, Nat.min_eq_left (by omega), field]

end LittleEndian
