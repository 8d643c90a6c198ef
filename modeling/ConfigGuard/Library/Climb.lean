import Mathlib.Data.List.TakeWhile

/-!
# Following a partial function that changes with time

The elements met when a partial function is followed for a bounded number of
hops, each hop some time after the one before it.
-/

namespace Climb

variable {α : Type*}

/-- The elements met on the way from an element, with the times they are met at. -/
def climb (next : Nat → α → Option α) (pace : Nat) : Nat → Nat → α → List (Nat × α)
  | 0, _, _ => []
  | hops + 1, now, a =>
    match next now a with
    | none => []
    | some b => (now + pace, b) :: climb next pace hops (now + pace) b

variable {next : Nat → α → Option α} {pace : Nat}

theorem climb_none {now : Nat} {a : α} (h : next now a = none) (hops : Nat) :
    climb next pace hops now a = [] := by
  cases hops with
  | zero => rfl
  | succ hops => rw [climb, h]

theorem climb_some {now : Nat} {a b : α} (h : next now a = some b) (hops : Nat) :
    climb next pace (hops + 1) now a =
      (now + pace, b) :: climb next pace hops (now + pace) b := by
  rw [climb, h]

/-- A climb that does not go on from an element without a property ends at the
first one met. -/
theorem climb_while (p : Nat × α → Bool) (hops now : Nat) (a : α) :
    climb (fun t b => if p (t, b) then next t b else none) pace hops now a =
      (climb next pace hops now a).take
        (((now, a) :: climb next pace hops now a).takeWhile p).length := by
  induction hops generalizing now a with
  | zero => exact List.take_nil.symm
  | succ hops ih =>
    by_cases hp : p (now, a) = true
    · rw [List.takeWhile_cons_of_pos hp, List.length_cons]
      cases h : next now a with
      | none =>
        rw [climb_none (by rw [if_pos hp, h]), climb_none h]
        rfl
      | some b =>
        rw [climb_some (show (if p (now, a) then next now a else none) = some b by rw [if_pos hp, h]),
          climb_some h, List.take_succ_cons, ih]
    · rw [List.takeWhile_cons_of_neg hp, climb_none (if_neg hp)]
      rfl

end Climb
