import ConfigGuard.Library.AssocList

/-!
# One queue of keyed values, kept as a queue per key

A list of keyed values in order of arrival, and what it means that a map of
queues together with the order of the keys represents it.
-/

namespace KeyedFifo

variable {κ α : Type}

/-- Drop from the front until the list is shorter than the bound. -/
def trim (bound : Nat) : List (κ × α) → List (κ × α)
  | [] => []
  | e :: l => if bound ≤ (e :: l).length then trim bound l else e :: l

theorem length_trim_lt {bound : Nat} (hbound : 0 < bound) (l : List (κ × α)) :
    (trim bound l).length < bound := by
  induction l with
  | nil => exact hbound
  | cons e l ih =>
    rw [trim]
    split
    · exact ih
    · omega

variable [DecidableEq κ]

/-- The values under a key, oldest first. -/
def values (key : κ) (l : List (κ × α)) : List α := (l.filter fun e => e.1 = key).map (·.2)

def dropKey (key : κ) (l : List (κ × α)) : List (κ × α) := l.filter fun e => e.1 ≠ key

def eraseFirst (key : κ) (l : List (κ × α)) : List (κ × α) := l.eraseP fun e => e.1 = key

section Values

variable (key other : κ) (a : α) (l l' : List (κ × α))

@[simp] theorem values_nil : values key ([] : List (κ × α)) = [] := rfl

@[simp] theorem values_cons :
    values key ((other, a) :: l) = if other = key then a :: values key l else values key l := by
  by_cases h : other = key
  · simp [values, h]
  · simp [values, h]

@[simp] theorem values_append : values key (l ++ l') = values key l ++ values key l' := by
  simp [values]

@[simp] theorem values_dropKey :
    values other (dropKey key l) = if other = key then [] else values other l := by
  by_cases h : other = key
  · subst h
    simp [values, dropKey, List.filter_filter]
  · rw [if_neg h, values, values, dropKey, List.filter_filter]
    congr 1
    apply List.filter_congr
    intro e _
    by_cases he : e.1 = other
    · simp [he, h]
    · simp [he]

@[simp] theorem values_eraseFirst :
    values other (eraseFirst key l) =
      if other = key then (values other l).tail else values other l := by
  induction l with
  | nil => simp [eraseFirst]
  | cons e l ih =>
    obtain ⟨k, b⟩ := e
    by_cases hk : k = key
    · subst hk
      have herase : eraseFirst k ((k, b) :: l) = l := by simp [eraseFirst]
      rw [herase, values_cons]
      by_cases hother : other = k
      · simp [hother]
      · simp [hother, Ne.symm hother]
    · have herase : eraseFirst key ((k, b) :: l) = (k, b) :: eraseFirst key l := by
        simp [eraseFirst, hk]
      rw [herase, values_cons, values_cons, ih]
      by_cases hother : other = key
      · subst hother
        simp [hk]
      · simp [hother]

theorem head?_values :
    (values key l).head? = (l.find? fun e => e.1 = key).map (·.2) := by
  rw [values, List.head?_map, List.head?_filter]

theorem length_dropKey : (dropKey key l).length + (values key l).length = l.length := by
  rw [values, List.length_map, dropKey, Nat.add_comm]
  have h := List.length_eq_length_filter_add (l := l) fun e => decide (e.1 = key)
  simpa using h.symm

theorem keys_dropKey : (dropKey key l).map (·.1) = (l.map (·.1)).filter (· ≠ key) := by
  rw [dropKey, List.filter_map]
  rfl

theorem keys_eraseFirst : (eraseFirst key l).map (·.1) = (l.map (·.1)).erase key := by
  induction l with
  | nil => rfl
  | cons e l ih =>
    by_cases h : e.1 = key
    · simp [eraseFirst, h]
    · have herase : eraseFirst key (e :: l) = e :: eraseFirst key l := by simp [eraseFirst, h]
      rw [herase, List.map_cons, List.map_cons, ih, List.erase_cons_tail (by simpa using h)]

variable {key l} in
theorem eraseFirst_of_values_eq_nil (h : values key l = []) : eraseFirst key l = l := by
  rw [values, List.map_eq_nil_iff, List.filter_eq_nil_iff] at h
  exact List.eraseP_of_forall_not h

theorem length_eraseFirst (h : values key l ≠ []) :
    (eraseFirst key l).length + 1 = l.length := by
  obtain ⟨b, hb⟩ := List.exists_mem_of_ne_nil _ h
  obtain ⟨e, he, -⟩ := List.mem_map.mp hb
  rw [List.mem_filter] at he
  exact List.length_eraseP_add_one he.1 he.2

end Values

end KeyedFifo
