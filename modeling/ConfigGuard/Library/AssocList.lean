import Mathlib.Data.List.AList

/-!
# Association lists

Lookups after an insertion and an erasure, and the entries as a list up to the
order of the keys.
-/

namespace AssocList

variable {α : Type*} [DecidableEq α]

theorem mem_keys_of_lookup {β : α → Type*} {m : AList β} {a : α} {b : β a}
    (h : m.lookup a = some b) : a ∈ m.keys :=
  AList.mem_keys.mp (AList.lookup_isSome.mp (by rw [h]; rfl))

theorem lookup_insert_eq_some {β : Type*} {m : AList fun _ : α => β} {a a' : α} {b b' : β} :
    (m.insert a b).lookup a' = some b' ↔ a' = a ∧ b' = b ∨ a' ≠ a ∧ m.lookup a' = some b' := by
  by_cases h : a' = a
  · subst h
    simp [AList.lookup_insert, eq_comm]
  · simp [AList.lookup_insert_ne h, h]

theorem lookup_erase_eq_some {β : Type*} {m : AList fun _ : α => β} {a a' : α} {b : β} :
    (m.erase a).lookup a' = some b ↔ a' ≠ a ∧ m.lookup a' = some b := by
  by_cases h : a' = a
  · subst h
    simp [AList.lookup_erase]
  · simp [AList.lookup_erase_ne h, h]

/-- An entry and the rest of the map. -/
theorem entries_perm {β : α → Type*} {m : AList β} {a : α} {b : β a} (h : m.lookup a = some b) :
    m.entries.Perm (⟨a, b⟩ :: (m.erase a).entries) := by
  obtain ⟨b', l₁, l₂, _, hentries, hrest⟩ := List.exists_of_kerase (mem_keys_of_lookup h)
  -- the entry found for the key holds the value that is looked up
  have hb : b' = b := by
    have hsigma : (⟨a, b'⟩ : Sigma β) ∈ m.entries := by
      rw [hentries]
      exact List.mem_append_right _ List.mem_cons_self
    exact Option.some.inj ((AList.mem_lookup_iff.mpr hsigma).symm.trans h)
  subst hb
  have herase : (m.erase a).entries = l₁ ++ l₂ := hrest
  rw [herase, hentries]
  exact List.perm_middle

/-- The entries in the order in which the keys are listed. -/
theorem entries_in_order {β : Type*} {m : AList fun _ : α => β} {order : List α}
    (horder : order.Perm m.keys) :
    ∃ entries : List (α × β),
      (m.entries.map fun entry => (entry.1, entry.2)).Perm entries ∧
      entries.map (·.2) = order.filterMap m.lookup := by
  refine ⟨order.filterMap fun a => (m.lookup a).map (Prod.mk a), ?_, ?_⟩
  · have hkeys : m.keys.filterMap (fun a => (m.lookup a).map (Prod.mk a)) =
        m.entries.map fun entry => (entry.1, entry.2) := by
      rw [AList.keys, List.keys, List.filterMap_map, ← List.filterMap_eq_map]
      refine List.filterMap_congr ?_
      intro entry hentry
      have hlookup : m.lookup entry.1 = some entry.2 := AList.mem_lookup_iff.mpr hentry
      simp [hlookup]
    rw [← hkeys]
    exact (horder.filterMap _).symm
  · rw [List.map_filterMap]
    refine List.filterMap_congr ?_
    intro a _
    cases m.lookup a <;> rfl

/-- The one element of a list that has a given image, where images are distinct. -/
theorem filter_of_nodup_map {γ : Type*} {f : γ → α} {l : List γ} (hl : (l.map f).Nodup) {x : γ}
    (hx : x ∈ l) : (l.filter fun y => f y == f x) = [x] := by
  induction l with
  | nil => cases hx
  | cons y l ih =>
    rw [List.map_cons, List.nodup_cons] at hl
    rcases List.mem_cons.mp hx with rfl | hx
    · have hnone : (l.filter fun y => f y == f x) = [] := by
        rw [List.filter_eq_nil_iff]
        intro y hy heq
        exact hl.1 ((beq_iff_eq.mp heq) ▸ List.mem_map_of_mem hy)
      simp [hnone]
    · have hne : f y ≠ f x := by
        intro heq
        exact hl.1 (heq ▸ List.mem_map_of_mem hx)
      rw [List.filter_cons_of_neg (by simpa using hne)]
      exact ih hl.2 hx

/-- A list with distinct images that are all the same has at most one element. -/
theorem length_le_one {γ : Type*} {f : γ → α} {l : List γ} (hl : (l.map f).Nodup)
    (hsame : ∀ x ∈ l, ∀ y ∈ l, f x = f y) : l.length ≤ 1 := by
  cases l with
  | nil => exact Nat.zero_le 1
  | cons x l =>
    have hall : ((x :: l).filter fun y => f y == f x) = x :: l :=
      List.filter_eq_self.mpr fun y hy => beq_iff_eq.mpr (hsame y hy x List.mem_cons_self)
    have hone := filter_of_nodup_map hl (List.mem_cons_self (a := x))
    rw [hall] at hone
    rw [hone, List.length_singleton]

end AssocList
