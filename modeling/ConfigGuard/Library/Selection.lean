import Mathlib.Data.List.Basic
import Mathlib.Order.Nat

/-!
# The last element with the largest key

Selection by a key where a later element wins over an earlier one with the
same key.
-/

namespace Selection

variable {α : Type*} (key : α → Nat)

/-- Keep the best element seen so far, later elements winning ties. -/
def better (best x : α) : α := if key best ≤ key x then x else best

/-- The last element of the list with the largest key. -/
def maxByKey : List α → Option α
  | [] => none
  | x :: xs => some (xs.foldl (better key) x)

theorem better_eq (best x : α) : better key best x = best ∨ better key best x = x := by
  unfold better
  split
  · exact .inr rfl
  · exact .inl rfl

theorem key_le_better (best x : α) : key best ≤ key (better key best x) := by
  unfold better
  split <;> omega

theorem foldl_better_mem (xs : List α) (best : α) :
    xs.foldl (better key) best ∈ best :: xs := by
  induction xs generalizing best with
  | nil => simp
  | cons x xs ih =>
    have h := ih (better key best x)
    rw [List.mem_cons] at h
    rcases h with h | h
    · rw [List.foldl_cons, h]
      rcases better_eq key best x with he | he <;> simp [he]
    · exact List.mem_cons_of_mem _ (List.mem_cons_of_mem _ h)

theorem key_le_foldl_better (xs : List α) (best x : α) (hx : x ∈ best :: xs) :
    key x ≤ key (xs.foldl (better key) best) := by
  induction xs generalizing best x with
  | nil =>
    obtain rfl := List.mem_singleton.mp hx
    exact le_rfl
  | cons y ys ih =>
    rw [List.foldl_cons]
    have hbest : key (better key best y) ≤ key (ys.foldl (better key) (better key best y)) :=
      ih _ _ List.mem_cons_self
    rw [List.mem_cons, List.mem_cons] at hx
    rcases hx with rfl | rfl | hx
    · exact (key_le_better key x y).trans hbest
    · refine le_trans ?_ hbest
      unfold better
      split <;> omega
    · exact ih _ _ (List.mem_cons_of_mem _ hx)

theorem maxByKey_mem {xs : List α} {x : α} (h : maxByKey key xs = some x) : x ∈ xs := by
  cases xs with
  | nil => cases h
  | cons y ys =>
    rw [maxByKey, Option.some.injEq] at h
    rw [← h]
    exact foldl_better_mem key ys y

theorem key_le_maxByKey {xs : List α} {x y : α} (h : maxByKey key xs = some x) (hy : y ∈ xs) :
    key y ≤ key x := by
  cases xs with
  | nil => cases h
  | cons z zs =>
    rw [maxByKey, Option.some.injEq] at h
    rw [← h]
    exact key_le_foldl_better key zs z y hy

/-- The better of two optional elements, the second winning ties. -/
def merge : Option α → Option α → Option α
  | none, y => y
  | some x, none => some x
  | some x, some y => some (better key x y)

theorem better_assoc (x y z : α) :
    better key (better key x y) z = better key x (better key y z) := by
  unfold better
  by_cases hxy : key x ≤ key y
  · by_cases hyz : key y ≤ key z
    · simp [hxy, hyz, hxy.trans hyz]
    · simp [hxy, hyz]
  · by_cases hyz : key y ≤ key z
    · simp [hxy, hyz]
    · have hxz : ¬ key x ≤ key z := by omega
      simp [hxy, hyz, hxz]

theorem foldl_better (x y : α) (ys : List α) :
    ys.foldl (better key) (better key x y) = better key x (ys.foldl (better key) y) := by
  induction ys generalizing y with
  | nil => rfl
  | cons z zs ih => rw [List.foldl_cons, List.foldl_cons, better_assoc, ih]

theorem maxByKey_cons (x : α) (xs : List α) :
    maxByKey key (x :: xs) = merge key (some x) (maxByKey key xs) := by
  cases xs with
  | nil => rfl
  | cons y ys => rw [maxByKey, maxByKey, merge, List.foldl_cons, foldl_better]

theorem maxByKey_append (xs ys : List α) :
    maxByKey key (xs ++ ys) = merge key (maxByKey key xs) (maxByKey key ys) := by
  induction xs with
  | nil => rfl
  | cons x xs ih =>
    rw [List.cons_append, maxByKey_cons, maxByKey_cons, ih]
    cases maxByKey key xs with
    | none => rfl
    | some a =>
      cases maxByKey key ys with
      | none => rfl
      | some b => simp only [merge, better_assoc]

theorem maxByKey_map {f : α → α} (hf : ∀ x, key (f x) = key x) (xs : List α) :
    maxByKey key (xs.map f) = (maxByKey key xs).map f := by
  induction xs with
  | nil => rfl
  | cons x xs ih =>
    rw [List.map_cons, maxByKey_cons, maxByKey_cons, ih]
    cases maxByKey key xs with
    | none => rfl
    | some y =>
      simp only [Option.map_some, merge, better, hf]
      split <;> rfl

/-- The element between `before` and `after` is the one selected, whatever else
is true of it: only its key counts. -/
def SelectedAt (before : List α) (k : Nat) (after : List α) : Prop :=
  (∀ y ∈ before, key y ≤ k) ∧ ∀ y ∈ after, key y < k

theorem maxByKey_eq_none {xs : List α} : maxByKey key xs = none ↔ xs = [] := by
  cases xs <;> simp [maxByKey]

/-- Lists with the same elements up to a relation select related elements, if the largest
keys are not shared by unrelated ones. -/
theorem maxByKey_rel {β : Type*} {key' : β → Nat} {R : α → β → Prop} {xs : List α} {ys : List β}
    (hleft : ∀ x ∈ xs, ∃ y ∈ ys, R x y) (hright : ∀ y ∈ ys, ∃ x ∈ xs, R x y)
    (hkey : ∀ x y, R x y → key x = key' y)
    (hties : ∀ x ∈ xs, ∀ y ∈ ys, key x = key' y → R x y) :
    Option.Rel R (maxByKey key xs) (maxByKey key' ys) := by
  cases hx : maxByKey key xs with
  | none =>
    have hys : ys = [] := by
      rw [List.eq_nil_iff_forall_not_mem]
      intro y hy
      obtain ⟨x, hmem, -⟩ := hright y hy
      rw [(maxByKey_eq_none key).mp hx] at hmem
      cases hmem
    rw [hys]
    exact .none
  | some x =>
    have hmem := maxByKey_mem key hx
    obtain ⟨y₀, hy₀, hrel₀⟩ := hleft x hmem
    cases hy : maxByKey key' ys with
    | none =>
      rw [(maxByKey_eq_none key').mp hy] at hy₀
      cases hy₀
    | some y =>
      have hmem' := maxByKey_mem key' hy
      obtain ⟨x₀, hx₀, hrel⟩ := hright y hmem'
      have hle : key x ≤ key' y := hkey x y₀ hrel₀ ▸ key_le_maxByKey key' hy hy₀
      have hge : key' y ≤ key x := hkey x₀ y hrel ▸ key_le_maxByKey key hx hx₀
      exact .some (hties x hmem y hmem' (le_antisymm hle hge))

theorem maxByKey_selectedAt {before after : List α} {x : α}
    (h : SelectedAt key before (key x) after) :
    maxByKey key (before ++ x :: after) = some x := by
  have hafter : merge key (some x) (maxByKey key after) = some x := by
    cases hm : maxByKey key after with
    | none => rfl
    | some y =>
      have hlt := h.2 y (maxByKey_mem key hm)
      simp only [merge, better, if_neg (show ¬ key x ≤ key y by omega)]
  rw [maxByKey_append, maxByKey_cons, hafter]
  cases hm : maxByKey key before with
  | none => rfl
  | some y => simp only [merge, better, if_pos (h.1 y (maxByKey_mem key hm))]

/-- An element that is not selected may be exchanged for another of its key. -/
theorem maxByKey_not_selectedAt {before after : List α} {x x' : α} (hkey : key x' = key x)
    (h : ¬ SelectedAt key before (key x) after) :
    maxByKey key (before ++ x' :: after) = maxByKey key (before ++ x :: after) := by
  simp only [maxByKey_append, maxByKey_cons]
  by_cases hafter : ∀ y ∈ after, key y < key x
  · have hbefore : ¬ ∀ y ∈ before, key y ≤ key x := fun hb => h ⟨hb, hafter⟩
    simp only [not_forall] at hbefore
    obtain ⟨y, hy, hlt⟩ := hbefore
    cases hb : maxByKey key before with
    | none => rw [(maxByKey_eq_none key).mp hb] at hy; cases hy
    | some b =>
      have hby := key_le_maxByKey key hb hy
      have hx : ¬ key b ≤ key x := by omega
      cases ha : maxByKey key after with
      | none => simp only [merge, better, hkey, if_neg hx]
      | some a =>
        have hax := hafter a (maxByKey_mem key ha)
        have hxa : ¬ key x ≤ key a := by omega
        simp only [merge, better, hkey, if_neg hxa, if_neg hx]
  · simp only [not_forall] at hafter
    obtain ⟨y, hy, hle⟩ := hafter
    cases ha : maxByKey key after with
    | none => rw [(maxByKey_eq_none key).mp ha] at hy; cases hy
    | some a =>
      have hya := key_le_maxByKey key ha hy
      have hxa : key x ≤ key a := by omega
      simp only [merge, better, hkey, if_pos hxa]

theorem exists_selectedAt {xs : List α} {x : α} (h : maxByKey key xs = some x) :
    ∃ before after, xs = before ++ x :: after ∧ SelectedAt key before (key x) after := by
  induction xs with
  | nil => cases h
  | cons y ys ih =>
    rw [maxByKey_cons] at h
    cases hm : maxByKey key ys with
    | none =>
      rw [hm, merge, Option.some.injEq] at h
      obtain rfl := h
      obtain rfl := (maxByKey_eq_none key).mp hm
      exact ⟨[], [], rfl, by simp [SelectedAt]⟩
    | some z =>
      rw [hm, merge, Option.some.injEq, better] at h
      split at h
      · rename_i hle
        obtain rfl := h
        obtain ⟨before, after, rfl, hbefore, hafter⟩ := ih hm
        refine ⟨y :: before, after, rfl, ?_, hafter⟩
        intro w hw
        obtain rfl | hw := List.mem_cons.mp hw
        · exact hle
        · exact hbefore w hw
      · rename_i hlt
        obtain rfl := h
        refine ⟨[], ys, rfl, ⟨fun _ hw => absurd hw List.not_mem_nil, ?_⟩⟩
        intro w hw
        have hwz := key_le_maxByKey key hm hw
        omega

/-- Every element without the property loses to the one between `before` and `after`. -/
structure Outweighs (good : α → Prop) (before : List α) (k : Nat) (after : List α) : Prop where
  before : ∀ y ∈ before, ¬ good y → key y ≤ k
  after : ∀ y ∈ after, ¬ good y → key y < k

/-- The selected element has a property exactly when some element with it
outweighs every element without. -/
theorem maxByKey_good_iff (good : α → Prop) {xs : List α} :
    (∀ x, maxByKey key xs = some x → good x) ↔
      (xs ≠ [] → ∃ before x after, xs = before ++ x :: after ∧ good x ∧
        Outweighs key good before (key x) after) := by
  constructor
  · intro h hne
    obtain ⟨x, hx⟩ : ∃ x, maxByKey key xs = some x :=
      Option.ne_none_iff_exists'.mp fun hnone => hne ((maxByKey_eq_none key).mp hnone)
    obtain ⟨before, after, hxs, hselected⟩ := exists_selectedAt key hx
    exact ⟨before, x, after, hxs, h x hx, fun y hy _ => hselected.1 y hy,
      fun y hy _ => hselected.2 y hy⟩
  · intro h x hx
    have hne : xs ≠ [] := fun hnil => by rw [hnil] at hx; cases hx
    obtain ⟨before, d, after, hxs, hgood, hweight⟩ := h hne
    by_contra hbad
    have hle : key d ≤ key x := key_le_maxByKey key hx (by rw [hxs]; simp)
    -- `x` weighs less than `d` when it stands after it, and no more when before
    obtain ⟨before', after', hxs', hselected⟩ := exists_selectedAt key hx
    rcases List.append_eq_append_iff.mp (hxs.symm.trans hxs') with ⟨mid, hb', hmid⟩ | ⟨mid, hb, hmid⟩
    · cases mid with
      | nil =>
        rw [List.nil_append, List.cons.injEq] at hmid
        exact hbad (hmid.1 ▸ hgood)
      | cons m mid =>
        rw [List.cons_append, List.cons.injEq] at hmid
        have hlt := hweight.after x (by rw [hmid.2]; simp) hbad
        omega
    · cases mid with
      | nil =>
        rw [List.nil_append, List.cons.injEq] at hmid
        exact hbad (hmid.1 ▸ hgood)
      | cons m mid =>
        rw [List.cons_append, List.cons.injEq] at hmid
        have hlt := hselected.2 d (by rw [hmid.2]; simp)
        have hxd := hweight.before x (by rw [hb, hmid.1]; simp) hbad
        omega

/-- No two elements map to different values. -/
def Agree {β : Type*} (f : α → Option β) (xs : List α) : Prop :=
  ∀ a ∈ xs, ∀ b ∈ xs, ∀ x y, f a = some x → f b = some y → x = y

theorem findSome?_perm {β : Type*} {f : α → Option β} {xs ys : List α} (h : ys.Perm xs)
    (hagree : Agree f xs) : ys.findSome? f = xs.findSome? f := by
  cases hxs : xs.findSome? f with
  | none =>
    rw [List.findSome?_eq_none_iff] at hxs ⊢
    intro a ha
    exact hxs a (h.mem_iff.mp ha)
  | some x =>
    obtain ⟨a, ha, hx⟩ := List.exists_of_findSome?_eq_some hxs
    cases hys : ys.findSome? f with
    | none =>
      rw [List.findSome?_eq_none_iff] at hys
      rw [hys a (h.mem_iff.mpr ha)] at hx
      cases hx
    | some y =>
      obtain ⟨b, hb, hy⟩ := List.exists_of_findSome?_eq_some hys
      rw [hagree a ha b (h.mem_iff.mp hb) x y hx hy]

/-- The first match is the same in every order exactly when all matches agree. -/
theorem findSome?_getD_perm_iff {β : Type*} {f : α → Option β} {xs : List α} (default : β) :
    (∀ ys : List α, ys.Perm xs → (ys.findSome? f).getD default = (xs.findSome? f).getD default) ↔
      Agree f xs := by
  constructor
  · intro h
    have hfirst : ∀ a ∈ xs, ∀ x, f a = some x → x = (xs.findSome? f).getD default := by
      intro a ha x hx
      obtain ⟨before, after, rfl⟩ := List.append_of_mem ha
      have hmoved := h (a :: (before ++ after)) List.perm_middle.symm
      rwa [List.findSome?_cons_of_isSome (by rw [hx]; rfl), hx, Option.getD_some] at hmoved
    intro a ha b hb x y hx hy
    rw [hfirst a ha x hx, hfirst b hb y hy]
  · intro hagree ys h
    rw [findSome?_perm h hagree]

end Selection
