import Mathlib.Data.List.Forall2

/-!
# Maps kept in the order of their keys

The entries of an ordered map, the entry of a key made or changed, and what a
whole sequence of such changes leaves behind.
-/

open Std

/-- The entries stand in strictly increasing order of their keys. -/
structure SortedMap (K V : Type*) (cmp : K → K → Ordering) where
  entries : List (K × V)
  sorted : entries.Pairwise fun a b => cmp a.1 b.1 = .lt

namespace SortedMap

variable {K V α : Type*} {cmp : K → K → Ordering}

def empty : SortedMap K V cmp := ⟨[], .nil⟩

/-- The value of a key becomes what `f` makes of it; a key that is there keeps
its spelling. -/
def upsertEntries (cmp : K → K → Ordering) (k : K) (f : Option V → V) : List (K × V) → List (K × V)
  | [] => [(k, f none)]
  | (k', v) :: rest =>
    match cmp k k' with
    | .lt => (k, f none) :: (k', v) :: rest
    | .eq => (k', f (some v)) :: rest
    | .gt => (k', v) :: upsertEntries cmp k f rest

def getEntry (cmp : K → K → Ordering) (k : K) (entries : List (K × V)) : Option (K × V) :=
  entries.find? fun e => cmp k e.1 == .eq

def get (m : SortedMap K V cmp) (k : K) : Option V := (getEntry cmp k m.entries).map (·.2)

theorem mem_upsertEntries {k : K} {f : Option V → V} {entries : List (K × V)} {e : K × V}
    (h : e ∈ upsertEntries cmp k f entries) : e.1 = k ∨ ∃ v, (e.1, v) ∈ entries := by
  induction entries with
  | nil =>
    obtain rfl := List.mem_singleton.mp h
    exact .inl rfl
  | cons first rest ih =>
    obtain ⟨k', v⟩ := first
    rw [upsertEntries] at h
    split at h
    · rcases List.mem_cons.mp h with rfl | h
      · exact .inl rfl
      · exact .inr ⟨e.2, h⟩
    · rcases List.mem_cons.mp h with rfl | h
      · exact .inr ⟨v, List.mem_cons_self⟩
      · exact .inr ⟨e.2, List.mem_cons_of_mem _ h⟩
    · rcases List.mem_cons.mp h with rfl | h
      · exact .inr ⟨v, List.mem_cons_self⟩
      · exact (ih h).imp_right fun ⟨w, hw⟩ => ⟨w, List.mem_cons_of_mem _ hw⟩

theorem getEntry_of_lt {k : K} {entries : List (K × V)} (h : ∀ e ∈ entries, cmp k e.1 = .lt) :
    getEntry cmp k entries = none := by
  rw [getEntry, List.find?_eq_none]
  intro e he
  rw [h e he]
  decide

theorem getEntry_cons_of_eq {k : K} {first : K × V} (h : cmp k first.1 = .eq)
    (rest : List (K × V)) : getEntry cmp k (first :: rest) = some first := by
  rw [getEntry, List.find?_cons_of_pos (by simp [h])]

theorem getEntry_cons_of_ne {k : K} {first : K × V} (h : cmp k first.1 ≠ .eq)
    (rest : List (K × V)) : getEntry cmp k (first :: rest) = getEntry cmp k rest := by
  rw [getEntry, List.find?_cons_of_neg (by simp [h]), getEntry]

variable [TransCmp cmp]

/-- What comes before the first key comes before all of them. -/
theorem lt_of_lt_first {k : K} {first : K × V} {rest : List (K × V)}
    (hlt : cmp k first.1 = .lt) (hfirst : ∀ e ∈ rest, cmp first.1 e.1 = .lt) :
    ∀ e ∈ first :: rest, cmp k e.1 = .lt := by
  intro e he
  rcases List.mem_cons.mp he with rfl | he
  · exact hlt
  · exact TransCmp.lt_trans hlt (hfirst e he)

theorem sorted_upsertEntries (k : K) (f : Option V → V) {entries : List (K × V)}
    (h : entries.Pairwise fun a b => cmp a.1 b.1 = .lt) :
    (upsertEntries cmp k f entries).Pairwise fun a b => cmp a.1 b.1 = .lt := by
  induction entries with
  | nil => exact List.pairwise_singleton _ _
  | cons first rest ih =>
    obtain ⟨k', v⟩ := first
    obtain ⟨hfirst, hrest⟩ := List.pairwise_cons.mp h
    rw [upsertEntries]
    split
    · rename_i hlt
      exact List.pairwise_cons.mpr ⟨lt_of_lt_first hlt hfirst, h⟩
    · exact List.pairwise_cons.mpr ⟨hfirst, hrest⟩
    · rename_i hgt
      refine List.pairwise_cons.mpr ⟨?_, ih hrest⟩
      intro e he
      rcases mem_upsertEntries he with hk | ⟨w, hw⟩
      · rw [hk]
        exact OrientedCmp.lt_of_gt hgt
      · exact hfirst (e.1, w) hw

/-- `entry(k)` with a value put in where there is none, and changed. -/
def upsert (m : SortedMap K V cmp) (k : K) (f : Option V → V) : SortedMap K V cmp where
  entries := upsertEntries cmp k f m.entries
  sorted := sorted_upsertEntries k f m.sorted

theorem getEntry_upsertEntries (k k' : K) (f : Option V → V) {entries : List (K × V)}
    (h : entries.Pairwise fun a b => cmp a.1 b.1 = .lt) :
    (getEntry cmp k' (upsertEntries cmp k f entries)).map (·.2) =
      if cmp k' k = .eq then some (f ((getEntry cmp k entries).map (·.2)))
      else (getEntry cmp k' entries).map (·.2) := by
  induction entries with
  | nil =>
    rw [upsertEntries]
    by_cases heq : cmp k' k = .eq <;> simp [getEntry, heq]
  | cons first rest ih =>
    obtain ⟨k₀, v⟩ := first
    obtain ⟨hfirst, hrest⟩ := List.pairwise_cons.mp h
    rw [upsertEntries]
    -- the key goes in here, is the one that is here, or goes further down
    split
    · rename_i hlt
      have hnone : getEntry cmp k ((k₀, v) :: rest) = none :=
        getEntry_of_lt (lt_of_lt_first hlt hfirst)
      by_cases heq : cmp k' k = .eq
      · rw [hnone, if_pos heq]
        simp [getEntry, heq]
      · simp [getEntry, heq]
    · rename_i hk
      have hsame : cmp k' k₀ = cmp k' k := TransCmp.congr_right (OrientedCmp.eq_symm hk)
      by_cases heq : cmp k' k = .eq
      · simp [getEntry, hk, hsame, heq]
      · simp [getEntry, hsame, heq]
    · rename_i hgt
      by_cases heq₀ : cmp k' k₀ = .eq
      · have hne : cmp k' k ≠ .eq := by
          intro heq
          have hsame : cmp k k₀ = cmp k' k₀ := TransCmp.congr_left (OrientedCmp.eq_symm heq)
          rw [hgt, heq₀] at hsame
          cases hsame
        simp [getEntry, heq₀, hne]
      · have ih := ih hrest
        simp only [getEntry] at ih ⊢
        simp [heq₀, hgt, ih]

theorem get_upsert (m : SortedMap K V cmp) (k k' : K) (f : Option V → V) :
    (m.upsert k f).get k' = if cmp k' k = .eq then some (f (m.get k)) else m.get k' :=
  getEntry_upsertEntries k k' f m.sorted

theorem get_of_mem {m : SortedMap K V cmp} {e : K × V} (h : e ∈ m.entries) :
    m.get e.1 = some e.2 := by
  obtain ⟨before, after, hsplit⟩ := List.append_of_mem h
  -- the keys before it are smaller
  have hbefore : getEntry cmp e.1 before = none := by
    have hsorted := m.sorted
    rw [hsplit] at hsorted
    rw [getEntry, List.find?_eq_none]
    intro e' he'
    have hlt := (List.pairwise_append.mp hsorted).2.2 e' he' e List.mem_cons_self
    rw [OrientedCmp.gt_of_lt hlt]
    decide
  have hself : cmp e.1 e.1 = .eq := ReflCmp.compare_self
  rw [get, hsplit, getEntry, List.find?_append, ← getEntry, hbefore, Option.none_or]
  simp [hself]

omit [TransCmp cmp] in
theorem mem_of_get {m : SortedMap K V cmp} {k : K} {v : V} (h : m.get k = some v) :
    ∃ k', cmp k k' = .eq ∧ (k', v) ∈ m.entries := by
  obtain ⟨e, he, rfl⟩ := Option.map_eq_some_iff.mp h
  rw [getEntry, List.find?_eq_some_iff_append] at he
  obtain ⟨heq, before, after, hsplit, -⟩ := he
  refine ⟨e.1, beq_iff_eq.mp heq, ?_⟩
  rw [hsplit]
  exact List.mem_append_right _ List.mem_cons_self

/-- A key has at most one entry. -/
theorem filter_key (m : SortedMap K V cmp) (k : K) :
    (m.entries.filter fun e => cmp k e.1 == .eq).map (·.2) = (m.get k).toList := by
  obtain ⟨entries, hsorted⟩ := m
  rw [get, getEntry]
  induction entries with
  | nil => rfl
  | cons first rest ih =>
    obtain ⟨hfirst, hrest⟩ := List.pairwise_cons.mp hsorted
    cases hkey : cmp k first.1 == .eq with
    | false =>
      rw [List.filter_cons_of_neg (by simp [hkey]), List.find?_cons_of_neg (by simp [hkey])]
      exact ih hrest
    | true =>
      -- the other keys come after this one
      have hnone : rest.filter (fun e => cmp k e.1 == .eq) = [] := by
        rw [List.filter_eq_nil_iff]
        intro e he
        rw [TransCmp.lt_of_eq_of_lt (beq_iff_eq.mp hkey) (hfirst e he)]
        decide
      dsimp only
      rw [List.filter_cons, hkey, if_pos rfl, List.find?_cons, hkey, hnone]
      rfl

/-- With the same lookups and the same first key the tails have the same lookups. -/
theorem getEntry_rest {a b : K × V} {rest rest' : List (K × V)}
    (h : ∀ k, (getEntry cmp k (a :: rest)).map (·.2) = (getEntry cmp k (b :: rest')).map (·.2))
    (hab : cmp a.1 b.1 = .eq) (ha : ∀ e ∈ rest, cmp a.1 e.1 = .lt)
    (hb : ∀ e ∈ rest', cmp b.1 e.1 = .lt) (k : K) :
    (getEntry cmp k rest).map (·.2) = (getEntry cmp k rest').map (·.2) := by
  by_cases hk : cmp k a.1 = .eq
  · have hkb : cmp k b.1 = .eq := TransCmp.eq_trans hk hab
    rw [getEntry_of_lt fun e he => TransCmp.lt_of_eq_of_lt hk (ha e he),
      getEntry_of_lt fun e he => TransCmp.lt_of_eq_of_lt hkb (hb e he)]
  · have hkb : cmp k b.1 ≠ .eq := by
      intro hkb
      exact hk (TransCmp.eq_trans hkb (OrientedCmp.eq_symm hab))
    have hkget := h k
    rwa [getEntry_cons_of_ne hk, getEntry_cons_of_ne hkb] at hkget

/-- Maps with the same lookups have the same entries, up to the spelling of the keys. -/
theorem forall₂_of_get {m m' : SortedMap K V cmp} (h : ∀ k, m.get k = m'.get k) :
    List.Forall₂ (fun a b => cmp a.1 b.1 = .eq ∧ a.2 = b.2) m.entries m'.entries := by
  obtain ⟨l, hl⟩ := m
  obtain ⟨l', hl'⟩ := m'
  simp only [get] at h ⊢
  induction l generalizing l' with
  | nil =>
    cases l' with
    | nil => exact .nil
    | cons b rest' =>
      have hb := h b.1
      rw [getEntry_cons_of_eq ReflCmp.compare_self] at hb
      cases hb
  | cons a rest ih =>
    obtain ⟨ha, hrest⟩ := List.pairwise_cons.mp hl
    have haget := h a.1
    rw [getEntry_cons_of_eq ReflCmp.compare_self] at haget
    cases l' with
    | nil => cases haget
    | cons b rest' =>
      obtain ⟨hb, hrest'⟩ := List.pairwise_cons.mp hl'
      have hbget := h b.1
      rw [getEntry_cons_of_eq ReflCmp.compare_self] at hbget
      cases hab : cmp a.1 b.1 with
      | lt =>
        -- the key of `a` would be missing on the right
        rw [getEntry_of_lt (lt_of_lt_first hab hb)] at haget
        cases haget
      | gt =>
        rw [getEntry_of_lt (lt_of_lt_first (OrientedCmp.lt_of_gt hab) ha)] at hbget
        cases hbget
      | eq =>
        rw [getEntry_cons_of_eq hab] at haget
        exact .cons ⟨hab, Option.some.inj haget⟩
          (ih hrest rest' hrest' (getEntry_rest h hab ha hb))

/-- With the keys spelled alike such maps are equal. -/
theorem eq_of_get {m m' : SortedMap K V cmp} (h : ∀ k, m.get k = m'.get k)
    (hkeys : ∀ a ∈ m.entries, ∀ b ∈ m'.entries, cmp a.1 b.1 = .eq → a.1 = b.1) : m = m' := by
  have hsame : m.entries = m'.entries := by
    have hentries := forall₂_of_get h
    generalize m.entries = l, m'.entries = l' at hentries hkeys
    induction hentries with
    | nil => rfl
    | @cons a b rest rest' hab _ ih =>
      have hkey := hkeys a List.mem_cons_self b List.mem_cons_self hab.1
      rw [Prod.ext hkey hab.2, ih fun x hx y hy =>
        hkeys x (List.mem_cons_of_mem _ hx) y (List.mem_cons_of_mem _ hy)]
  cases m
  cases m'
  cases hsame
  rfl

section Gather

variable (key : α → K) (f : α → Option V → V)

/-- One change for each element. -/
def gather (m : SortedMap K V cmp) (xs : List α) : SortedMap K V cmp :=
  xs.foldl (fun m x => m.upsert (key x) (f x)) m

theorem key_mem_gather {m : SortedMap K V cmp} {xs : List α} {e : K × V}
    (h : e ∈ (gather key f m xs).entries) :
    (∃ x ∈ xs, e.1 = key x) ∨ ∃ v, (e.1, v) ∈ m.entries := by
  induction xs generalizing m with
  | nil => exact .inr ⟨e.2, h⟩
  | cons x xs ih =>
    rcases ih h with ⟨y, hy, hkey⟩ | ⟨v, hv⟩
    · exact .inl ⟨y, List.mem_cons_of_mem _ hy, hkey⟩
    · rcases mem_upsertEntries hv with hk | hold
      · exact .inl ⟨x, List.mem_cons_self, hk⟩
      · exact .inr hold

theorem isSome_foldl (v : V) (xs : List α) :
    (xs.foldl (fun v x => some (f x v)) (some v)).isSome = true := by
  induction xs generalizing v with
  | nil => rfl
  | cons x xs ih => exact ih _

/-- A key's value is what the elements with this key have made of it, in turn. -/
theorem get_gather (m : SortedMap K V cmp) (xs : List α) (k : K) :
    (gather key f m xs).get k =
      (xs.filter fun x => cmp k (key x) == .eq).foldl (fun v x => some (f x v)) (m.get k) := by
  induction xs generalizing m with
  | nil => rfl
  | cons x xs ih =>
    rw [gather, List.foldl_cons, ← gather, ih, get_upsert, List.filter_cons]
    by_cases heq : cmp k (key x) = .eq
    · have hsame : m.get (key x) = m.get k := by
        simp only [get, getEntry, TransCmp.congr_left heq]
      simp [heq, hsame]
    · simp [heq]

/-- Values that are put in when a key is new and changed from then on. -/
theorem foldl_getD {xs : List α} (hne : xs ≠ []) (g : α → V → V) (init : V) :
    xs.foldl (fun v x => some (g x (v.getD init))) none =
      some (xs.foldl (fun v x => g x v) init) := by
  have hsome : ∀ (xs : List α) (v : V), xs.foldl (fun v x => some (g x (v.getD init))) (some v) =
      some (xs.foldl (fun v x => g x v) v) := by
    intro xs
    induction xs with
    | nil => exact fun _ => rfl
    | cons x xs ih => exact fun v => ih (g x v)
  cases xs with
  | nil => exact absurd rfl hne
  | cons x xs => exact hsome xs (g x init)

theorem exists_mem_gather {m : SortedMap K V cmp} {xs : List α} {x : α} (h : x ∈ xs) :
    ∃ e ∈ (gather key f m xs).entries, cmp (key x) e.1 = .eq := by
  induction xs generalizing m with
  | nil => cases h
  | cons y xs ih =>
    rcases List.mem_cons.mp h with rfl | h
    · have hsome : ((gather key f m (x :: xs)).get (key x)).isSome = true := by
        have hself : cmp (key x) (key x) = .eq := ReflCmp.compare_self
        rw [get_gather, List.filter_cons, hself, if_pos (by rfl), List.foldl_cons]
        exact isSome_foldl f _ _
      obtain ⟨v, hv⟩ := Option.isSome_iff_exists.mp hsome
      obtain ⟨k, hk, hmem⟩ := mem_of_get hv
      exact ⟨(k, v), hmem, hk⟩
    · exact ih h

end Gather

end SortedMap
