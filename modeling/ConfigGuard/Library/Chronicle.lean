import Mathlib.Data.List.Basic

/-!
# Lists that grow at their end

A chronicle is a list each of whose entries was fitting when it was appended,
given the entries before it.
-/

namespace AppendOnly

variable {α β : Type*}

/-- Every entry fits the entries before it. -/
inductive Chronicle (Fits : List α → α → Prop) : List α → Prop
  | nil : Chronicle Fits []
  | snoc {entries : List α} {entry : α} : Chronicle Fits entries → Fits entries entry →
    Chronicle Fits (entries ++ [entry])

variable {Fits : List α → α → Prop}

/-- The beginning of a chronicle is one. -/
theorem Chronicle.of_append {entries more : List α} (h : Chronicle Fits (entries ++ more)) :
    Chronicle Fits entries := by
  generalize hall : entries ++ more = all at h
  induction h generalizing more with
  | nil =>
    obtain rfl := (List.append_eq_nil_iff.mp hall).1
    exact .nil
  | @snoc earlier entry h hfits ih =>
    rcases List.eq_nil_or_concat more with rfl | ⟨init, last, rfl⟩
    · rw [List.append_nil] at hall
      rw [hall]
      exact .snoc h hfits
    · rw [List.concat_eq_append, ← List.append_assoc] at hall
      exact ih (List.append_inj' hall rfl).1

theorem chronicle_snoc {entries : List α} {entry : α} :
    Chronicle Fits (entries ++ [entry]) ↔ Chronicle Fits entries ∧ Fits entries entry := by
  constructor
  · intro h
    refine ⟨h.of_append, ?_⟩
    generalize hall : entries ++ [entry] = all at h
    cases h with
    | nil => exact absurd (List.append_eq_nil_iff.mp hall).2 (List.cons_ne_nil entry [])
    | @snoc earlier last _ hfits =>
      obtain ⟨rfl, hlast⟩ := List.append_inj' hall rfl
      obtain rfl := List.singleton_inj.mp hlast
      exact hfits
  · rintro ⟨h, hfits⟩
    exact .snoc h hfits

/-- Each entry of a chronicle fits the entries before it. -/
theorem Chronicle.fits {before after : List α} {entry : α}
    (h : Chronicle Fits (before ++ entry :: after)) : Fits before entry := by
  rw [List.append_cons] at h
  exact (chronicle_snoc.mp h.of_append).2

/-- What is settled stays settled as it was. -/
theorem findSome?_append_of_some {settles : α → Option β} {entries : List α} {b : β}
    (h : entries.findSome? settles = some b) (more : List α) :
    (entries ++ more).findSome? settles = some b := by
  rw [List.findSome?_append, h, Option.some_or]

theorem findSome?_concat (settles : α → Option β) (entries : List α) (entry : α) :
    (entries ++ [entry]).findSome? settles = (entries.findSome? settles).or (settles entry) := by
  rw [List.findSome?_append, List.findSome?_singleton]

end AppendOnly
