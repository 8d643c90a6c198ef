import ConfigGuard.Library.Transition
import Mathlib.Logic.Basic

/-!
# Ranked transition systems

A rank that every step of a kind makes smaller bounds the runs that are made of
such steps, and leads each state to one where no such step is left.
-/

namespace Transition

variable {σ α : Type*}

/-- Runs of a number of steps that all meet the side condition. -/
inductive StepsIn (S : System σ α) (P : σ → α → Prop) : Nat → σ → σ → Prop
  | refl (s : σ) : StepsIn S P 0 s s
  | tail {n : Nat} {s t u : σ} {a : α} :
    StepsIn S P n s t → P t a → S.step t a = some u → StepsIn S P (n + 1) s u

/-- No step that meets the side condition is possible. -/
def Stuck (S : System σ α) (P : σ → α → Prop) (s : σ) : Prop :=
  ∀ a t, P s a → S.step s a ≠ some t

variable {S : System σ α} {P Q : σ → α → Prop} {n : Nat} {s t u : σ} {a : α}

theorem StepsIn.steps (h : StepsIn S P n s t) : Steps S P s t := by
  induction h with
  | refl => exact .refl _
  | tail _ hp hstep ih => exact .tail ih hp hstep

theorem StepsIn.head (hp : P s a) (hstep : S.step s a = some t) (h : StepsIn S P n t u) :
    StepsIn S P (n + 1) s u := by
  induction h with
  | refl => exact .tail (.refl s) hp hstep
  | tail _ hp' hstep' ih => exact .tail (ih hstep) hp' hstep'

theorem StepsIn.weaken (hpq : ∀ s a, P s a → Q s a) (h : StepsIn S P n s t) : StepsIn S Q n s t := by
  induction h with
  | refl => exact .refl _
  | tail _ hp hstep ih => exact .tail ih (hpq _ _ hp) hstep

/-- Each step uses up some of the rank. -/
theorem StepsIn.rank_le {rank : σ → Nat}
    (hrank : ∀ s a t, P s a → S.step s a = some t → rank t < rank s) (h : StepsIn S P n s t) :
    n + rank t ≤ rank s := by
  induction h with
  | refl s => exact Nat.le_of_eq (Nat.zero_add _)
  | @tail n s t u a _ hp hstep ih =>
    have hless : rank u < rank t := hrank t a u hp hstep
    omega

/-- A state whose steps of a kind have a rank leads to one that has no more of them. -/
theorem exists_stuck {rank : σ → Nat}
    (hrank : ∀ s a t, P s a → S.step s a = some t → rank t < rank s) (s : σ) :
    ∃ n t, StepsIn S P n s t ∧ Stuck S P t := by
  induction hr : rank s using Nat.strongRecOn generalizing s with
  | ind r ih =>
    by_cases hstuck : Stuck S P s
    · exact ⟨0, s, .refl s, hstuck⟩
    · simp only [Stuck, not_forall, not_not] at hstuck
      obtain ⟨a, t, hp, hstep⟩ := hstuck
      have hless : rank t < r := hr ▸ hrank s a t hp hstep
      obtain ⟨n, u, hrun, hu⟩ := ih (rank t) hless t rfl
      exact ⟨n + 1, u, hrun.head hp hstep, hu⟩

end Transition
