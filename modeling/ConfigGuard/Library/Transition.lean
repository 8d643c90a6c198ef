import Mathlib.Tactic.TypeStar

/-!
# Labelled transition systems with a side condition on the steps

A system moves by a partial function of the label, so that a run can be
executed. `Steps S P` are the finite runs whose every step meets `P`; with
`P` always true they are all the runs of the system.
-/

namespace Transition

/-- Initial states and a step function, `none` where the label is not enabled. -/
structure System (σ : Type*) (α : Type*) where
  init : σ → Prop
  step : σ → α → Option σ

variable {σ α : Type*}

/-- Finite runs all of whose steps meet the side condition `P`. -/
inductive Steps (S : System σ α) (P : σ → α → Prop) : σ → σ → Prop
  | refl (s : σ) : Steps S P s s
  | tail {s t u : σ} {a : α} : Steps S P s t → P t a → S.step t a = some u → Steps S P s u

/-- The side condition that every step meets. -/
def anyStep : σ → α → Prop := fun _ _ => True

instance (s : σ) (a : α) : Decidable (anyStep s a) := isTrue trivial

/-- The states some run from an initial state ends in. -/
def Reachable (S : System σ α) (P : σ → α → Prop) (s : σ) : Prop :=
  ∃ s₀, S.init s₀ ∧ Steps S P s₀ s

variable {S : System σ α} {P : σ → α → Prop}

theorem Steps.single {s t : σ} {a : α} (hp : P s a) (h : S.step s a = some t) : Steps S P s t :=
  .tail (.refl s) hp h

theorem Steps.trans {s t u : σ} (h₁ : Steps S P s t) (h₂ : Steps S P t u) : Steps S P s u := by
  induction h₂ with
  | refl => exact h₁
  | tail _ hp hs ih => exact .tail ih hp hs

/-- What one step keeps, a run keeps. -/
theorem Steps.keeps {I : σ → Prop} (hstep : ∀ s a t, I s → P s a → S.step s a = some t → I t)
    {s t : σ} (h : Steps S P s t) (hs : I s) : I t := by
  induction h with
  | refl => exact hs
  | tail _ hp hst ih => exact hstep _ _ _ ih hp hst

theorem Reachable.of_init {s : σ} (h : S.init s) : Reachable S P s := ⟨s, h, .refl s⟩

theorem Reachable.step {s t : σ} {a : α} (h : Reachable S P s) (hp : P s a)
    (hs : S.step s a = some t) : Reachable S P t := by
  obtain ⟨s₀, h₀, hr⟩ := h
  exact ⟨s₀, h₀, .tail hr hp hs⟩

theorem Reachable.steps {s t : σ} (h : Reachable S P s) (hs : Steps S P s t) : Reachable S P t := by
  obtain ⟨s₀, h₀, hr⟩ := h
  exact ⟨s₀, h₀, hr.trans hs⟩

/-- The invariant rule: what holds initially and is kept by every step holds
in every reachable state. -/
theorem Reachable.invariant {I : σ → Prop} (hinit : ∀ s, S.init s → I s)
    (hstep : ∀ s a t, I s → P s a → S.step s a = some t → I t)
    {s : σ} (h : Reachable S P s) : I s := by
  obtain ⟨s₀, h₀, hr⟩ := h
  exact hr.keeps hstep (hinit s₀ h₀)

/-- The invariant rule relative to an invariant already known. -/
theorem Reachable.invariant_with {I J : σ → Prop} (hJ : ∀ s, Reachable S P s → J s)
    (hinit : ∀ s, S.init s → I s)
    (hstep : ∀ s a t, J s → J t → I s → P s a → S.step s a = some t → I t)
    {s : σ} (h : Reachable S P s) : I s := by
  obtain ⟨s₀, h₀, hr⟩ := h
  induction hr with
  | refl => exact hinit _ h₀
  | @tail t u a hst hp hs ih =>
    have ht : Reachable S P t := ⟨s₀, h₀, hst⟩
    exact hstep t a u (hJ t ht) (hJ u (ht.step hp hs)) ih hp hs

/-- Execute a list of labels, checking the side condition before each step. -/
def exec (S : System σ α) (P : σ → α → Prop) [∀ s a, Decidable (P s a)] :
    σ → List α → Option σ
  | s, [] => some s
  | s, a :: as => if P s a then (S.step s a).bind fun t => exec S P t as else none

theorem exec_steps [∀ s a, Decidable (P s a)] {as : List α} {s t : σ}
    (h : exec S P s as = some t) : Steps S P s t := by
  induction as generalizing s with
  | nil =>
    rw [exec] at h
    rw [Option.some.inj h]
    exact .refl t
  | cons a as ih =>
    rw [exec] at h
    split at h
    · rename_i hp
      obtain ⟨u, hu, hrest⟩ := Option.bind_eq_some_iff.mp h
      exact (Steps.single hp hu).trans (ih hrest)
    · cases h

/-- Executed without a side condition, a run meets one on the labels that all of
them meet. -/
theorem exec_steps_of_labels {Q : α → Prop} {as : List α} {s t : σ}
    (h : exec S anyStep s as = some t) (hlabels : ∀ a ∈ as, Q a) :
    Steps S (fun _ a => Q a) s t := by
  induction as generalizing s with
  | nil =>
    rw [exec] at h
    rw [Option.some.inj h]
    exact .refl t
  | cons a as ih =>
    rw [exec, if_pos (show anyStep s a from trivial)] at h
    obtain ⟨u, hu, hrest⟩ := Option.bind_eq_some_iff.mp h
    exact (Steps.single (hlabels a List.mem_cons_self) hu).trans
      (ih hrest fun b hb => hlabels b (List.mem_cons_of_mem _ hb))

/-- The state a list of labels leads to; the start where one is not enabled. -/
def runFrom (S : System σ α) (P : σ → α → Prop) [∀ s a, Decidable (P s a)] (s : σ)
    (as : List α) : σ :=
  (exec S P s as).getD s

theorem runFrom_steps [∀ s a, Decidable (P s a)] {as : List α} {s : σ}
    (h : (exec S P s as).isSome = true) : Steps S P s (runFrom S P s as) := by
  obtain ⟨t, ht⟩ := Option.isSome_iff_exists.mp h
  rw [runFrom, ht]
  exact exec_steps ht

end Transition
