import Mathlib.Logic.Relation
import Mathlib.Data.List.Basic

/-!
# A walk with a stack of pending nodes

Visit the node on top, put its children on the stack, until the stack is empty
or something fails. A visit changes a state of its own.
-/

namespace Worklist

variable {α σ ε : Type} (visit : σ → α → σ × Except ε Unit) (children : α → Except ε (List α))

/-- The state the visits leave, and how many they were; `none` when the fuel did not
suffice. -/
def walk : Nat → List α → σ → Nat → Option (σ × Except ε Nat)
  | _, [], s, count => some (s, .ok count)
  | 0, _ :: _, _, _ => none
  | fuel + 1, x :: pending, s, count =>
    match visit s x with
    | (s, .error e) => some (s, .error e)
    | (s, .ok ()) =>
      match children x with
      | .error e => some (s, .error e)
      | .ok next => walk fuel (next.reverse ++ pending) s (count + 1)

def Child (x y : α) : Prop := ∃ next, children x = .ok next ∧ y ∈ next

def Reaches : α → α → Prop := Relation.ReflTransGen (Child children)

variable {visit children}

theorem walk_visit_error {x : α} {s t : σ} {e : ε} (h : visit s x = (t, .error e)) (fuel : Nat)
    (pending : List α) (count : Nat) :
    walk visit children (fuel + 1) (x :: pending) s count = some (t, .error e) := by
  rw [walk, h]

theorem walk_children_error {x : α} {s t : σ} {e : ε} (h : visit s x = (t, .ok ()))
    (he : children x = .error e) (fuel : Nat) (pending : List α) (count : Nat) :
    walk visit children (fuel + 1) (x :: pending) s count = some (t, .error e) := by
  rw [walk, h]
  dsimp only
  rw [he]

theorem walk_step {x : α} {s t : σ} {next : List α} (h : visit s x = (t, .ok ()))
    (hnext : children x = .ok next) (fuel : Nat) (pending : List α) (count : Nat) :
    walk visit children (fuel + 1) (x :: pending) s count =
      walk visit children fuel (next.reverse ++ pending) t (count + 1) := by
  rw [walk, h]
  dsimp only
  rw [hnext]

theorem walk_add {fuel : Nat} {pending : List α} {s : σ} {count : Nat} {result : σ × Except ε Nat}
    (h : walk visit children fuel pending s count = some result) (k : Nat) :
    walk visit children (fuel + k) pending s count = some result := by
  induction fuel generalizing pending s count with
  | zero =>
    cases pending with
    | nil =>
      rw [walk] at h ⊢
      exact h
    | cons x pending => cases h
  | succ fuel ih =>
    cases pending with
    | nil =>
      rw [walk] at h ⊢
      exact h
    | cons x pending =>
      rw [Nat.add_right_comm]
      rcases hvisit : visit s x with ⟨t, e | _⟩
      · rw [walk_visit_error hvisit] at h ⊢
        exact h
      · cases hchildren : children x with
        | error e =>
          rw [walk_children_error hvisit hchildren] at h ⊢
          exact h
        | ok next =>
          rw [walk_step hvisit hchildren] at h ⊢
          exact ih h

/-- Below a node without infinite descent the walk comes back to the rest of the stack. -/
theorem walk_ends_above {x : α} (hx : Acc (fun y z => Child children z y) x) {pending : List α}
    (hpending : ∀ s count, ∃ fuel result,
      walk visit children fuel pending s count = some result) (s : σ) (count : Nat) :
    ∃ fuel result, walk visit children fuel (x :: pending) s count = some result := by
  induction hx generalizing pending s count with
  | intro x _ ih =>
    rcases hvisit : visit s x with ⟨t, e | _⟩
    · exact ⟨1, _, walk_visit_error hvisit 0 pending count⟩
    · cases hchildren : children x with
      | error e => exact ⟨1, _, walk_children_error hvisit hchildren 0 pending count⟩
      | ok next =>
        -- each child in turn comes back to what lies below it on the stack
        have hstack : ∀ l : List α, (∀ y ∈ l, y ∈ next) → ∀ s count, ∃ fuel result,
            walk visit children fuel (l ++ pending) s count = some result := by
          intro l
          induction l with
          | nil =>
            intro _
            exact hpending
          | cons y l ihl =>
            intro hl
            have hrest := ihl fun z hz => hl z (List.mem_cons_of_mem _ hz)
            exact ih y ⟨next, hchildren, hl y List.mem_cons_self⟩ hrest
        obtain ⟨fuel, result, hresult⟩ :=
          hstack next.reverse (fun y hy => List.mem_reverse.mp hy) t (count + 1)
        exact ⟨fuel + 1, result, (walk_step hvisit hchildren fuel pending count).trans hresult⟩

theorem walk_ends {pending : List α}
    (h : ∀ x ∈ pending, Acc (fun y z => Child children z y) x) (s : σ) (count : Nat) :
    ∃ fuel result, walk visit children fuel pending s count = some result := by
  induction pending generalizing s count with
  | nil => exact ⟨0, (s, .ok count), by rw [walk]⟩
  | cons x pending ih =>
    apply walk_ends_above (h x List.mem_cons_self)
    exact ih fun y hy => h y (List.mem_cons_of_mem _ hy)

/-- Successful visits, one after the other. -/
inductive Visits (visit : σ → α → σ × Except ε Unit) : σ → List α → σ → Prop
  | nil (s : σ) : Visits visit s [] s
  | cons {s t u : σ} {x : α} {xs : List α} :
    visit s x = (t, .ok ()) → Visits visit t xs u → Visits visit s (x :: xs) u

/-- What a walk has done when it stops: `visited` are the nodes whose visit succeeded. -/
structure Walked (visit : σ → α → σ × Except ε Unit) (children : α → Except ε (List α))
    (pending : List α) (s : σ) (count : Nat) (visited : List α) (s' : σ)
    (outcome : Except ε Nat) : Prop where
  visits : ∃ t, Visits visit s visited t ∧
    (t = s' ∨ ∃ y e, outcome = .error e ∧ visit t y = (s', .error e))
  sound : ∀ y ∈ visited, ∃ x ∈ pending, Reaches children x y
  complete : ∀ n, outcome = .ok n →
    (∀ x ∈ pending, ∀ y, Reaches children x y → y ∈ visited ∧ ∃ next, children y = .ok next) ∧
    n = count + visited.length
  failed : ∀ e, outcome = .error e → ∃ x ∈ pending, ∃ y, Reaches children x y ∧
    ((∃ t u, visit t y = (u, .error e)) ∨ children y = .error e)

section Walked

variable {x : α} {s t s' : σ} {next pending visited : List α} {count : Nat}
  {outcome : Except ε Nat}

theorem Walked.empty : Walked visit children [] s count [] s (.ok count) where
  visits := ⟨s, .nil s, .inl rfl⟩
  sound _ hy := absurd hy List.not_mem_nil
  complete n hn := by
    obtain rfl := Except.ok.inj hn
    exact ⟨fun x hx => absurd hx List.not_mem_nil, rfl⟩
  failed _ he := by cases he

theorem Walked.visit_error {e : ε} (he : visit s x = (t, .error e)) :
    Walked visit children (x :: pending) s count [] t (.error e) where
  visits := ⟨s, .nil s, .inr ⟨x, e, rfl, he⟩⟩
  sound _ hy := absurd hy List.not_mem_nil
  complete _ hn := by cases hn
  failed e' he' := by
    obtain rfl := Except.error.inj he'
    exact ⟨x, List.mem_cons_self, x, .refl, .inl ⟨s, t, he⟩⟩

theorem Walked.children_error {e : ε} (hx : visit s x = (t, .ok ()))
    (he : children x = .error e) :
    Walked visit children (x :: pending) s count [x] t (.error e) where
  visits := ⟨t, .cons hx (.nil t), .inl rfl⟩
  sound y hy := by
    obtain rfl := List.mem_singleton.mp hy
    exact ⟨y, List.mem_cons_self, .refl⟩
  complete _ hn := by cases hn
  failed e' he' := by
    obtain rfl := Except.error.inj he'
    exact ⟨x, List.mem_cons_self, x, .refl, .inr he⟩

/-- Whatever is reached from the stack after one step was reached from it before. -/
theorem reaches_of_stack (hchildren : children x = .ok next) {y z : α}
    (hy : y ∈ next.reverse ++ pending) (hz : Reaches children y z) :
    ∃ w ∈ x :: pending, Reaches children w z := by
  obtain hy | hy := List.mem_append.mp hy
  · exact ⟨x, List.mem_cons_self, .head ⟨next, hchildren, List.mem_reverse.mp hy⟩ hz⟩
  · exact ⟨y, List.mem_cons_of_mem _ hy, hz⟩

theorem Walked.step (hx : visit s x = (t, .ok ())) (hchildren : children x = .ok next)
    (h : Walked visit children (next.reverse ++ pending) t (count + 1) visited s' outcome) :
    Walked visit children (x :: pending) s count (x :: visited) s' outcome where
  visits := by
    obtain ⟨u, hvisits, hend⟩ := h.visits
    exact ⟨u, .cons hx hvisits, hend⟩
  sound z hz := by
    obtain rfl | hz := List.mem_cons.mp hz
    · exact ⟨z, List.mem_cons_self, .refl⟩
    · obtain ⟨y, hy, hyz⟩ := h.sound z hz
      exact reaches_of_stack hchildren hy hyz
  complete n hn := by
    obtain ⟨hstack, hcount⟩ := h.complete n hn
    refine ⟨?_, by rw [List.length_cons]; omega⟩
    intro y hy z hyz
    obtain rfl | hy := List.mem_cons.mp hy
    · obtain rfl | ⟨w, ⟨next', hnext', hw⟩, hwz⟩ := Relation.ReflTransGen.cases_head hyz
      · exact ⟨List.mem_cons_self, next, hchildren⟩
      · rw [hchildren] at hnext'
        obtain rfl := Except.ok.inj hnext'
        obtain ⟨hz, hread⟩ := hstack w (List.mem_append_left _ (List.mem_reverse.mpr hw)) z hwz
        exact ⟨List.mem_cons_of_mem _ hz, hread⟩
    · obtain ⟨hz, hread⟩ := hstack y (List.mem_append_right _ hy) z hyz
      exact ⟨List.mem_cons_of_mem _ hz, hread⟩
  failed e he := by
    obtain ⟨y, hy, z, hyz, hfail⟩ := h.failed e he
    obtain ⟨w, hw, hwz⟩ := reaches_of_stack hchildren hy hyz
    exact ⟨w, hw, z, hwz, hfail⟩

theorem walk_spec {fuel : Nat}
    (h : walk visit children fuel pending s count = some (s', outcome)) :
    ∃ visited, Walked visit children pending s count visited s' outcome := by
  induction fuel generalizing pending s count with
  | zero =>
    cases pending with
    | nil =>
      rw [walk] at h
      obtain ⟨rfl, rfl⟩ := Prod.mk.inj (Option.some.inj h)
      exact ⟨[], .empty⟩
    | cons x pending => cases h
  | succ fuel ih =>
    cases pending with
    | nil =>
      rw [walk] at h
      obtain ⟨rfl, rfl⟩ := Prod.mk.inj (Option.some.inj h)
      exact ⟨[], .empty⟩
    | cons x pending =>
      rcases hvisit : visit s x with ⟨t, e | _⟩
      · rw [walk_visit_error hvisit] at h
        obtain ⟨rfl, rfl⟩ := Prod.mk.inj (Option.some.inj h)
        exact ⟨[], .visit_error hvisit⟩
      · cases hchildren : children x with
        | error e =>
          rw [walk_children_error hvisit hchildren] at h
          obtain ⟨rfl, rfl⟩ := Prod.mk.inj (Option.some.inj h)
          exact ⟨[x], .children_error hvisit hchildren⟩
        | ok next =>
          rw [walk_step hvisit hchildren] at h
          obtain ⟨visited, hwalked⟩ := ih h
          exact ⟨x :: visited, hwalked.step hvisit hchildren⟩

end Walked

end Worklist
