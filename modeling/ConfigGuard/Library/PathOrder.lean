import ConfigGuard.Library.OsPath
import Mathlib.Data.List.Sort

/-!
# The order of paths

Paths are compared component by component; a list of paths is sorted by this
order.
-/

namespace OsPath

/-- The root comes before a leading `.`, this before `..`, and names come last,
in the order of their bytes. -/
def Component.rank : Component → Bytes
  | .rootDir => [0]
  | .curDir => [1]
  | .parentDir => [2]
  | .normal name => 3 :: name

theorem Component.rank_injective : Function.Injective Component.rank := by
  intro a b h
  cases a <;> cases b <;> simp_all [Component.rank]

namespace Path

def cmp : Path → Path → Ordering := compareOn fun p => p.components.map Component.rank

instance : Std.TransCmp cmp := inferInstanceAs (Std.TransCmp (compareOn _))

theorem cmp_eq_iff {p q : Path} : p.cmp q = .eq ↔ p.components = q.components := by
  rw [cmp, compareOn, Std.LawfulEqCmp.compare_eq_iff_eq]
  exact (List.map_injective_iff.mpr Component.rank_injective).eq_iff

def Le (p q : Path) : Prop := (p.cmp q).isLE = true

instance : DecidableRel Le := fun p q => inferInstanceAs (Decidable ((p.cmp q).isLE = true))

instance : IsTrans Path Le := ⟨fun _ _ _ => Std.TransCmp.isLE_trans⟩

instance : Std.Total Le := ⟨fun p q => by
  have hswap : q.cmp p = (p.cmp q).swap := Std.OrientedCmp.eq_swap
  unfold Le
  rw [hswap, Ordering.isLE_swap]
  cases p.cmp q <;> decide⟩

/-- Paths that are all different are in strictly increasing order once sorted. -/
theorem pairwise_lt_insertionSort {paths : List Path} (h : (paths.map components).Nodup) :
    (paths.insertionSort Le).Pairwise fun p q => p.cmp q = .lt := by
  have hperm := List.perm_insertionSort Le paths
  have hne : (paths.insertionSort Le).Pairwise fun p q => p.components ≠ q.components :=
    List.pairwise_map.mp ((hperm.map components).nodup_iff.mpr h)
  refine ((List.pairwise_insertionSort Le paths).and hne).imp ?_
  rintro p q ⟨hle, hne⟩
  rw [Le] at hle
  cases hcmp : p.cmp q with
  | lt => rfl
  | eq => exact absurd (cmp_eq_iff.mp hcmp) hne
  | gt =>
    rw [hcmp] at hle
    cases hle

end Path

end OsPath
