import Mathlib.Algebra.BigOperators.Ring.List
import Mathlib.Algebra.Order.BigOperators.Group.List
import Mathlib.Algebra.Order.Field.Basic
import Mathlib.Tactic.Linarith

/-! The weighted mean of a list of values, and its bounds. -/
namespace CryptoBrokerage.WeightedMean
variable {Item K : Type} [Field K] (weight value : Item → K) (items : List Item)

def weighted : K := (items.map fun item => weight item * value item).sum

def mean : K := weighted weight value items / (items.map weight).sum

variable {weight value items}

/-- The mean in the place of every value gives the same weighted sum. -/
theorem weighted_mean (sum : (items.map weight).sum ≠ 0) :
    weighted weight (fun _ => mean weight value items) items = weighted weight value items := by
  unfold weighted
  rw [List.sum_map_mul_right,mean,mul_div_cancel₀ _ sum]
  rfl

variable [LinearOrder K] [IsStrictOrderedRing K]

theorem sum_weights_pos (some : items ≠ []) (positive : ∀ item ∈ items, 0 < weight item) :
    0 < (items.map weight).sum := by
  apply List.sum_pos
  · simpa using positive
  · simpa using some

theorem exists_le_mean (some : items ≠ []) (positive : ∀ item ∈ items, 0 < weight item) :
    ∃ item ∈ items, value item ≤ mean weight value items := by
  have same := @weighted_mean _ _ _ weight value items (sum_weights_pos some positive).ne'
  obtain ⟨item,member,le⟩ := List.exists_le_of_sum_le some _ _ same.ge
  exact ⟨item,member,le_of_mul_le_mul_left le (positive item member)⟩

theorem exists_mean_le (some : items ≠ []) (positive : ∀ item ∈ items, 0 < weight item) :
    ∃ item ∈ items, mean weight value items ≤ value item := by
  have same := @weighted_mean _ _ _ weight value items (sum_weights_pos some positive).ne'
  obtain ⟨item,member,le⟩ := List.exists_le_of_sum_le some _ _ same.le
  exact ⟨item,member,le_of_mul_le_mul_left le (positive item member)⟩

end CryptoBrokerage.WeightedMean
