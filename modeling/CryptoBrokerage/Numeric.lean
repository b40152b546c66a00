import CryptoBrokerage.DecimalContext
import CryptoBrokerage.Models
import Mathlib.Algebra.Group.Subgroup.ZPowers.Basic

/-! What a numeric column keeps of a value. All the ledger needs to know of the
rounding is that a value is moved to a nearest point of a grid. -/
namespace CryptoBrokerage

/-- Stored values lie on the grid, and rounding crosses no grid point. -/
structure Rounding (numeric : ℚ → Except Exception ℚ) (grid : AddSubgroup ℚ) : Prop where
  stored : ∀ {value kept}, numeric value = .ok kept → kept ∈ grid
  below : ∀ {value kept point}, numeric value = .ok kept → point ∈ grid → value ≤ point → kept ≤ point
  above : ∀ {value kept point}, numeric value = .ok kept → point ∈ grid → point ≤ value → point ≤ kept

theorem Rounding.fixed {numeric : ℚ → Except Exception ℚ} {grid : AddSubgroup ℚ} (rounding : Rounding numeric grid)
    {value kept : ℚ} (member : value ∈ grid) (ok : numeric value = .ok kept) : kept = value :=
  le_antisymm (rounding.below ok member le_rfl) (rounding.above ok member le_rfl)

def Keeps [DecimalContext] (numeric : ℚ → Except Exception ℚ) (value : ℚ) : Prop :=
  DecimalContext.rounded value = value ∧ numeric value = .ok value

instance [DecimalContext] (numeric : ℚ → Except Exception ℚ) (value : ℚ) : Decidable (Keeps numeric value) := by
  unfold Keeps
  infer_instance

/-- `Numeric(36,18)`: 18 decimal places, rounded half away from zero, and at most
18 digits before the point. -/
def numeric36 (value : ℚ) : Except Exception ℚ :=
  let units := ⌊|value| * 10^18 + 1/2⌋
  if 10^36 ≤ units then .error (.data "numeric field overflow")
  else .ok (if value < 0 then -(units / 10^18) else units / 10^18)

def grid36 : AddSubgroup ℚ := AddSubgroup.zmultiples (1 / 10^18)

theorem mem_grid36 {value : ℚ} : value ∈ grid36 ↔ ∃ units : ℤ, value = units / 10^18 := by
  unfold grid36
  rw [AddSubgroup.mem_zmultiples_iff]
  constructor
  · rintro ⟨units,rfl⟩
    exact ⟨units,by rw [zsmul_eq_mul]; ring⟩
  · rintro ⟨units,rfl⟩
    exact ⟨units,by rw [zsmul_eq_mul]; ring⟩

/-- No stored value is so small that the default context keeps fewer digits of it. -/
theorem rounded_grid36 {value : ℚ} (member : value ∈ grid36) :
    defaultContext.rounded value = DecimalContext.round 10 28 value := by
  apply DecimalContext.rounded_normal
  obtain ⟨units,rfl⟩ := mem_grid36.mp member
  by_cases none : units = 0
  · simp [none]
  · have one : (1 : ℚ) ≤ |(units : ℚ)| := by exact_mod_cast Int.one_le_abs none
    have above : ((10 : ℕ) : ℚ) ^ (-18 : ℤ) ≤ |(units : ℚ) / 10^18| := by
      rw [abs_div,abs_of_pos (by positivity : (0 : ℚ) < 10^18),zpow_neg,div_eq_mul_inv]
      exact le_mul_of_one_le_left (by positivity) one
    have log := Int.log_mono_right (b := 10) (by positivity) above
    rw [Int.log_zpow (by decide)] at log
    omega

theorem floor_half_le {value : ℚ} {units : ℤ} (le : value ≤ units) : ⌊value + 1/2⌋ ≤ units := by
  have below : ⌊value + 1/2⌋ < units + 1 := by
    rw [Int.floor_lt]
    push_cast
    linarith
  omega

theorem le_floor_half {value : ℚ} {units : ℤ} (le : units ≤ value) : units ≤ ⌊value + 1/2⌋ := by
  rw [Int.le_floor]
  linarith

theorem numeric36_rounding : Rounding numeric36 grid36 := by
  have scale : (0 : ℚ) < 10^18 := by positivity
  have kept {value result : ℚ} (ok : numeric36 value = .ok result) :
      result = if value < 0 then -((⌊|value| * 10^18 + 1/2⌋ : ℤ) / 10^18 : ℚ)
        else (⌊|value| * 10^18 + 1/2⌋ : ℤ) / 10^18 := by
    unfold numeric36 at ok
    simp only at ok
    split at ok
    · cases ok
    · exact (Except.ok.inj ok).symm
  constructor
  · intro value result ok
    rw [kept ok,mem_grid36]
    split
    · exact ⟨-⌊|value| * 10^18 + 1/2⌋,by push_cast; ring⟩
    · exact ⟨_,rfl⟩
  · intro value result point ok member le
    obtain ⟨units,rfl⟩ := mem_grid36.mp member
    rw [le_div_iff₀ scale] at le
    rw [kept ok]
    split
    · next negative =>
      rw [abs_of_neg negative]
      have bound : -units ≤ ⌊-value * 10^18 + 1/2⌋ := le_floor_half (by push_cast; linarith)
      have cast : ((-units : ℤ) : ℚ) ≤ (⌊-value * 10^18 + 1/2⌋ : ℤ) := Int.cast_le.mpr bound
      push_cast at cast
      rw [← neg_div]
      exact div_le_div_of_nonneg_right (by linarith) scale.le
    · next positive =>
      rw [abs_of_nonneg (not_lt.mp positive)]
      exact div_le_div_of_nonneg_right (Int.cast_le.mpr (floor_half_le le)) scale.le
  · intro value result point ok member le
    obtain ⟨units,rfl⟩ := mem_grid36.mp member
    rw [div_le_iff₀ scale] at le
    rw [kept ok]
    split
    · next negative =>
      rw [abs_of_neg negative]
      have bound : ⌊-value * 10^18 + 1/2⌋ ≤ -units := floor_half_le (by push_cast; linarith)
      have cast : ((⌊-value * 10^18 + 1/2⌋ : ℤ) : ℚ) ≤ (-units : ℤ) := Int.cast_le.mpr bound
      push_cast at cast
      rw [← neg_div]
      exact div_le_div_of_nonneg_right (by linarith) scale.le
    · next positive =>
      rw [abs_of_nonneg (not_lt.mp positive)]
      exact div_le_div_of_nonneg_right (Int.cast_le.mpr (le_floor_half le)) scale.le

theorem numeric36_kept {value : ℚ} (member : value ∈ grid36) (bounded : |value| < 10^18) :
    numeric36 value = .ok value := by
  obtain ⟨units,rfl⟩ := mem_grid36.mp member
  have scale : (0 : ℚ) < 10^18 := by positivity
  have size : |(units : ℚ) / 10^18| * 10^18 = ((|units| : ℤ) : ℚ) := by
    rw [abs_div,abs_of_pos scale,div_mul_cancel₀ _ scale.ne',Int.cast_abs]
  have whole : ⌊((|units| : ℤ) : ℚ) + 1/2⌋ = |units| := le_antisymm (floor_half_le le_rfl) (le_floor_half le_rfl)
  have small : |units| < 10^36 := by
    have cast : ((|units| : ℤ) : ℚ) < 10^36 := by
      rw [← size]
      linarith
    exact_mod_cast cast
  unfold numeric36
  simp only [size,whole]
  rw [if_neg (not_le.mpr small)]
  congr 1
  split
  · next negative =>
    have below : (units : ℚ) < 0 := by
      have product := mul_neg_of_neg_of_pos negative scale
      rwa [div_mul_cancel₀ _ scale.ne'] at product
    rw [abs_of_neg (Int.cast_lt_zero.mp below)]
    push_cast
    ring
  · next positive =>
    have above : (0 : ℚ) ≤ units := by
      have product := mul_nonneg (not_lt.mp positive) scale.le
      rwa [div_mul_cancel₀ _ scale.ne'] at product
    rw [abs_of_nonneg (Int.cast_nonneg_iff.mp above)]

theorem numeric36_bounded {value kept : ℚ} (ok : numeric36 value = .ok kept) : |kept| < 10^18 := by
  have scale : (0 : ℚ) < 10^18 := by positivity
  have above : 0 ≤ ⌊|value| * 10^18 + 1/2⌋ := Int.floor_nonneg.mpr (by positivity)
  unfold numeric36 at ok
  simp only at ok
  split at ok
  · cases ok
  · next small =>
    have size : |kept| = (⌊|value| * 10^18 + 1/2⌋ : ℤ) / 10^18 := by
      rw [← Except.ok.inj ok]
      split
      · rw [abs_neg,abs_of_nonneg (by positivity)]
      · rw [abs_of_nonneg (by positivity)]
    have cast : ((⌊|value| * 10^18 + 1/2⌋ : ℤ) : ℚ) < 10^36 := by exact_mod_cast not_le.mp small
    rw [size,div_lt_iff₀ scale]
    linarith

/-- The context keeps what the column stores of a value that the context has rounded. -/
theorem rounded_numeric36 {value kept : ℚ} (ok : numeric36 (defaultContext.rounded value) = .ok kept) :
    defaultContext.rounded kept = kept := by
  have member : kept ∈ grid36 := numeric36_rounding.stored ok
  rw [rounded_grid36 member]
  apply DecimalContext.round_of_fits (by decide)
  obtain ⟨units,power,bounded,multiple⟩ := DecimalContext.fits_rounded value
  have fits := DecimalContext.fits_rounded value
  rcases le_or_gt (-18) power with whole | small
  · -- the value is on the grid already
    have grid : defaultContext.rounded value ∈ grid36 := by
      obtain ⟨more,same⟩ : ∃ more : ℤ, (units : ℚ) * (10 : ℕ) ^ power = more * (10 : ℕ) ^ (-18 : ℤ) :=
        DecimalContext.multiple_of_le (by decide) whole
      refine mem_grid36.mpr ⟨more,multiple.trans (same.trans ?_)⟩
      rw [zpow_neg,div_eq_mul_inv]
      norm_num
    rw [numeric36_rounding.fixed grid ok]
    exact fits
  · have bound : |defaultContext.rounded value| < 10 ^ 9 := by
      have cast : |(units : ℚ)| < 10 ^ 28 := by exact_mod_cast bounded
      have positive : (0 : ℚ) < (10 : ℕ) ^ power := zpow_pos (by norm_num) power
      rw [multiple,abs_mul,abs_of_pos positive]
      calc |(units : ℚ)| * (10 : ℕ) ^ power < 10 ^ 28 * (10 : ℕ) ^ power := mul_lt_mul_of_pos_right cast positive
        _ ≤ 10 ^ 28 * (10 : ℕ) ^ (-19 : ℤ) :=
          mul_le_mul_of_nonneg_left (zpow_le_zpow_right₀ (by norm_num) (by omega)) (by norm_num)
        _ = 10 ^ 9 := by norm_num
    obtain ⟨above,below⟩ := abs_lt.mp bound
    have top : kept ≤ 10 ^ 9 := numeric36_rounding.below ok (mem_grid36.mpr ⟨10 ^ 27,by norm_num⟩) below.le
    have bottom : -10 ^ 9 ≤ kept := numeric36_rounding.above ok (mem_grid36.mpr ⟨-10 ^ 27,by norm_num⟩) above.le
    obtain ⟨places,rfl⟩ := mem_grid36.mp member
    refine ⟨places,-18,?_,?_⟩
    · rw [div_le_iff₀ (by norm_num)] at top
      rw [le_div_iff₀ (by norm_num)] at bottom
      have upper : places ≤ 10 ^ 27 := by
        have cast : (places : ℚ) ≤ ((10 ^ 27 : ℤ) : ℚ) := by
          push_cast
          linarith
        exact_mod_cast cast
      have lower : -10 ^ 27 ≤ places := by
        have cast : ((-10 ^ 27 : ℤ) : ℚ) ≤ (places : ℚ) := by
          push_cast
          linarith
        exact_mod_cast cast
      rw [abs_lt]
      constructor <;> push_cast <;> linarith
    · rw [zpow_neg,div_eq_mul_inv]
      norm_num

end CryptoBrokerage
