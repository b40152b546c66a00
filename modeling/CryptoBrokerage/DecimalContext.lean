import Mathlib.Data.Int.Log
import Mathlib.Data.Rat.Floor
import Mathlib.Tactic.Linarith
import Mathlib.Tactic.Positivity
import Mathlib.Tactic.Ring

/-! The contexts of decimal arithmetic. A context rounds the exact result of an
operation to a number of significant digits, half to even at the last digit that
is kept, and signals the results that are too large. -/
namespace CryptoBrokerage

/-- What the current context makes of the exact result of an operation, and
whether it raises `decimal.Overflow`. -/
class DecimalContext where
  rounded : ℚ → ℚ
  overflows : ℚ → Bool

namespace DecimalContext

section Integers
variable {K : Type} [Field K] [LinearOrder K] [FloorRing K]

def roundHalfEven (value : K) : ℤ :=
  if value - ⌊value⌋ < 1/2 ∨ (value - ⌊value⌋ = 1/2 ∧ ⌊value⌋ % 2 = 0) then ⌊value⌋ else ⌊value⌋ + 1

theorem roundHalfEven_cases (value : K) : roundHalfEven value = ⌊value⌋ ∨ roundHalfEven value = ⌊value⌋ + 1 := by
  unfold roundHalfEven
  split
  · exact Or.inl rfl
  · exact Or.inr rfl

theorem le_roundHalfEven {value : K} {units : ℤ} (le : units ≤ value) : units ≤ roundHalfEven value := by
  have below := Int.le_floor.mpr le
  rcases roundHalfEven_cases value with same | next <;> omega

variable [IsStrictOrderedRing K]

@[simp] theorem roundHalfEven_intCast (units : ℤ) : roundHalfEven (units : K) = units := by
  simp [roundHalfEven]

theorem abs_roundHalfEven_le {value : K} {bound : ℤ} (bounded : |value| < bound) : |roundHalfEven value| ≤ bound := by
  obtain ⟨lower,upper⟩ := abs_lt.mp bounded
  have above : -bound ≤ ⌊value⌋ := Int.le_floor.mpr (by push_cast; exact lower.le)
  have below : ⌊value⌋ < bound := Int.floor_lt.mpr upper
  rw [abs_le]
  rcases roundHalfEven_cases value with same | next <;> omega

theorem roundHalfEven_le {value : K} {units : ℤ} (le : value ≤ units) : roundHalfEven value ≤ units := by
  have whole : ⌊value⌋ ≤ units := Int.cast_le.mp ((Int.floor_le value).trans le)
  rcases whole.eq_or_lt with same | less
  · have exact : value = ⌊value⌋ := le_antisymm (same ▸ le) (Int.floor_le value)
    rw [exact,roundHalfEven_intCast]
    exact whole
  · rcases roundHalfEven_cases value with same | next <;> omega

/-- Rounding to the multiples of a scale crosses none of them. -/
theorem le_scaled {value scale : K} (positive : 0 < scale) {units : ℤ} (le : units * scale ≤ value) :
    units * scale ≤ roundHalfEven (value / scale) * scale := by
  have above : units ≤ roundHalfEven (value / scale) := le_roundHalfEven ((le_div_iff₀ positive).mpr le)
  exact mul_le_mul_of_nonneg_right (Int.cast_le.mpr above) positive.le

theorem scaled_le {value scale : K} (positive : 0 < scale) {units : ℤ} (le : value ≤ units * scale) :
    roundHalfEven (value / scale) * scale ≤ units * scale := by
  have below : roundHalfEven (value / scale) ≤ units := roundHalfEven_le ((div_le_iff₀ positive).mpr le)
  exact mul_le_mul_of_nonneg_right (Int.cast_le.mpr below) positive.le

end Integers

def Fits {K : Type} [Field K] (base digits : ℕ) (value : K) : Prop :=
  ∃ units power : ℤ, |units| < (base : ℤ) ^ digits ∧ value = units * (base : K) ^ power

section Digits
variable {K : Type} [Field K] [LinearOrder K] [FloorRing K] (base digits : ℕ)

def exponent (value : K) : ℤ := Int.log base |value| + 1 - digits

def round (value : K) : K :=
  roundHalfEven (value / (base : K) ^ exponent base digits value) * (base : K) ^ exponent base digits value

end Digits

theorem fits_zero {K : Type} [Field K] {base : ℕ} (large : 1 < base) (digits : ℕ) : Fits base digits (0 : K) :=
  ⟨0,0,by simpa using pow_pos (by omega) digits,by simp⟩

section Rounds
variable {K : Type} [Field K] [LinearOrder K] [IsStrictOrderedRing K] [FloorRing K] {base digits : ℕ} {value : K}

theorem base_pos (large : 1 < base) : (0 : K) < base := by
  exact_mod_cast (zero_lt_one.trans large)

/-- The last digit is that many places after the first. -/
theorem abs_lt_zpow (large : 1 < base) (value : K) :
    |value| < (base : K) ^ digits * (base : K) ^ exponent base digits value := by
  have below := Int.lt_zpow_succ_log_self large |value|
  rw [← zpow_natCast,← zpow_add₀ (base_pos large).ne',exponent]
  convert below using 2
  omega

/-- A value that fits is a multiple of its last digit. -/
theorem exponent_le (large : 1 < base) {units power : ℤ} (bounded : |units| < (base : ℤ) ^ digits)
    (multiple : value = units * (base : K) ^ power) (some : value ≠ 0) : exponent base digits value ≤ power := by
  have above : (base : K) ^ Int.log base |value| ≤ |value| := Int.zpow_log_le_self large (abs_pos.mpr some)
  have cast : |(units : K)| < (base : K) ^ digits := by exact_mod_cast bounded
  have positive : (0 : K) < (base : K) ^ power := zpow_pos (base_pos large) power
  have size : (base : K) ^ Int.log base |value| < (base : K) ^ ((digits : ℤ) + power) := by
    calc (base : K) ^ Int.log base |value| ≤ |value| := above
      _ = |(units : K)| * (base : K) ^ power := by
        rw [multiple,abs_mul,abs_of_pos positive]
      _ < (base : K) ^ digits * (base : K) ^ power := mul_lt_mul_of_pos_right cast positive
      _ = (base : K) ^ ((digits : ℤ) + power) := by rw [zpow_add₀ (base_pos large).ne',zpow_natCast]
  have order := (zpow_lt_zpow_iff_right₀ (by exact_mod_cast large)).mp size
  unfold exponent
  omega

theorem round_exact (large : 1 < base) {units power : ℤ} (multiple : value = units * (base : K) ^ power)
    (le : exponent base digits value ≤ power) : round base digits value = value := by
  have some := (base_pos (K := K) large).ne'
  have scale : (base : K) ^ exponent base digits value ≠ 0 := zpow_ne_zero _ some
  have whole : value / (base : K) ^ exponent base digits value =
      ((units * (base : ℤ) ^ (power - exponent base digits value).toNat : ℤ) : K) := by
    rw [div_eq_iff scale]
    push_cast
    rw [← zpow_natCast,Int.toNat_of_nonneg (by omega),mul_assoc,← zpow_add₀ some,sub_add_cancel]
    exact multiple
  rw [round,whole,roundHalfEven_intCast,← whole,div_mul_cancel₀ _ scale]

theorem round_of_fits (large : 1 < base) (fits : Fits base digits value) : round base digits value = value := by
  obtain ⟨units,power,bounded,multiple⟩ := fits
  by_cases zero : value = 0
  · have none : roundHalfEven (0 : K) = 0 := by simpa using roundHalfEven_intCast (K := K) 0
    simp [round,zero,none]
  · exact round_exact large multiple (exponent_le large bounded multiple zero)

theorem fits_round (large : 1 < base) (keeps : 0 < digits) (value : K) : Fits base digits (round base digits value) := by
  have scale : (0 : K) < (base : K) ^ exponent base digits value := zpow_pos (base_pos large) _
  have bounded : |roundHalfEven (value / (base : K) ^ exponent base digits value)| ≤ (base : ℤ) ^ digits := by
    apply abs_roundHalfEven_le
    rw [abs_div,abs_of_pos scale,div_lt_iff₀ scale]
    push_cast
    exact abs_lt_zpow large value
  rcases bounded.lt_or_eq with less | carry
  · exact ⟨_,_,less,rfl⟩
  · -- a carry out of the first digit leaves a power of the base
    have one : |(1 : ℤ)| < (base : ℤ) ^ digits := by
      rw [abs_one]
      exact one_lt_pow₀ (by omega) keeps.ne'
    have shift : (base : K) ^ ((digits : ℤ) + exponent base digits value) =
        (base : K) ^ digits * (base : K) ^ exponent base digits value := by
      rw [zpow_add₀ (base_pos large).ne',zpow_natCast]
    rcases (abs_eq (by positivity)).mp carry with up | down
    · refine ⟨1,digits + exponent base digits value,one,?_⟩
      rw [round,up,shift]
      push_cast
      ring
    · refine ⟨-1,digits + exponent base digits value,by rwa [abs_neg],?_⟩
      rw [round,down,shift]
      push_cast
      ring

/-- Rounding keeps the multiples of every power of the base. -/
theorem round_multiple (large : 1 < base) {units power : ℤ} (multiple : value = units * (base : K) ^ power) :
    ∃ kept : ℤ, round base digits value = kept * (base : K) ^ power := by
  by_cases le : exponent base digits value ≤ power
  · exact ⟨units,(round_exact large multiple le).trans multiple⟩
  · refine ⟨roundHalfEven (value / (base : K) ^ exponent base digits value) *
      (base : ℤ) ^ (exponent base digits value - power).toNat,?_⟩
    push_cast
    rw [← zpow_natCast,Int.toNat_of_nonneg (by omega),mul_assoc,← zpow_add₀ (base_pos large).ne',sub_add_cancel]
    rfl

theorem multiple_of_le (large : 1 < base) {units power lower : ℤ} (le : lower ≤ power) :
    ∃ more : ℤ, (units : K) * (base : K) ^ power = more * (base : K) ^ lower := by
  refine ⟨units * (base : ℤ) ^ (power - lower).toNat,?_⟩
  push_cast
  rw [← zpow_natCast,Int.toNat_of_nonneg (by omega),mul_assoc,← zpow_add₀ (base_pos large).ne',sub_add_cancel]

/-- A value that fits is a multiple of the last digit of another one, or lies below its first digit. -/
theorem fits_cases (large : 1 < base) {point : K} (fits : Fits base digits point) (value : K) :
    (∃ units : ℤ, point = units * (base : K) ^ exponent base digits value) ∨
      |point| < (base : K) ^ Int.log base |value| := by
  obtain ⟨units,power,bounded,rfl⟩ := fits
  by_cases le : exponent base digits value ≤ power
  · exact Or.inl (multiple_of_le large le)
  · right
    have cast : |(units : K)| < (base : K) ^ digits := by exact_mod_cast bounded
    have positive : (0 : K) < (base : K) ^ power := zpow_pos (base_pos large) power
    calc |(units : K) * (base : K) ^ power| = |(units : K)| * (base : K) ^ power := by rw [abs_mul,abs_of_pos positive]
      _ < (base : K) ^ digits * (base : K) ^ power := mul_lt_mul_of_pos_right cast positive
      _ = (base : K) ^ ((digits : ℤ) + power) := by rw [zpow_add₀ (base_pos large).ne',zpow_natCast]
      _ ≤ (base : K) ^ Int.log base |value| := by
        apply zpow_le_zpow_right₀ (by exact_mod_cast large.le)
        unfold exponent at le
        omega

theorem first_digit (large : 1 < base) (keeps : 0 < digits) (value : K) :
    (base : K) ^ Int.log base |value| = ((base : ℤ) ^ (digits - 1) : ℤ) * (base : K) ^ exponent base digits value := by
  push_cast
  rw [← zpow_natCast,← zpow_add₀ (base_pos large).ne',exponent]
  congr 1
  omega

/-- Rounding crosses no value that fits. -/
theorem le_round (large : 1 < base) (keeps : 0 < digits) {point : K} (fits : Fits base digits point)
    (le : point ≤ value) : point ≤ round base digits value := by
  have scale : (0 : K) < (base : K) ^ exponent base digits value := zpow_pos (base_pos large) _
  rcases fits_cases large fits value with ⟨units,rfl⟩ | small
  · exact le_scaled scale le
  · rcases lt_trichotomy value 0 with negative | rfl | positive
    · have size := Int.zpow_log_le_self large (abs_pos.mpr negative.ne)
      rw [abs_of_neg negative] at size small
      have above := (abs_lt.mp small).1
      linarith
    · rwa [round_of_fits large (fits_zero large digits)]
    · have size := Int.zpow_log_le_self large (abs_pos.mpr positive.ne')
      rw [first_digit large keeps,abs_of_pos positive] at size
      calc point ≤ |point| := le_abs_self point
        _ ≤ (base : K) ^ Int.log base |value| := small.le
        _ = _ := first_digit large keeps value
        _ ≤ round base digits value := le_scaled scale size

theorem round_le (large : 1 < base) (keeps : 0 < digits) {point : K} (fits : Fits base digits point)
    (le : value ≤ point) : round base digits value ≤ point := by
  have scale : (0 : K) < (base : K) ^ exponent base digits value := zpow_pos (base_pos large) _
  rcases fits_cases large fits value with ⟨units,rfl⟩ | small
  · exact scaled_le scale le
  · rcases lt_trichotomy value 0 with negative | rfl | positive
    · have size := Int.zpow_log_le_self large (abs_pos.mpr negative.ne)
      rw [first_digit large keeps,abs_of_neg negative] at size
      have below : value ≤ (-(base : ℤ) ^ (digits - 1) : ℤ) * (base : K) ^ exponent base digits value := by
        push_cast at size ⊢
        linarith
      calc round base digits value ≤ _ := scaled_le scale below
        _ = -(base : K) ^ Int.log base |value| := by
          rw [first_digit large keeps]
          push_cast
          ring
        _ ≤ point := by linarith [(abs_lt.mp small).1]
    · rwa [round_of_fits large (fits_zero large digits)]
    · have size := Int.zpow_log_le_self large (abs_pos.mpr positive.ne')
      rw [abs_of_pos positive] at size small
      have below := (abs_lt.mp small).2
      linarith

end Rounds

@[reducible] def exact : DecimalContext := ⟨id,fun _ => false⟩

@[simp] theorem rounded_exact (value : ℚ) : exact.rounded value = value := rfl

end DecimalContext

open DecimalContext in
/-- The context that Python starts with, and that no code changes: 28 significant
digits and exponents from -999999 to 999999. Below them the last digit is fixed. -/
instance defaultContext : DecimalContext where
  rounded value :=
    if Int.log 10 |value| < -999999 then roundHalfEven (value / 10 ^ (-1000026 : ℤ)) * 10 ^ (-1000026 : ℤ)
    else round 10 28 value
  overflows value := 999999 < Int.log 10 |round 10 28 value|

namespace DecimalContext

theorem rounded_normal {value : ℚ} (normal : -999999 ≤ Int.log 10 |value|) :
    defaultContext.rounded value = round 10 28 value := if_neg (not_lt.mpr normal)

theorem rounded_subnormal {value : ℚ} (subnormal : Int.log 10 |value| < -999999) :
    defaultContext.rounded value = roundHalfEven (value / 10 ^ (-1000026 : ℤ)) * 10 ^ (-1000026 : ℤ) :=
  if_pos subnormal

theorem fits_rounded (value : ℚ) : Fits 10 28 (defaultContext.rounded value) := by
  rcases lt_or_ge (Int.log 10 |value|) (-999999) with subnormal | normal
  · have scale : (0 : ℚ) < 10 ^ (-1000026 : ℤ) := zpow_pos (by norm_num) _
    have size := Int.lt_zpow_succ_log_self (R := ℚ) (b := 10) (by decide) |value|
    have above : |value| < 10 ^ (-999999 : ℤ) :=
      size.trans_le (zpow_le_zpow_right₀ (by norm_num) (by omega))
    have digits : (10 : ℚ) ^ (-999999 : ℤ) = ((10 ^ 27 : ℤ) : ℚ) * 10 ^ (-1000026 : ℤ) := by
      have split : (10 : ℚ) ^ (-999999 : ℤ) = 10 ^ (27 : ℤ) * 10 ^ (-1000026 : ℤ) := by
        rw [← zpow_add₀ (by norm_num)]
        norm_num
      rw [split]
      norm_cast
    have few : |roundHalfEven (value / 10 ^ (-1000026 : ℤ))| ≤ 10 ^ 27 := by
      apply abs_roundHalfEven_le
      rw [abs_div,abs_of_pos scale,div_lt_iff₀ scale,← digits]
      exact above
    exact ⟨_,-1000026,few.trans_lt (by norm_num),rounded_subnormal subnormal⟩
  · rw [rounded_normal normal]
    exact fits_round (by decide) (by decide) value

/-- A value that the context keeps has 28 digits, the last of them no smaller than all others'. -/
theorem kept_digits {point : ℚ} (kept : defaultContext.rounded point = point) :
    Fits 10 28 point ∧ ∃ units : ℤ, point = units * 10 ^ (-1000026 : ℤ) := by
  refine ⟨kept ▸ fits_rounded point,?_⟩
  rcases lt_or_ge (Int.log 10 |point|) (-999999) with subnormal | normal
  · exact ⟨_,kept.symm.trans (rounded_subnormal subnormal)⟩
  · rw [rounded_normal normal] at kept
    have last : (-1000026 : ℤ) ≤ exponent 10 28 point := by
      unfold exponent
      push_cast
      omega
    have multiple (units : ℤ) : ∃ more : ℤ, (units : ℚ) * (10 : ℕ) ^ exponent 10 28 point =
        more * (10 : ℕ) ^ (-1000026 : ℤ) := multiple_of_le (by decide) last
    obtain ⟨units,same⟩ := multiple (roundHalfEven (point / (10 : ℕ) ^ exponent 10 28 point))
    exact ⟨units,by exact_mod_cast kept.symm.trans same⟩

/-- The context crosses no value that it keeps. -/
theorem le_rounded {point value : ℚ} (kept : defaultContext.rounded point = point) (le : point ≤ value) :
    point ≤ defaultContext.rounded value := by
  obtain ⟨fits,units,multiple⟩ := kept_digits kept
  rcases lt_or_ge (Int.log 10 |value|) (-999999) with subnormal | normal
  · rw [rounded_subnormal subnormal,multiple]
    exact le_scaled (zpow_pos (by norm_num) _) (multiple ▸ le)
  · rw [rounded_normal normal]
    exact le_round (by decide) (by decide) fits le

theorem rounded_le {point value : ℚ} (kept : defaultContext.rounded point = point) (le : value ≤ point) :
    defaultContext.rounded value ≤ point := by
  obtain ⟨fits,units,multiple⟩ := kept_digits kept
  rcases lt_or_ge (Int.log 10 |value|) (-999999) with subnormal | normal
  · rw [rounded_subnormal subnormal,multiple]
    exact scaled_le (zpow_pos (by norm_num) _) (multiple ▸ le)
  · rw [rounded_normal normal]
    exact round_le (by decide) (by decide) fits le

end DecimalContext

end CryptoBrokerage
