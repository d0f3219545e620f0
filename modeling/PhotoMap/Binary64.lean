/-
This file models the binary64 numbers and their conversions to and from 64-bit
integers. A finite number is kept as its exact rational value together with the
proof that 53 significant bits hold it, so a value no machine could hold cannot
be built. The conversion to an integer drops the fraction, the conversion from
an integer rounds to the nearest number and ties to the even one, and the exact
conversions succeed only when nothing is lost. A number that is converted to an
integer and back loses its fraction and nothing else.
-/

import Mathlib.Algebra.Order.Field.Rat
import Mathlib.Algebra.Order.Ring.Abs
import Mathlib.Algebra.Order.Ring.Int
import Mathlib.Data.Prod.Lex
import Mathlib.Data.Rat.Floor
import Mathlib.Tactic.NormNum
import Mathlib.Tactic.Ring

namespace Binary64

/-! ### The format -/

/-- The rationals a finite binary64 number holds: 53 significant bits, in the range of the
exponent. -/
def Representable (value : ℚ) : Prop :=
  ∃ significand exponent : ℤ, |significand| < 2 ^ 53 ∧ -1074 ≤ exponent ∧ exponent ≤ 971 ∧
    value = significand * 2 ^ exponent

/-- A binary64 number. The two zeros are one value, as they are for `==`. -/
inductive Double where
  | finite (value : ℚ) (representable : Representable value)
  | infinite (negative : Bool)
  | nan
deriving DecidableEq

/-- The rational of a finite number. -/
def Double.value? : Double → Option ℚ
  | .finite value _ => some value
  | .infinite _ => none
  | .nan => none

/-- The place of a number in the total order of the format: between the two infinities, with what
is not a number after everything else. -/
def Double.place : Double → ℕ ×ₗ ℚ
  | .infinite true => toLex (0, 0)
  | .finite value _ => toLex (1, value)
  | .infinite false => toLex (2, 0)
  | .nan => toLex (3, 0)

theorem Double.place_injective : Function.Injective Double.place := by
  intro first second same
  have places : ofLex first.place = ofLex second.place := congrArg ofLex same
  rcases first with ⟨value, _⟩ | (_ | _) | _ <;> rcases second with ⟨other, _⟩ | (_ | _) | _ <;>
    simp_all [Double.place]

theorem Double.place_of_value? {number : Double} {value : ℚ} (finite : number.value? = some value) :
    number.place = toLex (1, value) := by
  cases number with
  | finite other representable => rw [Double.place, Option.some.inj finite]
  | infinite negative => cases finite
  | nan => cases finite

/-! ### To integers -/

/-- The rational without its fraction: rounding toward zero. -/
def truncate (value : ℚ) : ℤ := value.num.tdiv value.den

/-- The 64-bit integer of this value, if there is one. -/
def int64? (value : ℤ) : Option Int64 :=
  if Int64.minValue.toInt ≤ value ∧ value ≤ Int64.maxValue.toInt then some (Int64.ofInt value)
  else none

/-- The number without its fraction, if 64 bits hold it. -/
def Double.toInt64? : Double → Option Int64
  | .finite value _ => int64? (truncate value)
  | .infinite _ => none
  | .nan => none

/-- The number as an integer, if it is one. -/
def Double.exactInt64? : Double → Option Int64
  | .finite value _ => if (truncate value : ℚ) = value then int64? (truncate value) else none
  | .infinite _ => none
  | .nan => none

/-! ### What dropping the fraction keeps -/

theorem truncate_of_nonneg {value : ℚ} (nonneg : 0 ≤ value) : truncate value = ⌊value⌋ := by
  rw [truncate, Rat.floor_def', Int.tdiv_eq_ediv_of_nonneg (Rat.num_nonneg.mpr nonneg)]

theorem truncate_neg (value : ℚ) : truncate (-value) = -truncate value := by
  rw [truncate, truncate, Rat.num_neg_eq_neg_num, Rat.den_neg_eq_den, Int.neg_tdiv]

theorem truncate_of_nonpos {value : ℚ} (nonpos : value ≤ 0) : truncate value = ⌈value⌉ := by
  have opposite := truncate_of_nonneg (neg_nonneg.mpr nonpos)
  rw [truncate_neg, Int.floor_neg] at opposite
  exact neg_injective opposite

theorem truncate_intCast (value : ℤ) : truncate value = value := by
  rw [truncate, Rat.num_intCast, Rat.den_intCast, Nat.cast_one, Int.tdiv_one]

/-- Less than one is dropped. -/
theorem abs_truncate_sub_lt (value : ℚ) : |(truncate value : ℚ) - value| < 1 := by
  rw [abs_lt]
  rcases le_total 0 value with nonneg | nonpos
  · rw [truncate_of_nonneg nonneg]
    have below := Int.floor_le value
    have above := Int.lt_floor_add_one value
    constructor <;> linarith
  · rw [truncate_of_nonpos nonpos]
    have above := Int.le_ceil value
    have below := Int.ceil_lt_add_one value
    constructor <;> linarith

theorem truncate_mono {first second : ℚ} (le : first ≤ second) :
    truncate first ≤ truncate second := by
  rcases le_total 0 first with nonneg | nonpos
  · rw [truncate_of_nonneg nonneg, truncate_of_nonneg (nonneg.trans le)]
    exact Int.floor_le_floor le
  · rcases le_total 0 second with later | earlier
    · rw [truncate_of_nonpos nonpos, truncate_of_nonneg later]
      exact (Int.ceil_le.mpr (by simpa using nonpos)).trans (Int.floor_nonneg.mpr later)
    · rw [truncate_of_nonpos nonpos, truncate_of_nonpos earlier]
      exact Int.ceil_le_ceil le

/-- Dropping the fraction leaves the second a value lies in, or, below zero, leads to the next
one. -/
theorem floor_eq_truncate {value : ℚ} (kept : 0 ≤ value ∨ (truncate value : ℚ) = value) :
    ⌊value⌋ = truncate value := by
  rcases kept with nonneg | whole
  · exact (truncate_of_nonneg nonneg).symm
  · rw [← whole, Int.floor_intCast, truncate_intCast]

theorem floor_eq_truncate_sub_one {value : ℚ} (negative : value < 0)
    (fraction : (truncate value : ℚ) ≠ value) : ⌊value⌋ = truncate value - 1 := by
  have above := Int.le_ceil value
  have below := Int.ceil_lt_add_one value
  rw [truncate_of_nonpos negative.le] at fraction ⊢
  rw [Int.floor_eq_iff]
  push_cast
  refine ⟨by linarith, ?_⟩
  have strict := lt_of_le_of_ne above (Ne.symm fraction)
  linarith

/-! ### From integers -/

/-- The quotient by a power of two, to the nearest integer and ties to the even one. -/
def roundQuotient (magnitude shift : ℕ) : ℕ :=
  let quotient := magnitude / 2 ^ shift
  let remainder := magnitude % 2 ^ shift
  if 2 ^ shift < 2 * remainder ∨ (2 * remainder = 2 ^ shift ∧ quotient % 2 = 1) then
    quotient + 1
  else
    quotient

/-- The bits of a natural number beyond its first 53. -/
def excessBits (magnitude : ℕ) : ℕ := magnitude.log2 - 52

/-- A natural number rounded to 53 significant bits. -/
def roundNat (magnitude : ℕ) : ℕ :=
  roundQuotient magnitude (excessBits magnitude) * 2 ^ excessBits magnitude

theorem roundQuotient_le (magnitude : ℕ) :
    roundQuotient magnitude (excessBits magnitude) ≤ 2 ^ 53 := by
  have quotient : magnitude / 2 ^ excessBits magnitude < 2 ^ 53 := by
    refine Nat.div_lt_of_lt_mul ?_
    rw [← pow_add]
    refine lt_of_lt_of_le Nat.lt_log2_self ?_
    refine Nat.pow_le_pow_right Nat.two_pos ?_
    unfold excessBits
    omega
  unfold roundQuotient
  dsimp only
  split <;> omega

theorem roundNat_representable (magnitude : ℕ) (sign : ℤ) (unit : |sign| ≤ 1)
    (bound : magnitude < 2 ^ 64) : Representable ((sign * roundNat magnitude : ℤ) : ℚ) := by
  have shift : excessBits magnitude ≤ 11 := by
    unfold excessBits
    by_cases zero : magnitude = 0
    · simp [zero]
    · have log := (Nat.log2_lt zero).mpr bound
      omega
  have small := roundQuotient_le magnitude
  rcases Nat.lt_or_eq_of_le small with less | equal
  · refine ⟨sign * roundQuotient magnitude (excessBits magnitude), excessBits magnitude, ?_,
      by omega, by omega, ?_⟩
    · rw [abs_mul]
      refine lt_of_le_of_lt (mul_le_of_le_one_left (abs_nonneg _) unit) ?_
      rw [Nat.abs_cast]
      exact_mod_cast less
    · rw [roundNat]
      push_cast
      rw [mul_assoc, zpow_natCast]
  · refine ⟨sign * 2 ^ 52, excessBits magnitude + 1, ?_, by omega, by omega, ?_⟩
    · rw [abs_mul]
      refine lt_of_le_of_lt (mul_le_of_le_one_left (abs_nonneg _) unit) ?_
      norm_num
    · rw [roundNat, equal, zpow_add_one₀ (by norm_num), zpow_natCast]
      push_cast
      ring

theorem natAbs_lt (value : Int64) : value.toInt.natAbs < 2 ^ 64 := by
  have lower := Int64.le_toInt value
  have upper := Int64.toInt_lt value
  omega

/-- The number nearest to the integer. -/
def Double.ofInt64 (value : Int64) : Double :=
  .finite ((value.toInt.sign * roundNat value.toInt.natAbs : ℤ) : ℚ)
    (roundNat_representable _ _ (by
      rcases Int.sign_trichotomy value.toInt with sign | sign | sign <;> rw [sign] <;> decide)
      (natAbs_lt value))

/-- The number of exactly this integer value, if there is one. -/
def Double.exactly? (value : Int64) : Option Double :=
  if value.toInt.sign * roundNat value.toInt.natAbs = value.toInt then some (.ofInt64 value)
  else none

/-! ### To an integer and back -/

theorem roundNat_eq_self {significand shift : ℕ} (bits : significand < 2 ^ 53) :
    roundNat (significand * 2 ^ shift) = significand * 2 ^ shift := by
  have excess : excessBits (significand * 2 ^ shift) ≤ shift := by
    by_cases zero : significand * 2 ^ shift = 0
    · simp [excessBits, zero]
    · have bound : significand * 2 ^ shift < 2 ^ (53 + shift) := by
        rw [pow_add]
        exact Nat.mul_lt_mul_of_pos_right bits (Nat.two_pow_pos shift)
      have log := (Nat.log2_lt zero).mpr bound
      unfold excessBits
      omega
  have divides : 2 ^ excessBits (significand * 2 ^ shift) ∣ significand * 2 ^ shift :=
    (Nat.pow_dvd_pow 2 excess).mul_left significand
  have positive := Nat.two_pow_pos (excessBits (significand * 2 ^ shift))
  rw [roundNat, roundQuotient, Nat.mod_eq_zero_of_dvd divides, if_neg (by omega),
    Nat.div_mul_cancel divides]

/-- The whole part of a number has no more significant bits than the number. -/
theorem roundNat_truncate {value : ℚ} (representable : Representable value) :
    roundNat (truncate value).natAbs = (truncate value).natAbs := by
  obtain ⟨significand, exponent, bits, -, -, rfl⟩ := representable
  have bits : significand.natAbs < 2 ^ 53 := by
    rw [Int.abs_eq_natAbs] at bits
    exact_mod_cast bits
  rcases le_total 0 exponent with nonneg | nonpos
  · obtain ⟨shift, rfl⟩ := Int.eq_ofNat_of_zero_le nonneg
    have whole : truncate (significand * 2 ^ (shift : ℤ)) = significand * 2 ^ shift := by
      rw [zpow_natCast]
      exact_mod_cast truncate_intCast (significand * 2 ^ shift)
    rw [whole, Int.natAbs_mul, Int.natAbs_pow]
    exact roundNat_eq_self bits
  · have small : (2 : ℚ) ^ exponent ≤ 1 := zpow_le_one_of_nonpos₀ (by norm_num) nonpos
    have positive : (0 : ℚ) < 2 ^ exponent := zpow_pos (by norm_num) exponent
    have bound : |significand * (2 : ℚ) ^ exponent| ≤ |(significand : ℚ)| := by
      rw [abs_mul, abs_of_pos positive]
      exact mul_le_of_le_one_right (abs_nonneg _) small
    obtain ⟨lower, upper⟩ := abs_le.mp bound
    have above := truncate_mono upper
    have below := truncate_mono lower
    rw [← Int.cast_abs] at above below
    rw [← Int.cast_neg] at below
    rw [truncate_intCast] at above below
    have few : (truncate (significand * 2 ^ exponent)).natAbs < 2 ^ 53 := by omega
    have single : roundNat (_ * 2 ^ 0) = _ * 2 ^ 0 := roundNat_eq_self few
    rwa [pow_zero, mul_one] at single
theorem int64?_toInt {value : ℤ} {result : Int64} (converted : int64? value = some result) :
    result.toInt = value := by
  unfold int64? at converted
  split at converted
  · rename_i inside
    rw [← Option.some.inj converted]
    exact Int64.toInt_ofInt_of_le inside.1 (Int.lt_of_le_of_lt inside.2 (by decide))
  · cases converted

/-- A finite number that is converted to an integer and back has lost its fraction, and nothing
else. -/
theorem Double.ofInt64_toInt64? {number : Double} {result : Int64}
    (converted : number.toInt64? = some result) :
    ∃ value, number.value? = some value ∧ result.toInt = truncate value ∧
      (Double.ofInt64 result).value? = some (truncate value : ℚ) := by
  cases number with
  | finite value representable =>
    have whole : result.toInt = truncate value := int64?_toInt converted
    refine ⟨value, rfl, whole, ?_⟩
    show some ((result.toInt.sign * roundNat result.toInt.natAbs : ℤ) : ℚ) = _
    rw [whole, roundNat_truncate representable, Int.sign_mul_natAbs]
  | infinite negative => cases converted
  | nan => cases converted

/-- Converting such a number again gives the same integer. -/
theorem Double.toInt64?_ofInt64 {number : Double} {result : Int64}
    (converted : number.toInt64? = some result) :
    (Double.ofInt64 result).toInt64? = some result := by
  obtain ⟨value, finite, whole, back⟩ := ofInt64_toInt64? converted
  have exact : truncate ((result.toInt.sign * roundNat result.toInt.natAbs : ℤ) : ℚ) =
      truncate value := by
    rw [Option.some.inj back, truncate_intCast]
  cases number with
  | finite other representable =>
    cases finite
    show int64? (truncate _) = _
    rw [exact]
    exact converted
  | infinite negative => cases converted
  | nan => cases converted

end Binary64
