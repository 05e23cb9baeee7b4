import Mathlib.Algebra.Order.Field.Basic
import Mathlib.Algebra.Order.Field.Rat
import Mathlib.Algebra.Order.Ring.Abs
import Mathlib.Tactic.Ring
import TinyScript.Proofs.Number.Writing

/-!
# Exact quantities

A finite number stands for a rational quantity, `x.value`. The count of a number is this quantity if
it is an integer (`count_eq_integer_iff`). A natural number is rounded to the number that is nearest
to it (`isNearest_ofNat`), which is the natural number itself if its significand is short enough
(`value_ofNat`).
-/

namespace TinyScript.Number

/-! ## Quantities -/

def IsInfinite (x : Number) : Prop :=
  x.magnitude = infinityMagnitude

/-- The units of a finite number, with its sign. -/
def signedUnits (x : Number) : Int :=
  if x.isNegative then -(units x.magnitude : Int) else units x.magnitude

/-- The quantity that a finite number stands for. -/
def value (x : Number) : ℚ :=
  x.signedUnits / unitsPerOne

/-- The number is finite and lies between two integers. -/
def IsFractional (x : Number) : Prop :=
  x.IsFinite ∧ ∀ n : Int, x.value ≠ n

theorem value_eq_intCast_iff {x : Number} {n : Int} :
    x.value = n ↔ x.signedUnits = n * unitsPerOne := by
  have hne : (unitsPerOne : ℚ) ≠ 0 := Nat.cast_ne_zero.2 (Nat.ne_of_gt unitsPerOne_pos)
  rw [value, div_eq_iff hne]
  exact_mod_cast Iff.rfl

/-- Both zeros are nothing. -/
theorem value_of_magnitude_eq_zero {x : Number} (h : x.magnitude = 0) : x.value = 0 := by
  rw [← Int.cast_zero, value_eq_intCast_iff, Int.zero_mul, signedUnits, h]
  split <;> rfl

theorem natAbs_signedUnits (x : Number) : x.signedUnits.natAbs = units x.magnitude := by
  unfold signedUnits
  split <;> omega

theorem signedUnits_of_nonnegative {x : Number} (h : x.isNegative = false) :
    x.signedUnits = units x.magnitude := by
  simp [signedUnits, h]

theorem IsFinite.not_isNaN {x : Number} (h : x.IsFinite) : ¬ x.isNaN = true := by
  rw [isNaN_iff]
  exact Nat.lt_asymm h

theorem IsFinite.of_magnitude_eq_zero {x : Number} (h : x.magnitude = 0) : x.IsFinite := by
  rw [IsFinite, h]
  decide

theorem IsInfinite.not_isNaN {x : Number} (h : x.IsInfinite) : ¬ x.isNaN = true := by
  rw [isNaN_iff, h]
  exact Nat.lt_irrefl _

theorem isNaN_or_isInfinite_or_isFinite (x : Number) :
    x.isNaN = true ∨ x.IsInfinite ∨ x.IsFinite := by
  rw [isNaN_iff, IsInfinite, IsFinite]
  omega

/-! ## Counts -/

theorem count_of_isInfinite {x : Number} (h : x.IsInfinite) : x.count = .infinite := by
  rw [count, if_neg h.not_isNaN, if_pos (show x.magnitude = infinityMagnitude from h)]

/-- The units of a finite number are divided by those of one, if they can be. -/
theorem count_of_isFinite {x : Number} (h : x.IsFinite) :
    x.count =
      if (unitsPerOne : Int) ∣ x.signedUnits then .integer (x.signedUnits / unitsPerOne)
      else .none := by
  have hdvd : (unitsPerOne : Int) ∣ x.signedUnits ↔ units x.magnitude % unitsPerOne = 0 := by
    rw [← Nat.dvd_iff_mod_eq_zero, ← natAbs_signedUnits, Int.natCast_dvd]
  rw [count, if_neg h.not_isNaN, if_neg (Nat.ne_of_lt h)]
  by_cases hunits : units x.magnitude % unitsPerOne = 0
  · rw [if_pos hunits, if_pos (hdvd.2 hunits)]
    cases hsign : x.isNegative with
    | false => simp only [signedUnits_of_nonnegative hsign, Bool.false_eq_true, if_false]
    | true =>
        have hdiv : (unitsPerOne : Int) ∣ units x.magnitude :=
          Int.natCast_dvd_natCast.2 (Nat.dvd_of_mod_eq_zero hunits)
        simp only [signedUnits, hsign, if_true, Int.neg_ediv_of_dvd hdiv]
  · rw [if_neg hunits, if_neg fun h => hunits (hdvd.1 h)]

/-- What a number counts is its quantity. -/
theorem count_eq_integer_iff {x : Number} {n : Int} :
    x.count = .integer n ↔ x.IsFinite ∧ x.value = n := by
  rcases x.isNaN_or_isInfinite_or_isFinite with hnan | hinfinite | hfinite
  · have hnot : ¬ x.IsFinite := fun h => h.not_isNaN hnan
    simp [count, hnan, hnot]
  · have hnot : ¬ x.IsFinite := fun h => Nat.ne_of_lt h hinfinite
    simp [count_of_isInfinite hinfinite, hnot]
  · have hpos : (unitsPerOne : Int) ≠ 0 := Int.natCast_ne_zero.2 (Nat.ne_of_gt unitsPerOne_pos)
    rw [count_of_isFinite hfinite, value_eq_intCast_iff]
    constructor
    · intro h
      split at h
      · next hdvd =>
          cases h
          exact ⟨hfinite, (Int.ediv_mul_cancel hdvd).symm⟩
      · cases h
    · rintro ⟨-, hunits⟩
      rw [if_pos (hunits ▸ Int.dvd_mul_left ..), hunits, Int.mul_ediv_cancel _ hpos]

theorem count_eq_infinite_iff {x : Number} : x.count = .infinite ↔ x.IsInfinite := by
  refine ⟨fun h => ?_, count_of_isInfinite⟩
  rcases x.isNaN_or_isInfinite_or_isFinite with hnan | hinfinite | hfinite
  · simp [count, hnan] at h
  · exact hinfinite
  · rw [count_of_isFinite hfinite] at h
    split at h <;> cases h

theorem count_eq_none_iff {x : Number} :
    x.count = .none ↔ x.isNaN = true ∨ x.IsFractional := by
  constructor
  · intro h
    rcases x.isNaN_or_isInfinite_or_isFinite with hnan | hinfinite | hfinite
    · exact .inl hnan
    · rw [count_of_isInfinite hinfinite] at h
      cases h
    · refine .inr ⟨hfinite, fun n hn => ?_⟩
      rw [count_eq_integer_iff.2 ⟨hfinite, hn⟩] at h
      cases h
  · rintro (hnan | ⟨hfinite, hvalue⟩)
    · rw [count, if_pos hnan]
    · rcases hcount : x.count with n | _ | _
      · exact absurd (count_eq_integer_iff.1 hcount).2 (hvalue n)
      · exact absurd (count_eq_infinite_iff.1 hcount) (Nat.ne_of_lt hfinite)
      · rfl

/-! ## Order -/

/-- Numbers are in the order of their quantities, infinity above all others. -/
theorem less_iff {x y : Number} (hx : x.isNaN = false) (hy : y.isNaN = false) :
    x.less y = true ↔ x.value < y.value := by
  have hpos : (0 : ℚ) < unitsPerOne := Nat.cast_pos.2 unitsPerOne_pos
  have hsizes := @units_le_iff y.magnitude x.magnitude
  have hothers := @units_le_iff x.magnitude y.magnitude
  have hfirst := @units_le_iff x.magnitude 0
  have hsecond := @units_le_iff y.magnitude 0
  rw [value, value, div_lt_div_iff_of_pos_right hpos, Int.cast_lt]
  rw [show units 0 = 0 from rfl] at hfirst hsecond
  unfold less rank signedUnits
  simp only [hx, hy, Bool.not_false, Bool.true_and, Bool.and_eq_true, decide_eq_true_eq,
    Bool.not_eq_true', Bool.and_eq_false_iff, decide_eq_false_iff_not]
  split <;> split <;> omega

/-- Numbers that stand for the same quantity are equal, though they may be the two zeros. -/
theorem equals_iff {x y : Number} (hx : x.isNaN = false) :
    x.equals y = true ↔ x.value = y.value := by
  have hne : (unitsPerOne : ℚ) ≠ 0 := Nat.cast_ne_zero.2 (Nat.ne_of_gt unitsPerOne_pos)
  have hfirst := @units_le_iff x.magnitude 0
  have hsizes := @units_le_iff y.magnitude x.magnitude
  have hothers := @units_le_iff x.magnitude y.magnitude
  have hsame : x.isNegative = y.isNegative → x.magnitude = y.magnitude → x = y := by
    intro hsign hsize
    rw [← ofMagnitude_magnitude x, ← ofMagnitude_magnitude y, hsign, hsize]
  rw [value, value, div_left_inj' hne, Int.cast_inj, equals, hx]
  rw [show units 0 = 0 from rfl] at hfirst
  simp only [Bool.not_false, Bool.true_and, Bool.or_eq_true, Bool.and_eq_true, decide_eq_true_eq]
  constructor
  · rintro (rfl | ⟨hxzero, hyzero⟩)
    · rfl
    · rw [signedUnits, signedUnits, hxzero, hyzero]
      split <;> split <;> rfl
  · unfold signedUnits
    cases hxsign : x.isNegative <;> cases hysign : y.isNegative <;>
      simp only [hxsign, hysign, Bool.false_eq_true, if_true, if_false, forall_true_left,
        reduceCtorEq] at hsame ⊢ <;> intro hunits
    · exact .inl (hsame (by omega))
    · exact .inr (by omega)
    · exact .inr (by omega)
    · exact .inl (hsame (by omega))

theorem atMost_iff {x y : Number} (hx : x.isNaN = false) (hy : y.isNaN = false) :
    x.atMost y = true ↔ x.value ≤ y.value := by
  rw [atMost, Bool.or_eq_true, less_iff hx hy, equals_iff hx, le_iff_lt_or_eq]

/-- Infinity is no less than a natural number, however large. -/
theorem IsInfinite.value_cases {x : Number} (h : x.IsInfinite) :
    x.value < 0 ∨ ∀ n : Nat, (ofNat n).value ≤ x.value := by
  have hpos : (0 : ℚ) < unitsPerOne := Nat.cast_pos.2 unitsPerOne_pos
  have hsize : x.magnitude = infinityMagnitude := h
  cases hsign : x.isNegative with
  | true =>
      have hunits : 0 < units x.magnitude := by
        rw [hsize]
        exact units_pos (by decide)
      left
      rw [value, signedUnits, if_pos hsign]
      exact div_neg_of_neg_of_pos (by exact_mod_cast Int.neg_neg_of_pos (by omega)) hpos
  | false =>
      right
      intro n
      rw [value, value, div_le_div_iff_of_pos_right hpos, Int.cast_le,
        signedUnits_of_nonnegative hsign, signedUnits_of_nonnegative (isNegative_ofNat n),
        Int.ofNat_le, units_le_iff, hsize, magnitude_ofNat]
      exact Nat.min_le_right ..

/-! ## Rounding to a multiple -/

/-- The quotient is rounded down or up as the remainder is less or more than a half, and to the even
neighbour if it is one half. -/
theorem roundDiv_cases (num den : Nat) :
    roundDiv num den = num / den ∧ 2 * (num % den) < den ∨
      roundDiv num den = num / den + 1 ∧ den < 2 * (num % den) ∨
      2 * (num % den) = den ∧ roundDiv num den % 2 = 0 ∧
        (roundDiv num den = num / den ∨ roundDiv num den = num / den + 1) := by
  unfold roundDiv
  dsimp only
  split_ifs <;> omega

/-- Where a multiple stands to the one given by a quotient, and to the next behind it. -/
theorem multiple_cases (den quotient other : Nat) :
    other = quotient ∨ other = quotient + 1 ∨
      other * den + den ≤ quotient * den ∨ quotient * den + 2 * den ≤ other * den := by
  rcases lt_trichotomy other quotient with hless | heq | hmore
  · have hmul := Nat.mul_le_mul_right den (Nat.succ_le_of_lt hless)
    rw [Nat.succ_mul] at hmul
    exact .inr (.inr (.inl hmul))
  · exact .inl heq
  · rcases Nat.lt_or_eq_of_le (Nat.succ_le_of_lt hmore) with hmore | heq
    · have hmul := Nat.mul_le_mul_right den (Nat.succ_le_of_lt hmore)
      rw [Nat.succ_mul, Nat.succ_mul] at hmul
      omega
    · exact .inr (.inl heq.symm)

/-- Of the multiples of the divisor the rounded one is nearest, and of two that are equally near it
is the even one. -/
theorem roundDiv_nearest {num den : Nat} (hden : 0 < den) {other : Nat}
    (hother : other ≠ roundDiv num den) :
    |((roundDiv num den * den : Nat) : Int) - num| < |((other * den : Nat) : Int) - num| ∨
      |((roundDiv num den * den : Nat) : Int) - num| = |((other * den : Nat) : Int) - num| ∧
        roundDiv num den % 2 = 0 := by
  have hnum := Nat.div_add_mod' num den
  have hremainder := Nat.mod_lt num hden
  have hround := roundDiv_cases num den
  have hmultiple := multiple_cases den (num / den) other
  generalize roundDiv num den = rounded at *
  generalize num / den = quotient at *
  have hsame {n : Nat} : n = quotient → n * den = quotient * den := by rintro rfl; rfl
  have hnext {n : Nat} : n = quotient + 1 → n * den = quotient * den + den := by
    rintro rfl
    exact Nat.succ_mul ..
  have hroundSame := @hsame rounded
  have hroundNext := @hnext rounded
  have hotherSame := @hsame other
  have hotherNext := @hnext other
  rcases abs_cases (((rounded * den : Nat) : Int) - num) with hfirst | hfirst <;>
    rcases abs_cases (((other * den : Nat) : Int) - num) with hsecond | hsecond <;> omega

/-! ## Rounding to a number -/

/-- A significand and a shift make up a magnitude, also where rounding has carried. -/
theorem units_of_significand {digits shift : Nat} (hle : digits ≤ Nat.pow 2 53)
    (hge : 0 < shift → Nat.pow 2 52 ≤ digits) :
    units (shift * Nat.pow 2 52 + digits) = digits * Nat.pow 2 shift := by
  unfold units
  simp only [Nat.pow_eq] at *
  rcases Nat.lt_or_ge digits (2 ^ 52) with hsmall | hlarge
  · obtain rfl : shift = 0 := by omega
    rw [if_pos (by omega)]
    omega
  · rw [if_neg (by omega)]
    rcases Nat.lt_or_eq_of_le hle with hlt | rfl
    · have hshift : (shift * 2 ^ 52 + digits) / 2 ^ 52 - 1 = shift := by omega
      have hdigits : (shift * 2 ^ 52 + digits) % 2 ^ 52 + 2 ^ 52 = digits := by omega
      rw [hshift, hdigits]
    · have hshift : (shift * 2 ^ 52 + 2 ^ 53) / 2 ^ 52 - 1 = shift + 1 := by omega
      have hdigits : (shift * 2 ^ 52 + 2 ^ 53) % 2 ^ 52 + 2 ^ 52 = 2 ^ 52 := by omega
      rw [hshift, hdigits, Nat.pow_succ]
      omega

/-- Units of a magnitude are a multiple of what is rounded to, or they are below all that needs
rounding. -/
theorem units_cases (size total : Nat) :
    (∃ other, units size = other * Nat.pow 2 (excess total)) ∨
      0 < excess total ∧ units size < Nat.pow 2 52 * Nat.pow 2 (excess total) := by
  obtain ⟨digits, shift, hshift, hunits, -⟩ := exists_significand size
  rcases Nat.lt_or_ge shift (excess total) with hless | hmore
  · right
    refine ⟨by omega, lt_of_lt_of_le (lt_pow_excess (units size)) ?_⟩
    have hexcess : excess (units size) = shift := hshift
    rw [hexcess, Nat.pow_eq, Nat.pow_eq, Nat.pow_eq, Nat.pow_eq, ← Nat.pow_add, ← Nat.pow_add]
    exact Nat.pow_le_pow_right (by decide) (by omega)
  · left
    obtain ⟨more, rfl⟩ := Nat.exists_eq_add_of_le' hmore
    refine ⟨digits * Nat.pow 2 more, ?_⟩
    rw [hunits, Nat.pow_eq, Nat.pow_eq, Nat.pow_eq, Nat.pow_add, Nat.mul_assoc]

/-- No number is nearer to a number of units than the one it is rounded to, and one that is as near
leaves it an even significand. -/
theorem significand_nearest (total : Nat) {size : Nat}
    (hsize : units size ≠ significand total * Nat.pow 2 (excess total)) :
    |((significand total * Nat.pow 2 (excess total) : Nat) : Int) - total| <
        |(units size : Int) - total| ∨
      |((significand total * Nat.pow 2 (excess total) : Nat) : Int) - total| =
          |(units size : Int) - total| ∧ significand total % 2 = 0 := by
  have hpos : 0 < Nat.pow 2 (excess total) := natPow_pos (by decide) _
  rcases units_cases size total with ⟨other, hother⟩ | ⟨hexcess, hbelow⟩
  · rw [hother]
    apply roundDiv_nearest hpos
    rintro rfl
    exact hsize hother
  · -- The least significand lies between, and the number is at least as near as that one.
    left
    have hleast := pow_excess_le hexcess
    have hnear : |((significand total * Nat.pow 2 (excess total) : Nat) : Int) - total| ≤
        |((Nat.pow 2 52 * Nat.pow 2 (excess total) : Nat) : Int) - total| := by
      by_cases heq : Nat.pow 2 52 = significand total
      · rw [heq]
      · rcases roundDiv_nearest hpos heq with hless | ⟨hsame, -⟩
        · exact hless.le
        · exact hsame.le
    refine lt_of_le_of_lt hnear ?_
    rw [abs_of_nonpos (by omega), abs_of_nonpos (by omega)]
    omega

/-! ## Natural numbers -/

theorem log2_units {n : Nat} (hn : n ≠ 0) : (n * unitsPerOne).log2 = n.log2 + 1074 := by
  unfold unitsPerOne
  generalize 1074 = places
  exact log2_mul_two_pow hn places

/-- A natural number of up to 1023 binary digits does not exceed the finite numbers. -/
theorem excess_le {n : Nat} (h : n.log2 ≤ 1022) : excess (n * unitsPerOne) ≤ 2044 := by
  by_cases hn : n = 0
  · rw [hn, Nat.zero_mul]
    decide
  · rw [excess, log2_units hn]
    omega

/-- The units of a natural number, rounded. -/
def roundedUnits (n : Nat) : Nat :=
  significand (n * unitsPerOne) * Nat.pow 2 (excess (n * unitsPerOne))

section

variable {n : Nat}

/-- No natural number of that size is rounded to infinity. -/
theorem magnitude_ofNat_of_log2_le (h : n.log2 ≤ 1022) :
    (ofNat n).magnitude = roundedMagnitude (n * unitsPerOne) ∧ (ofNat n).IsFinite := by
  have hexcess := excess_le h
  have hsignificand := significand_le (n * unitsPerOne)
  have hfinite : roundedMagnitude (n * unitsPerOne) < infinityMagnitude := by
    unfold roundedMagnitude infinityMagnitude
    simp only [Nat.pow_eq] at *
    omega
  have hmagnitude : (ofNat n).magnitude = roundedMagnitude (n * unitsPerOne) := by
    rw [magnitude_ofNat, Nat.min_eq_left hfinite.le]
  exact ⟨hmagnitude, lt_of_eq_of_lt hmagnitude hfinite⟩

theorem isFinite_ofNat (h : n.log2 ≤ 1022) : (ofNat n).IsFinite :=
  (magnitude_ofNat_of_log2_le h).2

theorem signedUnits_ofNat (h : n.log2 ≤ 1022) : (ofNat n).signedUnits = roundedUnits n := by
  have hunits := units_of_significand (significand_le (n * unitsPerOne))
    (@le_significand (n * unitsPerOne))
  rw [signedUnits_of_nonnegative (isNegative_ofNat n), (magnitude_ofNat_of_log2_le h).1,
    roundedMagnitude, hunits, roundedUnits]

/-- Rounding changes nothing if the binary digits of the number behind the first 53 are zeros. -/
theorem value_ofNat (h : n.log2 ≤ 1022) (hdigits : Nat.pow 2 (n.log2 - 52) ∣ n) :
    (ofNat n).value = n := by
  have hdvd : Nat.pow 2 (excess (n * unitsPerOne)) ∣ n * unitsPerOne := by
    by_cases hn : n = 0
    · rw [hn, Nat.zero_mul]
      exact Nat.dvd_zero _
    · refine Nat.dvd_trans ?_ (Nat.mul_dvd_mul_right hdigits unitsPerOne)
      rw [excess, log2_units hn]
      unfold unitsPerOne
      generalize 1074 = places
      rw [Nat.pow_eq, Nat.pow_eq, Nat.pow_eq, ← Nat.pow_add]
      exact Nat.pow_dvd_pow 2 (by omega)
  have hunits : roundedUnits n = n * unitsPerOne := by
    obtain ⟨digits, htotal⟩ := hdvd
    have hsignificand : significand (n * unitsPerOne) = digits := by
      have hpos : 0 < Nat.pow 2 (excess (n * unitsPerOne)) := natPow_pos (by decide) _
      rw [significand, ← roundDiv_mul digits hpos, Nat.mul_comm digits, ← htotal]
    rw [roundedUnits, hsignificand, Nat.mul_comm]
    exact htotal.symm
  have hcast : (ofNat n).value = ((n : Int) : ℚ) := by
    rw [value_eq_intCast_iff, signedUnits_ofNat h, hunits, Int.natCast_mul]
  rw [hcast, Int.cast_natCast]

theorem value_ofNat_of_le (h : n ≤ 2 ^ 53) : (ofNat n).value = n := by
  have hlog : n.log2 < 54 := by
    by_cases hn : n = 0
    · rw [hn]
      decide
    · rw [Nat.log2_lt hn]
      omega
  refine value_ofNat (by omega) ?_
  rcases Nat.lt_or_eq_of_le h with hlt | rfl
  · have hzero : n.log2 - 52 = 0 := by
      by_cases hn : n = 0
      · rw [hn, Nat.log2_zero]
      · have := (Nat.log2_lt hn).2 hlt
        omega
    rw [hzero]
    exact Nat.one_dvd n
  · rw [Nat.log2_two_pow]
    exact ⟨2 ^ 52, by decide⟩

end

/-- Of all finite numbers this one is nearest to the quantity, and of two that are equally near it
is the one with an even significand. -/
structure IsNearest (x : Number) (quantity : ℚ) : Prop where
  finite : x.IsFinite
  least {y : Number} (hy : y.IsFinite) : |x.value - quantity| ≤ |y.value - quantity|
  even {y : Number} (hy : y.IsFinite) (hne : y.value ≠ x.value)
    (htie : |y.value - quantity| = |x.value - quantity|) : x.magnitude % 2 = 0

/-- A quantity for which there is a number is nearest to that number. -/
theorem IsNearest.value_eq {x y : Number} {quantity : ℚ} (h : x.IsNearest quantity)
    (hy : y.IsFinite) (hvalue : y.value = quantity) : x.value = quantity := by
  have hleast := h.least hy
  rw [hvalue, sub_self, abs_zero] at hleast
  exact sub_eq_zero.1 (abs_nonpos_iff.1 hleast)

/-- The distance from a natural number, counted in units. -/
theorem abs_value_sub (x : Number) (n : Nat) :
    |x.value - n| = ((|x.signedUnits - (n * unitsPerOne : Nat)| : Int) : ℚ) / unitsPerOne := by
  have hpos : (0 : ℚ) < unitsPerOne := Nat.cast_pos.2 unitsPerOne_pos
  have hsub : x.value - n = ((x.signedUnits - (n * unitsPerOne : Nat) : Int) : ℚ) / unitsPerOne := by
    rw [value, Int.cast_sub, sub_div, Int.cast_natCast, Nat.cast_mul,
      mul_div_cancel_right₀ _ hpos.ne']
  rw [hsub, abs_div, abs_of_pos hpos, Int.cast_abs]

/-- No number is nearer to a natural number, in units, than the one that it is rounded to. -/
theorem roundedUnits_nearest (n : Nat) {y : Number} (hy : y.signedUnits ≠ roundedUnits n) :
    |(roundedUnits n : Int) - (n * unitsPerOne : Nat)| <
        |y.signedUnits - (n * unitsPerOne : Nat)| ∨
      |(roundedUnits n : Int) - (n * unitsPerOne : Nat)| =
          |y.signedUnits - (n * unitsPerOne : Nat)| ∧ significand (n * unitsPerOne) % 2 = 0 := by
  have hnearest := @significand_nearest (n * unitsPerOne) y.magnitude
  have hzero := @significand_nearest (n * unitsPerOne) 0
  have hunits := y.natAbs_signedUnits
  rw [← roundedUnits] at hnearest hzero
  rw [show units 0 = 0 from rfl] at hzero
  generalize units y.magnitude = size at *
  generalize n * unitsPerOne = total at *
  generalize roundedUnits n = rounded at *
  -- A negative number is farther away than its absolute value.
  have hfarther : |(size : Int) - total| ≤ |y.signedUnits - total| := by
    rcases abs_cases ((size : Int) - total) with h | h <;>
      rcases abs_cases (y.signedUnits - total) with h' | h' <;> omega
  by_cases hsize : size = rounded
  · -- Then it is the opposite of the rounded number.
    left
    rcases Nat.eq_zero_or_pos total with rfl | htotal
    · have hrounded : rounded = 0 := by
        by_contra hne
        have hpos : (0 : Int) < |(rounded : Int) - (0 : Nat)| := abs_pos.2 (by omega)
        rcases hzero (Ne.symm hne) with hless | ⟨hsame, -⟩
        · rw [sub_self, abs_zero] at hless
          omega
        · rw [sub_self, abs_zero] at hsame
          omega
      omega
    · rcases abs_cases ((rounded : Int) - total) with h | h <;>
        rcases abs_cases (y.signedUnits - total) with h' | h' <;> omega
  · rcases hnearest hsize with hless | ⟨hsame, heven⟩
    · exact .inl (hless.trans_le hfarther)
    · rcases hfarther.lt_or_eq with hless | heq
      · exact .inl (hsame.trans_lt hless)
      · exact .inr ⟨hsame.trans heq, heven⟩

/-- A natural number is rounded to the number that is nearest to it. -/
theorem isNearest_ofNat {n : Nat} (h : n.log2 ≤ 1022) : (ofNat n).IsNearest n where
  finite := isFinite_ofNat h
  least {y} _ := by
    have hpos : (0 : ℚ) < unitsPerOne := Nat.cast_pos.2 unitsPerOne_pos
    rw [abs_value_sub, abs_value_sub, div_le_div_iff_of_pos_right hpos, Int.cast_le,
      signedUnits_ofNat h]
    by_cases heq : y.signedUnits = roundedUnits n
    · rw [heq]
    · rcases roundedUnits_nearest n heq with hless | ⟨hsame, -⟩
      · exact hless.le
      · exact hsame.le
  even {y} _ hne htie := by
    have hpos : (0 : ℚ) < unitsPerOne := Nat.cast_pos.2 unitsPerOne_pos
    have hunits : y.signedUnits ≠ roundedUnits n := by
      rw [← signedUnits_ofNat h]
      intro heq
      exact hne (by rw [value, value, heq])
    rw [abs_value_sub, abs_value_sub, div_left_inj' hpos.ne', Int.cast_inj,
      signedUnits_ofNat h] at htie
    rcases roundedUnits_nearest n hunits with hless | ⟨-, heven⟩
    · exact absurd htie hless.ne'
    · rw [(magnitude_ofNat_of_log2_le h).1, roundedMagnitude]
      simp only [Nat.pow_eq]
      omega

end TinyScript.Number
