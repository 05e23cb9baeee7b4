import TinyScript.Number.Binary64

/-!
# Rounding keeps the order

A number of units is rounded to a magnitude. More units are never rounded to a smaller one
(`roundedMagnitude_mono`), and the units of a magnitude are rounded to this magnitude
(`roundedMagnitude_units`). So an integer that is less than the number nearest to a natural number
is less than the natural number itself, although that may have been rounded up (`toNat_lt`).
-/

namespace TinyScript.Number

theorem natPow_pos {base : Nat} (h : 0 < base) (exponent : Nat) : 0 < Nat.pow base exponent :=
  Nat.pow_pos h

theorem unitsPerOne_pos : 0 < unitsPerOne := by
  unfold unitsPerOne
  generalize 1074 = places
  exact natPow_pos (by decide) places

/-! ## Rounding to a multiple -/

theorem roundDiv_mul (n : Nat) {d : Nat} (hd : 0 < d) : roundDiv (n * d) d = n := by
  unfold roundDiv
  dsimp only
  rw [Nat.mul_mod_left, Nat.mul_div_cancel n hd, if_pos (by omega)]

theorem roundDiv_le {num den bound : Nat} (h : num < bound * den) : roundDiv num den ≤ bound := by
  have hquotient : num / den < bound := Nat.div_lt_of_lt_mul (by rwa [Nat.mul_comm] at h)
  unfold roundDiv
  dsimp only
  repeat' split
  all_goals omega

theorem le_roundDiv {num den bound : Nat} (hden : 0 < den) (h : bound * den ≤ num) :
    bound ≤ roundDiv num den := by
  have hquotient : bound ≤ num / den := (Nat.le_div_iff_mul_le hden).2 h
  unfold roundDiv
  dsimp only
  repeat' split
  all_goals omega

theorem roundDiv_mono {num other : Nat} (h : num ≤ other) (den : Nat) :
    roundDiv num den ≤ roundDiv other den := by
  have hquotient : num / den ≤ other / den := Nat.div_le_div_right h
  have hremainder : num / den = other / den → num % den ≤ other % den := by
    intro hsame
    have hnum := Nat.div_add_mod num den
    have hother := Nat.div_add_mod other den
    rw [hsame] at hnum
    omega
  unfold roundDiv
  dsimp only
  repeat' split
  all_goals omega

/-! ## Significands -/

/-- How many places a number of units exceeds a significand by. -/
def excess (total : Nat) : Nat :=
  total.log2 - 52

/-- The significand to which a number of units is rounded. -/
def significand (total : Nat) : Nat :=
  roundDiv total (Nat.pow 2 (excess total))

/-- The magnitude to which a number of units is rounded. -/
def roundedMagnitude (total : Nat) : Nat :=
  excess total * Nat.pow 2 52 + significand total

theorem excess_mono {total other : Nat} (h : total ≤ other) : excess total ≤ excess other := by
  unfold excess
  by_cases hzero : total = 0
  · rw [hzero, Nat.log2_zero]
    omega
  · have hlog : total.log2 ≤ other.log2 :=
      (Nat.le_log2 (by omega)).2 (Nat.le_trans (Nat.log2_self_le hzero) h)
    omega

theorem lt_pow_excess (total : Nat) : total < Nat.pow 2 53 * Nat.pow 2 (excess total) := by
  rw [Nat.pow_eq, Nat.pow_eq, ← Nat.pow_add]
  refine Nat.lt_of_lt_of_le (Nat.lt_log2_self (n := total)) ?_
  apply Nat.pow_le_pow_right (by decide)
  unfold excess
  omega

theorem pow_excess_le {total : Nat} (h : 0 < excess total) :
    Nat.pow 2 52 * Nat.pow 2 (excess total) ≤ total := by
  have htotal : total ≠ 0 := by
    rintro rfl
    exact absurd h (by decide)
  have hlog : 52 + excess total = total.log2 := by
    unfold excess at h ⊢
    omega
  rw [Nat.pow_eq, Nat.pow_eq, ← Nat.pow_add, hlog]
  exact Nat.log2_self_le htotal

theorem significand_le (total : Nat) : significand total ≤ Nat.pow 2 53 :=
  roundDiv_le (lt_pow_excess total)

theorem le_significand {total : Nat} (h : 0 < excess total) :
    Nat.pow 2 52 ≤ significand total :=
  le_roundDiv (natPow_pos (by decide) _) (pow_excess_le h)

/-- More units are rounded to a magnitude that is not smaller. Where they exceed a significand by
more places, the fewer units carry at most into the binade of the others. -/
theorem roundedMagnitude_mono {total other : Nat} (h : total ≤ other) :
    roundedMagnitude total ≤ roundedMagnitude other := by
  unfold roundedMagnitude
  rcases Nat.lt_or_eq_of_le (excess_mono h) with hless | hsame
  · have hlow := significand_le total
    have hhigh := le_significand (Nat.zero_lt_of_lt hless)
    simp only [Nat.pow_eq] at *
    omega
  · rw [significand, significand, hsame]
    exact Nat.add_le_add_left (roundDiv_mono h _) _

/-! ## Units of a magnitude -/

theorem log2_mul_two_pow {n : Nat} (hn : n ≠ 0) (shift : Nat) :
    (n * Nat.pow 2 shift).log2 = n.log2 + shift := by
  rw [Nat.pow_eq]
  have hpos : 0 < 2 ^ shift := Nat.two_pow_pos shift
  have hlow := Nat.mul_le_mul_right (2 ^ shift) (Nat.log2_self_le hn)
  have hhigh := Nat.mul_lt_mul_of_pos_right (Nat.lt_log2_self (n := n)) hpos
  rw [← Nat.pow_add] at hlow hhigh
  rw [Nat.log2_eq_iff (Nat.mul_ne_zero hn (Nat.ne_of_gt hpos))]
  exact ⟨hlow, by rwa [Nat.add_right_comm]⟩

/-- The units are a significand of at most 53 bits, shifted. -/
theorem exists_significand (size : Nat) :
    ∃ significand shift, (units size).log2 - 52 = shift ∧
      units size = significand * Nat.pow 2 shift ∧
      shift * Nat.pow 2 52 + significand = size := by
  unfold units
  simp only [Nat.pow_eq]
  split
  · next hlow =>
      refine ⟨size, 0, ?_, by omega, by omega⟩
      by_cases hzero : size = 0
      · rw [hzero, Nat.log2_zero]
      · have := (Nat.log2_lt hzero).2 hlow
        omega
  · next hhigh =>
      have hsize := Nat.mod_add_div size (2 ^ 52)
      have hfraction := Nat.mod_lt size (show 2 ^ 52 > 0 by decide)
      obtain ⟨shift, hshift⟩ : ∃ shift, size / 2 ^ 52 = shift + 1 :=
        ⟨size / 2 ^ 52 - 1, by omega⟩
      have hne : size % 2 ^ 52 + 2 ^ 52 ≠ 0 := by omega
      have hleading : (size % 2 ^ 52 + 2 ^ 52).log2 = 52 :=
        (Nat.log2_eq_iff hne).2 ⟨by omega, by omega⟩
      rw [hshift, Nat.add_sub_cancel, ← @Nat.pow_eq 2 shift, log2_mul_two_pow hne, hleading]
      refine ⟨_, shift, by omega, rfl, by omega⟩

theorem roundedMagnitude_units (size : Nat) : roundedMagnitude (units size) = size := by
  obtain ⟨digits, shift, hshift, hunits, hsize⟩ := exists_significand size
  have hexcess : excess (units size) = shift := hshift
  rw [roundedMagnitude, significand, hexcess, hunits,
    roundDiv_mul _ (natPow_pos (by decide) shift), hsize]

/-- Magnitudes are in the order of their units. -/
theorem units_le_iff {size other : Nat} : units size ≤ units other ↔ size ≤ other := by
  constructor
  · intro h
    have hrounded := roundedMagnitude_mono h
    rwa [roundedMagnitude_units, roundedMagnitude_units] at hrounded
  · intro h
    apply Nat.le_of_not_lt
    intro hless
    have hrounded := roundedMagnitude_mono (Nat.le_of_lt hless)
    rw [roundedMagnitude_units, roundedMagnitude_units] at hrounded
    obtain rfl := Nat.le_antisymm h hrounded
    exact Nat.lt_irrefl _ hless

/-! ## Signs and magnitudes -/

theorem magnitude_ofMagnitude {size : Nat} (h : size < Nat.pow 2 63) :
    (ofMagnitude false size).magnitude = size := by
  unfold ofMagnitude magnitude
  simp only [Nat.pow_eq] at *
  rw [UInt64.toNat_ofNat']
  simp only [Bool.false_eq_true, if_false]
  omega

theorem isNegative_ofMagnitude {size : Nat} (h : size < Nat.pow 2 63) :
    (ofMagnitude false size).isNegative = false := by
  unfold ofMagnitude isNegative
  simp only [Nat.pow_eq] at *
  rw [UInt64.toNat_ofNat', decide_eq_false_iff_not]
  simp only [Bool.false_eq_true, if_false]
  omega

/-- A number is its sign and its magnitude. -/
theorem ofMagnitude_magnitude (x : Number) : ofMagnitude x.isNegative x.magnitude = x := by
  obtain ⟨bits⟩ := x
  have hlt := bits.toNat_lt
  have hbits : bits.toNat % 2 ^ 63 + (if 2 ^ 63 ≤ bits.toNat then 2 ^ 63 else 0) = bits.toNat := by
    split <;> omega
  unfold ofMagnitude isNegative magnitude
  simp only [Nat.pow_eq, decide_eq_true_eq]
  rw [hbits, UInt64.ofNat_toNat]

theorem nearest_one (n : Nat) :
    nearest n 1 = min (roundedMagnitude (n * unitsPerOne)) infinityMagnitude := by
  unfold nearest roundedMagnitude significand excess
  dsimp only
  rw [Nat.div_one, Nat.one_mul]

theorem nearest_lt (n : Nat) : nearest n 1 < Nat.pow 2 63 := by
  rw [nearest_one]
  exact Nat.lt_of_le_of_lt (Nat.min_le_right ..) (by decide)

@[simp] theorem isNegative_ofNat (n : Nat) : (ofNat n).isNegative = false :=
  isNegative_ofMagnitude (nearest_lt n)

theorem magnitude_ofNat (n : Nat) :
    (ofNat n).magnitude = min (roundedMagnitude (n * unitsPerOne)) infinityMagnitude :=
  (magnitude_ofMagnitude (nearest_lt n)).trans (nearest_one n)

theorem isNaN_iff {x : Number} : x.isNaN = true ↔ infinityMagnitude < x.magnitude := by
  rw [isNaN, decide_eq_true_iff]

@[simp] theorem isNaN_ofNat (n : Nat) : (ofNat n).isNaN = false := by
  rw [← Bool.not_eq_true, isNaN_iff, magnitude_ofNat]
  omega

/-! ## Integers below a natural number -/

/-- What is not a number counts nothing. -/
theorem isNaN_of_count {x : Number} (h : x.count ≠ .none) : x.isNaN = false := by
  rw [← Bool.not_eq_true]
  intro hnan
  exact h (if_pos hnan)

/-- What is not less than zero has no sign, or it is minus zero. -/
theorem sign_of_not_less {x : Number} (hnan : x.isNaN = false)
    (h : x.less (ofMagnitude false 0) = false) : x.isNegative = false ∨ x.magnitude = 0 := by
  have hzero : (ofMagnitude false 0).isNaN = false ∧ (ofMagnitude false 0).rank = 0 ∧
      (ofMagnitude false 0).magnitude = 0 := by decide
  cases hsign : x.isNegative with
  | false => exact .inl rfl
  | true =>
      right
      have hrank : x.rank < 0 := by
        rw [rank, if_pos hsign]
        omega
      simpa [less, hnan, hzero, hrank] using h

/-- Of the numbers that are not negative the lesser has the smaller magnitude. -/
theorem magnitude_lt_of_not_atMost {x y : Number} (hx : x.isNaN = false) (hy : y.isNaN = false)
    (hxsign : x.isNegative = false) (hysign : y.isNegative = false)
    (h : y.atMost x = false) : x.magnitude < y.magnitude := by
  rw [atMost, Bool.or_eq_false_iff, equals, hy] at h
  obtain ⟨hless, hne⟩ := h
  rcases Nat.lt_trichotomy x.magnitude y.magnitude with hlt | heq | hgt
  · exact hlt
  · have hsame : y = x := by
      rw [← ofMagnitude_magnitude y, ← ofMagnitude_magnitude x, hxsign, hysign, heq]
    simp [hsame] at hne
  · have hrank : y.rank < x.rank := by
      rw [rank, rank, if_neg (by simp [hysign]), if_neg (by simp [hxsign])]
      exact Int.ofNat_lt.2 hgt
    have hpos : x.magnitude ≠ 0 := Nat.ne_of_gt (Nat.zero_lt_of_lt hgt)
    simp [less, hx, hy, hrank, hpos] at hless

/-- A number that is not negative counts no more than its units are worth. -/
theorem toNat_mul_le (x : Number) : x.toNat * unitsPerOne ≤ units x.magnitude := by
  have hquotient := Nat.div_mul_le_self (units x.magnitude) unitsPerOne
  have hnegated := Int.toNat_neg_natCast (units x.magnitude / unitsPerOne)
  rw [Int.natCast_ediv] at hnegated
  unfold toNat count
  split
  · next n hn =>
      split at hn
      · cases hn
      · split at hn
        · cases hn
        · split at hn
          · obtain rfl := Count.integer.inj hn
            split
            · rw [hnegated, Nat.zero_mul]
              exact Nat.zero_le _
            · exact hquotient
          · cases hn
  all_goals simp

/-- An integer that is less than the number nearest to a natural number is less than the natural
number itself. -/
theorem toNat_lt {x : Number} {n : Nat} (hnan : x.isNaN = false)
    (hless : x.less (ofMagnitude false 0) = false) (hmost : (ofNat n).atMost x = false) :
    x.toNat < n := by
  have hunits := x.toNat_mul_le
  apply Nat.lt_of_not_le
  intro hle
  have hrounded := roundedMagnitude_mono
    (Nat.le_trans (Nat.mul_le_mul_right unitsPerOne hle) hunits)
  rw [roundedMagnitude_units] at hrounded
  have hsize : (ofNat n).magnitude ≤ x.magnitude := by
    rw [magnitude_ofNat]
    exact Nat.le_trans (Nat.min_le_left ..) hrounded
  rcases sign_of_not_less hnan hless with hsign | hzero
  · have hlt := magnitude_lt_of_not_atMost hnan (isNaN_ofNat n) hsign (isNegative_ofNat n) hmost
    exact Nat.not_lt_of_le hsize hlt
  · have hn : (ofNat n).magnitude = 0 := by omega
    simp [atMost, equals, hn, hzero] at hmost

end TinyScript.Number
