import TinyScript.Number.Rounding
import TinyScript.Proofs.Token.Literals

/-!
# Texts of numbers

The text of a finite number is a numeral that denotes the number (`exists_numeral_numberText`). All
that the search for few digits adds is checked on the way, so what is left to show is that the
finest grid holds the number itself: a quotient that is exactly a finite number is not rounded.
-/

namespace TinyScript.Number

/-! ## Quotients that need no rounding -/

/-- A quotient that is exactly a finite number is nearest to that number. -/
theorem nearest_eq {num den size : Nat} (hden : 0 < den) (hfinite : size ≤ infinityMagnitude)
    (hexact : num * unitsPerOne = units size * den) : nearest num den = size := by
  obtain ⟨significand, shift, hshift, hunits, hsize⟩ := exists_significand size
  have hscaled : units size * den = significand * (den * Nat.pow 2 shift) := by
    rw [hunits, Nat.mul_assoc, Nat.mul_comm den]
  unfold nearest
  dsimp only
  rw [hexact, Nat.mul_div_cancel _ hden, hshift, hscaled,
    roundDiv_mul _ (Nat.mul_pos hden (natPow_pos (by decide) shift)), hsize,
    Nat.min_eq_left hfinite]

theorem units_pos {size : Nat} (h : 0 < size) : 0 < units size := by
  unfold units
  split
  · exact h
  · apply Nat.mul_pos
    · exact Nat.add_pos_right _ (natPow_pos (by decide) 52)
    · exact natPow_pos (by decide) _

namespace Decimal

variable {size : Nat}

theorem steps_ne_zero (h : 0 < size) : units size * stepsPerUnit ≠ 0 := by
  unfold stepsPerUnit
  -- With the number of places unknown no power is computed.
  generalize 1074 = places
  exact Nat.ne_of_gt (Nat.mul_pos (units_pos h) (natPow_pos (by decide) places))

theorem le_log2_steps (h : 0 < size) : 1074 ≤ (units size * stepsPerUnit).log2 := by
  rw [Nat.le_log2 (steps_ne_zero h)]
  unfold stepsPerUnit
  generalize 1074 = places
  calc
    2 ^ places ≤ Nat.pow 5 places := Nat.pow_le_pow_left (by decide) places
    _ ≤ units size * Nat.pow 5 places := Nat.le_mul_of_pos_left _ (units_pos h)

theorem steps_mul_unitsPerOne :
    units size * stepsPerUnit * unitsPerOne = units size * Nat.pow 10 1074 := by
  unfold stepsPerUnit unitsPerOne
  generalize 1074 = places
  rw [Nat.mul_assoc, Nat.pow_eq, Nat.pow_eq, Nat.pow_eq, ← Nat.mul_pow]

/-- On the finest grid the number itself is found. -/
theorem magnitude_finest (hpos : 0 < size) (hfinite : size ≤ infinityMagnitude) :
    (⟨units size * stepsPerUnit, -1074⟩ : Decimal).magnitude = size := by
  have hlog := le_log2_steps hpos
  have hplaces : (-(-1074 : Int)).toNat = 1074 := rfl
  unfold magnitude
  dsimp only
  rw [if_neg (steps_ne_zero hpos), if_neg (by decide), if_neg (by omega), if_neg (by decide),
    hplaces]
  have hexact := @steps_mul_unitsPerOne size
  have hden : ∀ places, 0 < Nat.pow 10 places := natPow_pos (by decide)
  generalize 1074 = places at hexact ⊢
  exact nearest_eq (hden places) hfinite hexact

theorem magnitude_of_onGrid? {place : Nat} {decimal : Decimal}
    (h : onGrid? size place = some decimal) : decimal.magnitude = size := by
  unfold onGrid? at h
  dsimp only at h
  generalize (if 2 * (units size * stepsPerUnit % Nat.pow 10 place) < Nat.pow 10 place then _
    else _ : Decimal) = nearer at h
  generalize (if 2 * (units size * stepsPerUnit % Nat.pow 10 place) < Nat.pow 10 place then _
    else _ : Decimal) = farther at h
  split at h
  · next hnearer =>
      cases h
      exact hnearer
  · split at h
    · next hfarther =>
        cases h
        exact hfarther
    · cases h

/-- On whatever grid the search starts, it finds a decimal that is read as the number. -/
theorem magnitude_onGridsFrom (hpos : 0 < size) (hfinite : size ≤ infinityMagnitude)
    (place : Nat) : (onGridsFrom size place).magnitude = size := by
  induction place with
  | zero => exact magnitude_finest hpos hfinite
  | succ place ih =>
      rw [onGridsFrom]
      cases hgrid : onGrid? size (place + 1) with
      | none => exact ih
      | some decimal => exact magnitude_of_onGrid? hgrid

theorem magnitude_shortest (hpos : 0 < size) (hfinite : size ≤ infinityMagnitude) :
    (shortest size).magnitude = size :=
  magnitude_onGridsFrom hpos hfinite _

end Decimal

/-! ## Positional texts -/

namespace Numeral

variable {whole fraction : List Char}

theorem takeWhile_of_all {digits : List Char} (h : digits.all Char.isDigit = true) :
    digits.takeWhile Char.isDigit = digits ∧ digits.dropWhile Char.isDigit = [] := by
  have hsplit := @takeWhile_digits digits [] h nofun
  rwa [List.append_nil] at hsplit

theorem readUnsigned?_whole (negative : Bool) (h : IsDigits whole) :
    readUnsigned? negative whole = some ⟨negative, whole, [], 0⟩ := by
  obtain ⟨htake, hdrop⟩ := takeWhile_of_all h.2
  unfold readUnsigned?
  rw [htake, hdrop, if_neg h.1]
  rfl

theorem readUnsigned?_fraction (negative : Bool) (hwhole : IsDigits whole)
    (hfraction : fraction.all Char.isDigit = true) :
    readUnsigned? negative (whole ++ '.' :: fraction) = some ⟨negative, whole, fraction, 0⟩ := by
  have hpoint : ∀ c ∈ ('.' :: fraction).head?, c.isDigit = false := by
    rintro c ⟨⟩
    decide
  obtain ⟨htake, hdrop⟩ := takeWhile_digits hwhole.2 hpoint
  obtain ⟨htail, hend⟩ := takeWhile_of_all hfraction
  unfold readUnsigned?
  rw [htake, hdrop, if_neg hwhole.1]
  simp only [htail, hend]
  rfl

end Numeral

theorem isDigits_toDigits (n : Nat) : Numeral.IsDigits (Nat.toDigits 10 n) := by
  refine ⟨Nat.toDigits_ne_nil, List.all_eq_true.2 fun c hc => ?_⟩
  exact Nat.isDigit_of_mem_toDigits (by decide) (by decide) hc

theorem all_replicate_zero (n : Nat) : (List.replicate n '0').all Char.isDigit = true := by
  rw [List.all_replicate]
  split <;> decide

namespace Decimal

theorem magnitude_natCast {digits zeros : Nat} (hdigits : digits ≠ 0) (hzeros : zeros ≤ 400) :
    (⟨digits, zeros⟩ : Decimal).magnitude = nearest (digits * Nat.pow 10 zeros) 1 := by
  have hnonneg : (0 : Int) ≤ zeros := Int.natCast_nonneg zeros
  unfold magnitude
  dsimp only
  rw [if_neg hdigits, if_neg (by omega), if_neg (by omega), if_pos hnonneg, Int.toNat_natCast]

/-- Zeros at the end stand for a positive exponent, since no exponent of a finite number is out of
bounds. -/
theorem magnitude_append_zeros {digits zeros : Nat}
    (hfinite : (⟨digits, zeros⟩ : Decimal).magnitude < infinityMagnitude) :
    (⟨digits * Nat.pow 10 zeros, 0⟩ : Decimal).magnitude =
      (⟨digits, zeros⟩ : Decimal).magnitude := by
  by_cases hzero : digits = 0
  · subst hzero
    rw [Nat.zero_mul, magnitude, magnitude, if_pos rfl, if_pos rfl]
  · have hbound : zeros ≤ 400 := by
      by_contra hlarge
      rw [magnitude, if_neg hzero, if_pos (by dsimp only; omega)] at hfinite
      exact Nat.lt_irrefl _ hfinite
    have hne : digits * Nat.pow 10 zeros ≠ 0 :=
      Nat.mul_ne_zero hzero (Nat.ne_of_gt (natPow_pos (by decide) zeros))
    have hwhole := magnitude_natCast hne (Nat.zero_le 400)
    rw [@Nat.pow_eq 10 0, Nat.pow_zero, Nat.mul_one] at hwhole
    exact hwhole.trans (magnitude_natCast hzero hbound).symm

/-- Digits without a point, with a zero for each power of ten. -/
theorem exists_numeral_of_nonneg {decimal : Decimal} (negative : Bool)
    (hexponent : 0 ≤ decimal.exponent) (hfinite : decimal.magnitude < infinityMagnitude) :
    ∃ numeral, Numeral.readUnsigned? negative decimal.text.toList = some numeral ∧
      numeral.toNumber = ofMagnitude negative decimal.magnitude := by
  obtain ⟨digits, exponent⟩ := decimal
  obtain ⟨zeros, rfl⟩ := Int.eq_ofNat_of_zero_le hexponent
  have htext : (text ⟨digits, zeros⟩).toList = Nat.toDigits 10 digits ++ .replicate zeros '0' := by
    unfold text
    dsimp only
    rw [if_pos hexponent, Int.toNat_natCast, String.toList_ofList]
  have hdigits : Numeral.IsDigits (Nat.toDigits 10 digits ++ .replicate zeros '0') := by
    refine ⟨List.append_ne_nil_of_left_ne_nil Nat.toDigits_ne_nil _, ?_⟩
    rw [List.all_append, (isDigits_toDigits digits).2, all_replicate_zero, Bool.and_true]
  have hvalue : Nat.ofDigitChars 10 (Nat.toDigits 10 digits ++ .replicate zeros '0') 0 =
      digits * Nat.pow 10 zeros := by
    rw [Nat.ofDigitChars_append, Nat.ofDigitChars_ten_toDigits, Nat.ofDigitChars_replicate_zero,
      Nat.mul_comm, Nat.pow_eq]
  rw [htext]
  refine ⟨_, Numeral.readUnsigned?_whole negative hdigits, ?_⟩
  unfold Numeral.toNumber Numeral.decimal
  dsimp only
  rw [List.append_nil, hvalue, List.length_nil, ← magnitude_append_zeros hfinite]
  rfl

/-- Digits with a point: zeros in front leave at least one digit before the point. -/
theorem exists_numeral_of_neg {decimal : Decimal} (negative : Bool)
    (hexponent : decimal.exponent < 0) :
    ∃ numeral, Numeral.readUnsigned? negative decimal.text.toList = some numeral ∧
      numeral.toNumber = ofMagnitude negative decimal.magnitude := by
  obtain ⟨digits, exponent⟩ := decimal
  dsimp only at hexponent
  generalize hplaces : (-exponent).toNat = places
  generalize hpadded : List.replicate (places + 1 - (Nat.toDigits 10 digits).length) '0' ++
    Nat.toDigits 10 digits = padded
  have htext : (text ⟨digits, exponent⟩).toList =
      padded.take (padded.length - places) ++ '.' :: padded.drop (padded.length - places) := by
    unfold text
    dsimp only
    rw [if_neg (Int.not_le.2 hexponent), hplaces, hpadded, String.toList_ofList]
  have hlong : places < padded.length := by
    rw [← hpadded, List.length_append, List.length_replicate]
    omega
  have hall : padded.all Char.isDigit = true := by
    rw [← hpadded, List.all_append, all_replicate_zero, (isDigits_toDigits digits).2,
      Bool.and_true]
  have hvalue : Nat.ofDigitChars 10 padded 0 = digits := by
    rw [← hpadded, Nat.ofDigitChars_append, Nat.ofDigitChars_replicate_zero, Nat.mul_zero,
      Nat.ofDigitChars_ten_toDigits]
  have hsplit := List.take_append_drop (padded.length - places) padded
  have hparts := hall
  rw [← hsplit, List.all_append, Bool.and_eq_true] at hparts
  have hwhole : Numeral.IsDigits (padded.take (padded.length - places)) := by
    refine ⟨List.ne_nil_of_length_pos ?_, hparts.1⟩
    rw [List.length_take]
    omega
  rw [htext]
  refine ⟨_, Numeral.readUnsigned?_fraction negative hwhole hparts.2, ?_⟩
  have hexponents : (0 : Int) - (padded.length - (padded.length - places) : Nat) = exponent := by
    omega
  unfold Numeral.toNumber Numeral.decimal
  dsimp only
  rw [hsplit, hvalue, List.length_drop, hexponents]

/-- The text of a decimal is a numeral for the number nearest to it. -/
theorem exists_numeral_text {decimal : Decimal} (negative : Bool)
    (hfinite : decimal.magnitude < infinityMagnitude) :
    ∃ numeral, Numeral.readUnsigned? negative decimal.text.toList = some numeral ∧
      numeral.toNumber = ofMagnitude negative decimal.magnitude := by
  by_cases hexponent : 0 ≤ decimal.exponent
  · exact exists_numeral_of_nonneg negative hexponent hfinite
  · exact exists_numeral_of_neg negative (Int.not_le.1 hexponent)

end Decimal

/-! ## Numbers -/

/-- The zero that is written like the other one. -/
def negativeZero : Number :=
  ofMagnitude true 0

def IsFinite (x : Number) : Prop :=
  x.magnitude < infinityMagnitude

theorem exists_numeral_magnitudeText {size : Nat} (negative : Bool)
    (hpos : 0 < size) (hfinite : size < infinityMagnitude) :
    ∃ numeral, Numeral.readUnsigned? negative (magnitudeText size).toList = some numeral ∧
      numeral.toNumber = ofMagnitude negative size := by
  have hsize := Decimal.magnitude_shortest hpos (Nat.le_of_lt hfinite)
  have htext := Decimal.exists_numeral_text negative (hsize.symm ▸ hfinite)
  rw [hsize] at htext
  unfold magnitudeText
  rwa [if_neg (by omega), if_neg (by omega), if_neg (by omega)]

theorem Numeral.read?_of_readUnsigned? {chars : List Char} {numeral : Numeral}
    (h : readUnsigned? false chars = some numeral) : read? chars = some numeral := by
  obtain ⟨c, rest, rfl, hc⟩ := exists_digit_of_readUnsigned? h
  unfold read?
  split
  · next hchars => exact absurd (List.head_eq_of_cons_eq hchars) (ne_of_isDigit hc (by decide))
  · exact h

theorem Numeral.toNumber_of_zero {numeral : Numeral} (h : numeral.decimal.digits = 0) :
    numeral.toNumber = ofMagnitude numeral.negative 0 := by
  rw [toNumber, Decimal.magnitude, if_pos h]

/-- The text of a finite number is a numeral for it, unless the number is `-0`. -/
theorem exists_numeral_numberText {x : Number} (hfinite : x.IsFinite)
    (hzero : x ≠ negativeZero) :
    ∃ numeral, Numeral.read? (Value.numberText x).toList = some numeral ∧
      numeral.toNumber = x := by
  have hx := x.ofMagnitude_magnitude
  unfold Value.numberText
  split
  · next hmagnitude =>
      rw [hmagnitude] at hx
      cases hsign : x.isNegative with
      | true =>
          rw [hsign] at hx
          exact absurd hx.symm hzero
      | false =>
          rw [hsign] at hx
          exact ⟨⟨false, ['0'], [], 0⟩, rfl, (Numeral.toNumber_of_zero rfl).trans hx⟩
  · next hmagnitude =>
      obtain ⟨numeral, hread, hvalue⟩ :=
        exists_numeral_magnitudeText x.isNegative (Nat.pos_of_ne_zero hmagnitude) hfinite
      have hnumber : x.isNaN = false := by
        rw [isNaN, decide_eq_false_iff_not, Nat.not_lt]
        exact Nat.le_of_lt hfinite
      refine ⟨numeral, ?_, hvalue.trans hx⟩
      cases hsign : x.isNegative with
      | true =>
          rw [hsign] at hread
          rw [text, hsign, hnumber, if_pos (by decide), String.toList_append]
          exact hread
      | false =>
          rw [hsign] at hread
          rw [text, hsign, hnumber, if_neg (by decide)]
          exact Numeral.read?_of_readUnsigned? hread

end TinyScript.Number
