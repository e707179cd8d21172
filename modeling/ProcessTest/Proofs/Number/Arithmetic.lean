import ProcessTest.Proofs.Number.Fit

/-!
# Arithmetic of decimals

What sums, differences, products and quotients of decimals come to as rational numbers, and what it
means to give a decimal other places.

* `approximates_of_add?`, `approximates_of_mul?`, `approximates_of_div?` — a result approximates
  the exact one; `add?_eq_none_iff` and its companions say when there is none.
* `exists_add?_of_isDecimal` — a sum that is a decimal is found as it is.
* `exists_add?_of_scale_eq`, `exists_sub?_of_scale_eq` — decimals of one scale are added and
  subtracted like whole numbers.
* `value_toPlaces`, `scale_toPlaces` — rounding to places, a tie away from zero.
-/

set_option autoImplicit false

namespace ProcessTest.Decimal

open Rounding

variable {a b c : Decimal}

/-! ## Sums and differences -/

/-- The sum over the common denominator. -/
theorem value_add (a b : Decimal) : a.value + b.value =
    (a.mantissa * Nat.pow 10 b.scale + b.mantissa * Nat.pow 10 a.scale : ℤ) /
      (Nat.pow 10 (a.scale + b.scale) : ℕ) := by
  simp only [value, Nat.pow_eq]
  push_cast
  field_simp
  ring

theorem add?_of_left_eq_zero (ha : a.value = 0) : a.add? b = some b := if_pos (isZero_iff.2 ha)

theorem add?_of_right_eq_zero (ha : a.value ≠ 0) (hb : b.value = 0) : a.add? b = some a := by
  simp only [add?, isZero_iff, ha, hb, if_false, if_true]

theorem fitted_add? (ha : a.value ≠ 0) (hb : b.value ≠ 0) :
    Fitted (a.value + b.value) (max a.scale b.scale) (a.add? b) := by
  refine ⟨max_le a.scale_le b.scale_le, _, _, _, by rw [Nat.pow_eq]; positivity,
    (signed_natAbs_div _ _).trans (value_add a b).symm, ?_⟩
  simp only [add?, isZero_iff, ha, hb, if_false]

theorem approximates_of_add? (h : a.add? b = some c) : c.Approximates (a.value + b.value) := by
  by_cases ha : a.value = 0
  · obtain rfl := Option.some.inj ((add?_of_left_eq_zero ha).symm.trans h)
    exact approximates_of_value_eq (by rw [ha, zero_add])
  by_cases hb : b.value = 0
  · obtain rfl := Option.some.inj ((add?_of_right_eq_zero ha hb).symm.trans h)
    exact approximates_of_value_eq (by rw [hb, add_zero])
  -- Both summands are whole numbers at the finer of their scales.
  refine (h ▸ fitted_add? ha hb).isNearest.approximates (.inr ?_)
  refine ⟨a.mantissa * 10 ^ (max a.scale b.scale - a.scale) +
    b.mantissa * 10 ^ (max a.scale b.scale - b.scale), ?_⟩
  push_cast
  rw [← value_mul_pow a, ← value_mul_pow b, mul_assoc, mul_assoc, ← pow_add, ← pow_add,
    Nat.add_sub_cancel' (le_max_left _ _), Nat.add_sub_cancel' (le_max_right _ _), add_mul]

theorem add?_eq_none_iff : a.add? b = none ↔ ¬ HasRoom (a.value + b.value) := by
  by_cases ha : a.value = 0
  · rw [add?_of_left_eq_zero ha, ha, zero_add]
    exact iff_of_false nofun (not_not.2 (hasRoom_value b))
  by_cases hb : b.value = 0
  · rw [add?_of_right_eq_zero ha hb, hb, add_zero]
    exact iff_of_false nofun (not_not.2 (hasRoom_value a))
  exact (fitted_add? ha hb).eq_none_iff

theorem approximates_of_sub? (h : a.sub? b = some c) : c.Approximates (a.value - b.value) := by
  rw [sub_eq_add_neg, ← value_neg]
  exact approximates_of_add? h

theorem sub?_eq_none_iff : a.sub? b = none ↔ ¬ HasRoom (a.value - b.value) := by
  rw [sub_eq_add_neg, ← value_neg]
  exact add?_eq_none_iff

theorem hasRoom_of_add? (h : a.add? b = some c) : HasRoom (a.value + b.value) := by
  by_contra hnone
  rw [add?_eq_none_iff.2 hnone] at h
  cases h

theorem hasRoom_of_sub? (h : a.sub? b = some c) : HasRoom (a.value - b.value) := by
  by_contra hnone
  rw [sub?_eq_none_iff.2 hnone] at h
  cases h

theorem exists_add?_of_hasRoom (h : HasRoom (a.value + b.value)) :
    ∃ c, a.add? b = some c ∧ c.Approximates (a.value + b.value) := by
  cases hc : a.add? b with
  | none => exact absurd h (add?_eq_none_iff.1 hc)
  | some c => exact ⟨c, rfl, approximates_of_add? hc⟩

theorem exists_add?_of_isDecimal (h : IsDecimal (a.value + b.value)) :
    ∃ c, a.add? b = some c ∧ c.value = a.value + b.value := by
  obtain ⟨c, hc, happrox⟩ := exists_add?_of_hasRoom h.hasRoom
  exact ⟨c, hc, happrox.exact h⟩

theorem exists_sub?_of_isDecimal (h : IsDecimal (a.value - b.value)) :
    ∃ c, a.sub? b = some c ∧ c.value = a.value - b.value := by
  rw [sub_eq_add_neg, ← value_neg] at h ⊢
  exact exists_add?_of_isDecimal h

theorem mantissa_eq_zero (ha : a.value = 0) : a.mantissa = 0 := by
  rw [value_eq_iff, zero_mul] at ha
  exact_mod_cast ha

/-- Decimals of one scale are added like whole numbers. -/
theorem exists_add?_of_scale_eq (hscale : a.scale = b.scale)
    (hlt : (a.mantissa + b.mantissa).natAbs < bound) :
    ∃ c, a.add? b = some c ∧ c.scale = a.scale ∧ c.mantissa = a.mantissa + b.mantissa := by
  by_cases ha : a.value = 0
  · exact ⟨b, add?_of_left_eq_zero ha, hscale.symm, by rw [mantissa_eq_zero ha, zero_add]⟩
  by_cases hb : b.value = 0
  · exact ⟨a, add?_of_right_eq_zero ha hb, rfl, by rw [mantissa_eq_zero hb, add_zero]⟩
  have hwhole : (a.value + b.value) * 10 ^ a.scale = (a.mantissa + b.mantissa : ℤ) := by
    rw [add_mul, value_mul_pow, hscale, value_mul_pow]
    push_cast
    rfl
  obtain ⟨c, hc, hvalue⟩ := exists_add?_of_isDecimal (isDecimal_of_mul_pow hwhole hlt a.scale_le)
  have hfitted := fitted_add? ha hb
  rw [← hscale, max_self, hc] at hfitted
  have hc' := hfitted.isNearest.scale_eq hwhole hlt
  refine ⟨c, hc, hc', ?_⟩
  rw [value_eq_iff, hc', hwhole] at hvalue
  exact_mod_cast hvalue

theorem exists_sub?_of_scale_eq (hscale : a.scale = b.scale)
    (hlt : (a.mantissa - b.mantissa).natAbs < bound) :
    ∃ c, a.sub? b = some c ∧ c.scale = a.scale ∧ c.mantissa = a.mantissa - b.mantissa := by
  rw [sub_eq_add_neg] at hlt ⊢
  exact exists_add?_of_scale_eq (b := b.neg) hscale hlt

/-! ## Products and quotients -/

theorem value_mul (a b : Decimal) : a.value * b.value =
    (a.mantissa * b.mantissa : ℤ) / (Nat.pow 10 (a.scale + b.scale) : ℕ) := by
  simp only [value, Nat.pow_eq]
  push_cast
  rw [div_mul_div_comm, pow_add]

theorem mul?_of_eq_zero (h : a.value = 0 ∨ b.value = 0) : a.mul? b = some zero := by
  simp only [mul?, Bool.or_eq_true, isZero_iff, h, if_true]

theorem fitted_mul? (h : ¬ (a.value = 0 ∨ b.value = 0)) :
    Fitted (a.value * b.value) (min 28 (a.scale + b.scale)) (a.mul? b) := by
  refine ⟨min_le_left _ _, _, _, _, by rw [Nat.pow_eq]; positivity,
    (signed_natAbs_div _ _).trans (value_mul a b).symm, ?_⟩
  simp only [mul?, Bool.or_eq_true, isZero_iff, h, if_false]
  rfl

theorem approximates_of_mul? (h : a.mul? b = some c) : c.Approximates (a.value * b.value) := by
  by_cases hzero : a.value = 0 ∨ b.value = 0
  · obtain rfl := Option.some.inj ((mul?_of_eq_zero hzero).symm.trans h)
    exact approximates_of_value_eq (by rw [value_zero, mul_eq_zero.2 hzero])
  refine (h ▸ fitted_mul? hzero).isNearest.approximates ?_
  rcases le_total 28 (a.scale + b.scale) with hle | hle
  · exact .inl (min_eq_left hle)
  · refine .inr ⟨a.mantissa * b.mantissa, ?_⟩
    rw [min_eq_right hle, pow_add, mul_mul_mul_comm, value_mul_pow, value_mul_pow]
    push_cast
    rfl

theorem mul?_eq_none_iff : a.mul? b = none ↔ ¬ HasRoom (a.value * b.value) := by
  by_cases hzero : a.value = 0 ∨ b.value = 0
  · rw [mul?_of_eq_zero hzero, mul_eq_zero.2 hzero, ← value_zero]
    exact iff_of_false nofun (not_not.2 (hasRoom_value zero))
  · exact (fitted_mul? hzero).eq_none_iff

/-- A product with a number of at most one is not above the other factor, although it is
rounded. -/
theorem value_le_of_mul? (ha : 0 ≤ a.value) (hb : 0 ≤ b.value) (hb' : b.value ≤ 1)
    (h : a.mul? b = some c) : c.value ≤ a.value := by
  by_cases hzero : a.value = 0 ∨ b.value = 0
  · obtain rfl := Option.some.inj ((mul?_of_eq_zero hzero).symm.trans h)
    rwa [value_zero]
  · exact (h ▸ fitted_mul? hzero).isNearest.value_le_of_le (mul_nonneg ha hb)
      (mul_le_of_le_one_right ha hb') (le_min a.scale_le (Nat.le_add_right _ _))

theorem value_div (a b : Decimal) : a.value / b.value =
    signed (decide (a.mantissa * b.mantissa < 0))
      ((a.mantissa.natAbs * Nat.pow 10 b.scale : ℕ) /
        (b.mantissa.natAbs * Nat.pow 10 a.scale : ℕ)) := by
  have hsplit : a.value / b.value =
      (a.mantissa / b.mantissa : ℚ) * (10 ^ b.scale / 10 ^ a.scale) := by
    rw [value, value, div_div_div_eq, mul_div_mul_comm, div_mul_div_comm, div_mul_div_comm,
      mul_comm ((10 : ℚ) ^ a.scale)]
  have hsizes : ((a.mantissa.natAbs * Nat.pow 10 b.scale : ℕ) : ℚ) /
      (b.mantissa.natAbs * Nat.pow 10 a.scale : ℕ) =
        |(a.mantissa / b.mantissa : ℚ)| * (10 ^ b.scale / 10 ^ a.scale) := by
    simp only [Nat.pow_eq]
    push_cast
    rw [Nat.cast_natAbs, Nat.cast_natAbs, Int.cast_abs, Int.cast_abs, abs_div, mul_div_mul_comm]
  rw [hsplit, hsizes, ← signed_mul]
  congr 1
  have hsign : (a.mantissa * b.mantissa < 0) ↔ (a.mantissa / b.mantissa : ℚ) < 0 := by
    rw [div_neg_iff, mul_neg_iff]
    norm_cast
  by_cases hneg : (a.mantissa / b.mantissa : ℚ) < 0
  · rw [signed, if_pos (decide_eq_true (hsign.2 hneg)), abs_of_neg hneg, neg_neg]
  · rw [signed, if_neg (by simpa [hsign] using hneg), abs_of_nonneg (not_lt.1 hneg)]

theorem div?_of_eq_zero (ha : a.value = 0) (hb : b.value ≠ 0) : a.div? b = some zero := by
  simp only [div?, isZero_iff, ha, hb, if_false, if_true]

theorem fitted_div? (ha : a.value ≠ 0) (hb : b.value ≠ 0) :
    Fitted (a.value / b.value) 28 (a.div? b) := by
  have hmantissa : b.mantissa ≠ 0 := by
    intro hzero
    exact hb (by rw [value, hzero, Int.cast_zero, zero_div])
  refine ⟨le_rfl, _, _, _, ?_, (value_div a b).symm, ?_⟩
  · exact Nat.mul_pos (Int.natAbs_pos.2 hmantissa) (by rw [Nat.pow_eq]; positivity)
  · simp only [div?, isZero_iff, ha, hb, if_false]
    rfl

theorem approximates_of_div? (hb : b.value ≠ 0) (h : a.div? b = some c) :
    c.Approximates (a.value / b.value) := by
  by_cases ha : a.value = 0
  · obtain rfl := Option.some.inj ((div?_of_eq_zero ha hb).symm.trans h)
    exact approximates_of_value_eq (by rw [value_zero, ha, zero_div])
  · exact (h ▸ fitted_div? ha hb).isNearest.approximates (.inl rfl)

theorem div?_eq_none_iff (hb : b.value ≠ 0) :
    a.div? b = none ↔ ¬ HasRoom (a.value / b.value) := by
  by_cases ha : a.value = 0
  · rw [div?_of_eq_zero ha hb, ha, zero_div, ← value_zero]
    exact iff_of_false nofun (not_not.2 (hasRoom_value zero))
  · exact (fitted_div? ha hb).eq_none_iff

/-- A quotient by a number of at least one is not above the dividend, although it is rounded. -/
theorem value_le_of_div? (ha : 0 ≤ a.value) (hb : 1 ≤ b.value) (h : a.div? b = some c) :
    c.value ≤ a.value := by
  have hb' : b.value ≠ 0 := (zero_lt_one.trans_le hb).ne'
  by_cases hzero : a.value = 0
  · obtain rfl := Option.some.inj ((div?_of_eq_zero hzero hb').symm.trans h)
    rw [value_zero, hzero]
  · exact (h ▸ fitted_div? hzero hb').isNearest.value_le_of_le
      (div_nonneg ha (zero_le_one.trans hb)) (div_le_self ha hb) a.scale_le

/-! ## Places -/

theorem ofParts?_of_lt (negative : Bool) {size scale : ℕ} (hsize : size < bound)
    (hscale : scale ≤ 28) : ∃ d, ofParts? negative size scale = some d := by
  cases h : ofParts? negative size scale with
  | none => exact absurd ((ofParts?_eq_none_iff hscale).1 h) (not_le.2 hsize)
  | some d => exact ⟨d, rfl⟩

/-- One more place that holds a zero. -/
theorem ofParts?_wider {d : Decimal}
    (h : ofParts? (decide (a.mantissa < 0)) (a.mantissa.natAbs * 10) (a.scale + 1) = some d) :
    d.value = a.value ∧ d.scale = a.scale + 1 := by
  obtain ⟨hmantissa, hscale⟩ := ofParts?_eq_some h
  refine ⟨?_, hscale⟩
  have hten : d.mantissa = a.mantissa * 10 := by
    rw [hmantissa]
    simp only [decide_eq_true_eq]
    split <;> omega
  rw [value_eq_iff, hten, hscale, pow_succ, ← mul_assoc, value_mul_pow]
  push_cast
  rfl

theorem value_widen (a : Decimal) (n : ℕ) : (a.widen n).value = a.value := by
  induction n generalizing a with
  | zero => rfl
  | succ n ih =>
    rw [widen]
    split
    · rename_i wider h
      rw [ih, (ofParts?_wider h).1]
    · rfl

theorem scale_widen {n : ℕ} (hscale : a.scale + n ≤ 28)
    (hfits : |a.value| * 10 ^ (a.scale + n) < bound) : (a.widen n).scale = a.scale + n := by
  induction n generalizing a with
  | zero => rfl
  | succ n ih =>
    have hle : |a.value| * 10 ^ (a.scale + 1) ≤ |a.value| * 10 ^ (a.scale + (n + 1)) := by
      gcongr
      · norm_num
      · omega
    have hsize : a.mantissa.natAbs * 10 < bound := by
      have hlt := hle.trans_lt hfits
      rw [pow_succ, ← mul_assoc, abs_value_mul_pow] at hlt
      exact_mod_cast hlt
    obtain ⟨d, hd⟩ := ofParts?_of_lt (decide (a.mantissa < 0)) hsize
      (show a.scale + 1 ≤ 28 by omega)
    obtain ⟨hvalue, hscale'⟩ := ofParts?_wider hd
    rw [widen, hd]
    have hplaces : d.scale + n = a.scale + (n + 1) := by omega
    rw [ih (by omega) (by rw [hvalue, hplaces]; exact hfits), hplaces]

theorem halfUp_le (num : ℕ) {den : ℕ} (hden : 0 < den) : halfUp num den ≤ num := by
  have hle : num ≤ den * num := Nat.le_mul_of_pos_left num hden
  refine Nat.lt_succ_iff.1 ((Nat.div_lt_iff_lt_mul (by omega)).2 ?_)
  calc 2 * num + den < 2 * (den * num) + 2 * den := by omega
    _ = (num + 1) * (2 * den) := by ring

/-- A decimal with fewer places is the rounded one. -/
theorem toPlaces_of_lt {places : ℕ} (h : places < a.scale) :
    (a.toPlaces places).scale = places ∧
      (a.toPlaces places).mantissa = awayFromZero (a.value * 10 ^ places) := by
  have hpow : 0 < Nat.pow 10 (a.scale - places) := by rw [Nat.pow_eq]; positivity
  have hvalue : a.value * 10 ^ places = a.mantissa / (Nat.pow 10 (a.scale - places) : ℕ) := by
    rw [Nat.pow_eq, eq_div_iff (by positivity), mul_assoc]
    push_cast
    rw [← pow_add, Nat.add_sub_cancel' h.le, value_mul_pow]
  have hround := halfUp_eq_round a.mantissa.natAbs hpow
  obtain ⟨d, hd⟩ := ofParts?_of_lt (decide (a.mantissa < 0))
    ((halfUp_le a.mantissa.natAbs hpow).trans_lt a.mantissa_lt) (h.le.trans a.scale_le)
  obtain ⟨hmantissa, hscale⟩ := ofParts?_eq_some hd
  have hplaces : a.toPlaces places = d := by
    rw [toPlaces, if_pos h, hd]
    rfl
  rw [hplaces]
  refine ⟨hscale, ?_⟩
  rw [hmantissa, hround, hvalue, Nat.cast_natAbs, Int.cast_abs]
  have hpow' : (0 : ℚ) < (Nat.pow 10 (a.scale - places) : ℕ) := by exact_mod_cast hpow
  rcases lt_or_ge a.mantissa 0 with hneg | hnonneg
  · have hneg' : (a.mantissa : ℚ) < 0 := by exact_mod_cast hneg
    rw [if_pos (decide_eq_true hneg), abs_of_neg hneg', neg_div,
      awayFromZero_of_neg (div_neg_of_neg_of_pos hneg' hpow')]
  · have hnonneg' : (0 : ℚ) ≤ a.mantissa := by exact_mod_cast hnonneg
    rw [if_neg (by simpa using hnonneg), abs_of_nonneg hnonneg',
      awayFromZero_of_nonneg (div_nonneg hnonneg' hpow'.le)]

/-- **Rounding to places** gives the nearest number with these places, of two the one away from
zero. -/
theorem value_toPlaces (a : Decimal) (places : ℕ) :
    (a.toPlaces places).value * 10 ^ places = awayFromZero (a.value * 10 ^ places) := by
  rcases lt_or_ge places a.scale with h | h
  · obtain ⟨hscale, hmantissa⟩ := toPlaces_of_lt h
    rw [← hmantissa, ← value_mul_pow, hscale]
  · have hwhole : a.value * 10 ^ places = (a.mantissa * 10 ^ (places - a.scale) : ℤ) := by
      rw [← Nat.add_sub_cancel' h, pow_add, ← mul_assoc, value_mul_pow, Nat.add_sub_cancel_left]
      push_cast
      rfl
    rw [toPlaces, if_neg (not_lt.2 h), value_widen, hwhole, awayFromZero_intCast]

/-- The places are there if the number has room for them. -/
theorem scale_toPlaces {places : ℕ} (hplaces : places ≤ 28)
    (hfits : |a.value| * 10 ^ places < bound) : (a.toPlaces places).scale = places := by
  rcases lt_or_ge places a.scale with h | h
  · exact (toPlaces_of_lt h).1
  · have hsum : a.scale + (places - a.scale) = places := Nat.add_sub_cancel' h
    rw [toPlaces, if_neg (not_lt.2 h), scale_widen (hsum.le.trans hplaces) (hsum.symm ▸ hfits),
      hsum]

end ProcessTest.Decimal
