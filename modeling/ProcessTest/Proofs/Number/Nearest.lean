import Mathlib.Algebra.Order.Round
import Mathlib.Data.Int.SuccPred
import Mathlib.Data.Rat.Floor
import Mathlib.Tactic.FieldSimp
import Mathlib.Tactic.Linarith
import Mathlib.Tactic.NormNum
import Mathlib.Tactic.Positivity
import Mathlib.Tactic.Ring
import ProcessTest.Number.Rounding

/-!
# Nearest whole numbers

The two roundings of a quotient, on rational numbers of either sign.

* `NearestEven` — a whole number nearest to a rational number, the even one of two.  Every number
  has one (`exists_nearestEven`), and it grows with the number (`NearestEven.mono`).
* `awayFromZero` — the nearest whole number, the one away from zero of two.  Numbers with no middle
  between them are rounded to the same one: `awayFromZero_eq_iff`.
* `nearestEven_halfEven`, `halfUp_eq_round` — what the roundings of naturals come to.
-/

set_option autoImplicit false

namespace ProcessTest.Rounding

variable {p q : ℚ} {m n : ℤ}

/-! ## Ties to the even number -/

/-- A whole number nearest to a rational number, the even one of two. -/
structure NearestEven (q : ℚ) (n : ℤ) : Prop where
  near : |q - n| ≤ 1 / 2
  even : |q - n| = 1 / 2 → Even n

theorem NearestEven.mono (hp : NearestEven p m) (hq : NearestEven q n) (h : p ≤ q) : m ≤ n := by
  by_contra! hlt
  have hp' := abs_le.1 hp.near
  have hq' := abs_le.1 hq.near
  have hnext : (n : ℚ) + 1 ≤ m := by exact_mod_cast hlt
  -- Both numbers lie half way between neighbours, and of two neighbours one is odd.
  have hm : Even m := hp.even (by rw [show p - m = -(1 / 2) by linarith, abs_neg]; norm_num)
  have hn : Even n := hq.even (by rw [show q - n = 1 / 2 by linarith]; norm_num)
  have heq : m = n + 1 := by exact_mod_cast (by linarith : (m : ℚ) = n + 1)
  rw [heq, Int.even_add_one] at hm
  exact hm hn

theorem NearestEven.unique (hm : NearestEven q m) (hn : NearestEven q n) : m = n :=
  le_antisymm (hm.mono hn le_rfl) (hn.mono hm le_rfl)

theorem nearestEven_intCast (n : ℤ) : NearestEven n n := by
  constructor <;> norm_num

theorem NearestEven.neg (h : NearestEven q n) : NearestEven (-q) (-n) := by
  have hdiff : |(-q - (-n : ℤ) : ℚ)| = |q - n| := by
    rw [Int.cast_neg, neg_sub_neg, abs_sub_comm]
  exact ⟨hdiff ▸ h.near, fun htie => even_neg.2 (h.even (hdiff ▸ htie))⟩

/-- A nearest number is below an even bound in size exactly if the rational number is below the
middle before the bound. -/
theorem NearestEven.natAbs_lt_iff (h : NearestEven q n) {bound : ℕ} (hbound : Even bound) :
    n.natAbs < bound ↔ |q| < bound - 1 / 2 := by
  have hsize : ((n.natAbs : ℕ) : ℚ) = |(n : ℚ)| := by rw [Nat.cast_natAbs, Int.cast_abs]
  have hnear := h.near
  have habove : |q| ≤ |(n : ℚ)| + |q - n| := by linarith [abs_sub_abs_le_abs_sub q n]
  have hbelow : |(n : ℚ)| ≤ |q| + |q - n| := by
    linarith [abs_sub_abs_le_abs_sub (n : ℚ) q, abs_sub_comm (n : ℚ) q]
  constructor
  · intro hlt
    have hlt' : |(n : ℚ)| + 1 ≤ bound := by
      rw [← hsize]
      exact_mod_cast hlt
    refine lt_of_le_of_ne (by linarith) fun htie => ?_
    -- At the middle the nearest number is the last one before the bound, which is odd.
    have hlast : n.natAbs + 1 = bound := by
      have hlast' : ((n.natAbs : ℕ) : ℚ) + 1 = bound := by rw [hsize]; linarith
      exact_mod_cast hlast'
    have heven : Even n.natAbs := Int.natAbs_even.2 (h.even (by linarith))
    rw [← hlast, Nat.even_add_one] at hbound
    exact hbound heven
  · intro hlt
    have hlt' : ((n.natAbs : ℕ) : ℚ) < bound := by
      rw [hsize]
      linarith
    exact_mod_cast hlt'

/-- The rounding of a quotient of naturals with ties to the even number. -/
theorem nearestEven_halfEven (num : ℕ) {den : ℕ} (hden : 0 < den) :
    NearestEven (num / den) (halfEven num den) := by
  have hden' : (0 : ℚ) < den := by exact_mod_cast hden
  have hsplit : (num : ℚ) / den = (num / den : ℕ) + (num % den : ℕ) / (den : ℚ) := by
    rw [div_eq_iff hden'.ne', add_mul, div_mul_cancel₀ _ hden'.ne', mul_comm]
    exact_mod_cast (Nat.div_add_mod num den).symm
  have hlt : ((num % den : ℕ) : ℚ) < den := by exact_mod_cast Nat.mod_lt num hden
  have hnonneg : (0 : ℚ) ≤ (num % den : ℕ) / (den : ℚ) := by positivity
  rw [hsplit]
  simp only [halfEven]
  generalize num / den = d at *
  generalize num % den = r at *
  -- The cases are those of the rounding: below the middle, above it, and in the middle.
  split_ifs with hbelow habove
  · have hr : (r : ℚ) / den < 1 / 2 := by
      rw [div_lt_iff₀ hden']
      have : (2 : ℚ) * r < den := by exact_mod_cast hbelow
      linarith
    have hdiff : ((d : ℚ) + r / den) - ((d : ℕ) : ℤ) = r / den := by push_cast; ring
    rw [← abs_of_nonneg hnonneg, ← hdiff] at hr
    exact ⟨hr.le, fun htie => absurd htie hr.ne⟩
  · have hr : (1 / 2 : ℚ) < r / den := by
      rw [lt_div_iff₀ hden']
      have : (den : ℚ) < 2 * r := by exact_mod_cast habove
      linarith
    have hr' : (r : ℚ) / den < 1 := (div_lt_one hden').2 hlt
    have hdiff : ((d : ℚ) + r / den) - ((d + 1 : ℕ) : ℤ) = -(1 - r / den) := by push_cast; ring
    have habs : |((d : ℚ) + r / den) - ((d + 1 : ℕ) : ℤ)| < 1 / 2 := by
      rw [hdiff, abs_neg, abs_of_nonneg (by linarith)]
      linarith
    exact ⟨habs.le, fun htie => absurd htie habs.ne⟩
  · have hr : (r : ℚ) / den = 1 / 2 := by
      have : (2 : ℚ) * r = den := by exact_mod_cast (show 2 * r = den by omega)
      rw [div_eq_iff hden'.ne']
      linarith
    rw [hr]
    rcases Nat.even_or_odd d with heven | hodd
    · rw [Nat.even_iff.1 heven, add_zero]
      refine ⟨by norm_num, fun _ => ?_⟩
      exact (Int.even_coe_nat d).2 heven
    · rw [Nat.odd_iff.1 hodd]
      refine ⟨by push_cast; norm_num [abs_of_nonpos], fun _ => ?_⟩
      exact (Int.even_coe_nat (d + 1)).2 (Nat.even_add_one.2 (Nat.not_even_iff_odd.2 hodd))

theorem exists_nearestEven (q : ℚ) : ∃ n, NearestEven q n := by
  have habs : (q.num.natAbs : ℚ) / q.den = |q| := by
    conv_rhs => rw [← Rat.num_div_den q]
    rw [abs_div, Nat.abs_cast, Nat.cast_natAbs, Int.cast_abs]
  have hnear := nearestEven_halfEven q.num.natAbs q.den_pos
  rw [habs] at hnear
  rcases abs_choice q with hq | hq
  · exact ⟨_, hq ▸ hnear⟩
  · have hneg := hnear.neg
    rw [hq, neg_neg] at hneg
    exact ⟨_, hneg⟩

/-! ## Ties away from zero -/

/-- The nearest whole number, the one away from zero of two. -/
def awayFromZero (q : ℚ) : ℤ := if q < 0 then -round (-q) else round q

theorem awayFromZero_of_nonneg (h : 0 ≤ q) : awayFromZero q = round q := if_neg (not_lt.2 h)

theorem awayFromZero_of_neg (h : q < 0) : awayFromZero q = -round (-q) := if_pos h

@[simp] theorem awayFromZero_intCast (n : ℤ) : awayFromZero n = n := by
  unfold awayFromZero
  split
  · rw [← Int.cast_neg, round_intCast, neg_neg]
  · exact round_intCast n

theorem awayFromZero_nonneg (h : 0 ≤ q) : 0 ≤ awayFromZero q := by
  rw [awayFromZero_of_nonneg h, round_eq, Int.floor_nonneg]
  linarith

theorem awayFromZero_mono (hp : 0 ≤ p) (h : p ≤ q) : awayFromZero p ≤ awayFromZero q := by
  rw [awayFromZero_of_nonneg hp, awayFromZero_of_nonneg (hp.trans h), round_eq, round_eq]
  exact Int.floor_mono (by linarith)

/-- Some middle between neighbours is above one of two numbers and not above the other. -/
def MiddleBetween (p q : ℚ) : Prop := ∃ k : ℤ, min p q < k + 1 / 2 ∧ k + 1 / 2 ≤ max p q

theorem awayFromZero_lt_iff (hp : 0 ≤ p) (hq : 0 ≤ q) :
    awayFromZero p < awayFromZero q ↔ ∃ k : ℤ, p < k + 1 / 2 ∧ (k : ℚ) + 1 / 2 ≤ q := by
  rw [awayFromZero_of_nonneg hp, awayFromZero_of_nonneg hq, round_eq, round_eq]
  constructor
  · intro hlt
    have hbelow := Int.floor_lt.1 hlt
    have habove := Int.floor_le (q + 1 / 2)
    exact ⟨⌊q + 1 / 2⌋ - 1, by push_cast; linarith, by push_cast; linarith⟩
  · rintro ⟨k, hbelow, habove⟩
    calc ⌊p + 1 / 2⌋ < k + 1 := Int.floor_lt.2 (by push_cast; linarith)
      _ ≤ ⌊q + 1 / 2⌋ := Int.le_floor.2 (by push_cast; linarith)

/-- Two numbers are rounded to the same one exactly if no middle is between them. -/
theorem awayFromZero_eq_iff (hp : 0 ≤ p) (hq : 0 ≤ q) :
    awayFromZero p = awayFromZero q ↔ ¬ MiddleBetween p q := by
  rcases le_total p q with h | h
  · rw [MiddleBetween, min_eq_left h, max_eq_right h, ← awayFromZero_lt_iff hp hq, not_lt]
    exact ⟨fun heq => heq.ge, fun hge => le_antisymm (awayFromZero_mono hp h) hge⟩
  · rw [MiddleBetween, min_eq_right h, max_eq_left h, ← awayFromZero_lt_iff hq hp, not_lt]
    exact ⟨fun heq => heq.le, fun hle => le_antisymm hle (awayFromZero_mono hq h)⟩

/-- The rounding of a quotient of naturals with ties to the larger number. -/
theorem halfUp_eq_round (num : ℕ) {den : ℕ} (hden : 0 < den) :
    (halfUp num den : ℤ) = round ((num : ℚ) / den) := by
  have hden' : (den : ℚ) ≠ 0 := by exact_mod_cast hden.ne'
  have hquot : (num : ℚ) / den + 1 / 2 = (2 * num + den : ℕ) / (2 * den : ℕ) := by
    push_cast
    field_simp
  rw [round_eq, hquot, Rat.floor_natCast_div_natCast]
  rfl

end ProcessTest.Rounding
