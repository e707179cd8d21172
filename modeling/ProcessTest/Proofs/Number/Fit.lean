import ProcessTest.Number.Decimal
import ProcessTest.Proofs.Number.Nearest

/-!
# Decimals as rational numbers

Which number a decimal stands for, which numbers have a decimal, and what is put in the place of
one that has none.

* `value`, `IsDecimal` — the number of a decimal, and the numbers that decimals stand for.
* `HasRoom` — the numbers whose nearest whole number fits.
* `IsNearest` — the nearest decimal at the finest scale at which it fits.
* `Fitted` — what the search for it comes to: `Fitted.isNearest`, `Fitted.eq_none_iff`.
* `Approximates` — all that a sum or a product promises: the nearest decimal at some scale, and the
  number itself if it is a decimal.
-/

set_option autoImplicit false

namespace ProcessTest.Decimal

open Rounding

variable {a b c : Decimal} {q : ℚ} {z : ℤ} {limit n : ℕ}

/-! ## Numbers of decimals -/

/-- The number that a decimal stands for. -/
def value (a : Decimal) : ℚ := a.mantissa / 10 ^ a.scale

theorem value_mul_pow (a : Decimal) : a.value * 10 ^ a.scale = a.mantissa :=
  div_mul_cancel₀ _ (by positivity)

theorem value_eq_iff : a.value = q ↔ (a.mantissa : ℚ) = q * 10 ^ a.scale :=
  div_eq_iff (by positivity)

@[simp] theorem value_zero : zero.value = 0 := by
  norm_num [value, zero]

@[simp] theorem value_one : one.value = 1 := by
  norm_num [value, one]

@[simp] theorem value_neg (a : Decimal) : a.neg.value = -a.value := by
  simp only [value, neg, Int.cast_neg, neg_div]

@[simp] theorem value_abs (a : Decimal) : a.abs.value = |a.value| := by
  rw [value, value, abs_div, abs_of_pos (show (0 : ℚ) < 10 ^ a.scale by positivity)]
  simp only [abs, Int.natCast_natAbs, Int.cast_abs]

theorem isZero_iff : a.isZero = true ↔ a.value = 0 := by
  rw [isZero, beq_iff_eq, value_eq_iff, zero_mul, Int.cast_eq_zero]

theorem le_iff : a.le b = true ↔ a.value ≤ b.value := by
  rw [le, decide_eq_true_eq, value, value, div_le_div_iff₀ (by positivity) (by positivity)]
  simp only [Nat.pow_eq]
  exact_mod_cast Iff.rfl

theorem lt_iff : a.lt b = true ↔ a.value < b.value := by
  rw [lt, Bool.not_eq_true', ← Bool.not_eq_true, le_iff, not_le]

theorem nonneg_iff : 0 ≤ a.value ↔ 0 ≤ a.mantissa := by
  rw [value, le_div_iff₀ (by positivity), zero_mul, Int.cast_nonneg_iff]

theorem even_bound : Even bound := ⟨2 ^ 95, by norm_num [bound]⟩

theorem abs_value_mul_pow (a : Decimal) : |a.value| * 10 ^ a.scale = a.mantissa.natAbs := by
  rw [Nat.cast_natAbs, Int.cast_abs, ← value_mul_pow, abs_mul,
    abs_of_pos (show (0 : ℚ) < 10 ^ a.scale by positivity)]

/-- The number is one that some decimal stands for. -/
def IsDecimal (q : ℚ) : Prop := ∃ d : Decimal, d.value = q

theorem isDecimal_of_mul_pow (hz : q * 10 ^ n = z) (hlt : z.natAbs < bound) (hn : n ≤ 28) :
    IsDecimal q :=
  ⟨⟨z, n, hlt, hn⟩, value_eq_iff.2 hz.symm⟩

/-- The whole number nearest to the number fits. -/
def HasRoom (q : ℚ) : Prop := |q| < bound - 1 / 2

theorem hasRoom_value (a : Decimal) : HasRoom a.value := by
  have hone : (1 : ℚ) ≤ 10 ^ a.scale := one_le_pow₀ (by norm_num)
  have hlt : (a.mantissa.natAbs : ℚ) + 1 ≤ bound := by exact_mod_cast a.mantissa_lt
  have hle := le_mul_of_one_le_right (abs_nonneg a.value) hone
  rw [abs_value_mul_pow] at hle
  rw [HasRoom]
  linarith

theorem hasRoom_of_le (hq : 0 ≤ q) (hle : q ≤ a.value) : HasRoom q := by
  have hroom := hasRoom_value a
  rw [HasRoom, abs_of_nonneg (hq.trans hle)] at hroom
  rw [HasRoom, abs_of_nonneg hq]
  exact hle.trans_lt hroom

theorem IsDecimal.hasRoom (h : IsDecimal q) : HasRoom q := by
  obtain ⟨d, rfl⟩ := h
  exact hasRoom_value d

/-! ## The nearest decimal -/

/-- The nearest decimal at the finest scale, not finer than the given one, at which it fits. -/
structure IsNearest (q : ℚ) (limit : ℕ) (c : Decimal) : Prop where
  scale_le : c.scale ≤ limit
  nearest : NearestEven (q * 10 ^ c.scale) c.mantissa
  finest : ∀ t n, c.scale < t → t ≤ limit → NearestEven (q * 10 ^ t) n → bound ≤ n.natAbs

/-- What arithmetic makes of a number: the nearest decimal at some scale, and the number itself if
it is a decimal. -/
structure Approximates (c : Decimal) (q : ℚ) : Prop where
  nearest : NearestEven (q * 10 ^ c.scale) c.mantissa
  exact : IsDecimal q → c.value = q

theorem approximates_of_value_eq (h : c.value = q) : c.Approximates q := by
  refine ⟨?_, fun _ => h⟩
  rw [← h, value_mul_pow]
  exact nearestEven_intCast c.mantissa

namespace Approximates

variable (h : c.Approximates q)

include h

theorem nonneg (hq : 0 ≤ q) : 0 ≤ c.value :=
  nonneg_iff.2 ((nearestEven_intCast 0).mono h.nearest (by push_cast; positivity))

theorem abs_sub_le : |c.value - q| ≤ 1 / 2 := by
  have hone : (1 : ℚ) ≤ 10 ^ c.scale := one_le_pow₀ (by norm_num)
  have hnear := h.nearest.near
  rw [← value_mul_pow, ← sub_mul, abs_mul,
    abs_of_pos (show (0 : ℚ) < 10 ^ c.scale by positivity), abs_sub_comm] at hnear
  exact (le_mul_of_one_le_right (abs_nonneg _) hone).trans hnear

end Approximates

namespace IsNearest

variable (h : IsNearest q limit c)

include h

/-- No scale is dropped for a number that fits as it is. -/
theorem scale_eq (hz : q * 10 ^ limit = z) (hlt : z.natAbs < bound) : c.scale = limit := by
  by_contra hne
  have hscale := lt_of_le_of_ne h.scale_le hne
  exact absurd (h.finest limit z hscale le_rfl (hz ▸ nearestEven_intCast z)) (not_le.2 hlt)

/-- A number that fits at some scale is left as it is. -/
theorem value_eq_of_mul_pow (hz : q * 10 ^ n = z) (hlt : z.natAbs < bound) (hn : n ≤ limit) :
    c.value = q := by
  have hscale : n ≤ c.scale := by
    by_contra! hcoarse
    exact absurd (h.finest n z hcoarse hn (hz ▸ nearestEven_intCast z)) (not_le.2 hlt)
  have hwhole : q * 10 ^ c.scale = (z * 10 ^ (c.scale - n) : ℤ) := by
    rw [← Nat.add_sub_cancel' hscale, pow_add, ← mul_assoc, hz, Nat.add_sub_cancel_left]
    push_cast
    rfl
  rw [value_eq_iff, hwhole, h.nearest.unique (hwhole ▸ nearestEven_intCast _)]

/-- The nearest decimal approximates a number that has no more places than are looked at. -/
theorem approximates (hq : limit = 28 ∨ ∃ z : ℤ, q * 10 ^ limit = z) : c.Approximates q := by
  refine ⟨h.nearest, ?_⟩
  rintro ⟨d, rfl⟩
  rcases le_or_gt d.scale limit with hle | hlt
  · exact h.value_eq_of_mul_pow d.value_mul_pow d.mantissa_lt hle
  · rcases hq with rfl | ⟨z, hz⟩
    · exact absurd d.scale_le (not_le.2 hlt)
    -- The places behind the limit are zeros, so the number fits at the limit, too.
    refine h.value_eq_of_mul_pow hz (lt_of_le_of_lt ?_ d.mantissa_lt) le_rfl
    have hpow : (10 : ℚ) ^ limit ≤ 10 ^ d.scale := pow_le_pow_right₀ (by norm_num) hlt.le
    have hle : ((z.natAbs : ℕ) : ℚ) ≤ (d.mantissa.natAbs : ℕ) := by
      rw [← abs_value_mul_pow, Nat.cast_natAbs, Int.cast_abs, ← hz, abs_mul,
        abs_of_pos (show (0 : ℚ) < 10 ^ limit by positivity)]
      exact mul_le_mul_of_nonneg_left hpow (abs_nonneg _)
    exact_mod_cast hle

/-- The nearest decimal of a number is not above a decimal that the number is not above. -/
theorem value_le_of_le {d : Decimal} (hq : 0 ≤ q) (hle : q ≤ d.value) (hd : d.scale ≤ limit) :
    c.value ≤ d.value := by
  have hgrid (t : ℕ) : q * 10 ^ t ≤ d.value * 10 ^ t := by gcongr
  have hscale : d.scale ≤ c.scale := by
    by_contra! hcoarse
    obtain ⟨n, hn⟩ := exists_nearestEven (q * 10 ^ d.scale)
    have habove : n ≤ d.mantissa :=
      hn.mono (nearestEven_intCast d.mantissa) (d.value_mul_pow ▸ hgrid d.scale)
    have hbelow : 0 ≤ n := (nearestEven_intCast 0).mono hn (by push_cast; positivity)
    have hbound := h.finest d.scale n hcoarse hd hn
    have hlt := d.mantissa_lt
    rw [bound] at hbound
    omega
  have hwhole : d.value * 10 ^ c.scale = (d.mantissa * 10 ^ (c.scale - d.scale) : ℤ) := by
    rw [← Nat.add_sub_cancel' hscale, pow_add, ← mul_assoc, value_mul_pow,
      Nat.add_sub_cancel_left]
    push_cast
    rfl
  have hmantissa := h.nearest.mono (nearestEven_intCast _) (hwhole ▸ hgrid c.scale)
  rw [value, div_le_iff₀ (by positivity), hwhole]
  exact_mod_cast hmantissa

end IsNearest

/-! ## Finding it -/

theorem ofParts?_eq_some {negative : Bool} {size scale : ℕ}
    (h : ofParts? negative size scale = some c) :
    c.mantissa = (if negative then -(size : ℤ) else size) ∧ c.scale = scale := by
  unfold ofParts? at h
  split at h
  · cases h
    exact ⟨rfl, rfl⟩
  · cases h

theorem ofParts?_eq_none_iff {negative : Bool} {size scale : ℕ} (hscale : scale ≤ 28) :
    ofParts? negative size scale = none ↔ bound ≤ size := by
  unfold ofParts?
  split
  · rename_i h
    exact iff_of_false nofun (not_le.2 h.1)
  · rename_i h
    exact iff_of_true rfl (not_lt.1 fun hlt => h ⟨hlt, hscale⟩)

/-- A number with its sign. -/
def signed (negative : Bool) (q : ℚ) : ℚ := if negative then -q else q

theorem signed_mul (negative : Bool) (q r : ℚ) :
    signed negative q * r = signed negative (q * r) := by
  cases negative
  · rfl
  · exact neg_mul q r

theorem signed_natAbs_div (z : ℤ) (r : ℚ) : signed (decide (z < 0)) (z.natAbs / r) = z / r := by
  rcases lt_or_ge z 0 with hz | hz
  · rw [signed, if_pos (decide_eq_true hz), ← neg_div, Nat.cast_natAbs, Int.cast_abs,
      abs_of_neg (by exact_mod_cast hz), neg_neg]
  · rw [signed, if_neg (by simpa using hz), Nat.cast_natAbs, Int.cast_abs,
      abs_of_nonneg (by exact_mod_cast hz)]

section Fit

variable {negative : Bool} {num den : ℕ}

/-- The rounded quotient at a scale, with its sign. -/
theorem nearestEven_signed (hden : 0 < den) (negative : Bool) (num scale : ℕ) :
    NearestEven (signed negative (num / den) * 10 ^ scale)
      (if negative then -(halfEven (num * Nat.pow 10 scale) den : ℤ)
        else halfEven (num * Nat.pow 10 scale) den) := by
  have hnear := nearestEven_halfEven (num * Nat.pow 10 scale) hden
  have hquot : ((num * Nat.pow 10 scale : ℕ) : ℚ) / den = num / den * 10 ^ scale := by
    rw [Nat.pow_eq]
    push_cast
    ring
  rw [hquot] at hnear
  rw [signed_mul]
  cases negative
  · exact hnear
  · exact hnear.neg

/-- At each scale the size of the nearest decimal is the rounded quotient. -/
theorem natAbs_eq_halfEven (hden : 0 < den) {scale : ℕ}
    (h : NearestEven (signed negative (num / den) * 10 ^ scale) z) :
    z.natAbs = halfEven (num * Nat.pow 10 scale) den := by
  rw [h.unique (nearestEven_signed hden negative num scale)]
  split
  · rw [Int.natAbs_neg, Int.natAbs_natCast]
  · exact Int.natAbs_natCast _

theorem isNearest_of_ofParts? (hden : 0 < den)
    (h : ofParts? negative (halfEven (num * Nat.pow 10 limit) den) limit = some c) :
    IsNearest (signed negative (num / den)) limit c := by
  obtain ⟨hmantissa, hscale⟩ := ofParts?_eq_some h
  refine ⟨hscale.le, ?_, fun t n hfiner ht => absurd ht (by omega)⟩
  rw [hmantissa, hscale]
  exact nearestEven_signed hden negative num limit

/-- **What the search over the scales finds** is the nearest decimal at the finest scale that
fits. -/
theorem isNearest_of_fit? (hden : 0 < den) (hlimit : limit ≤ 28)
    (h : fit? negative num den limit = some c) :
    IsNearest (signed negative (num / den)) limit c := by
  induction limit with
  | zero =>
    refine isNearest_of_ofParts? hden ?_
    rw [← h, fit?, Nat.pow_eq, pow_zero, mul_one]
  | succ scale ih =>
    rw [fit?] at h
    split at h
    · rename_i d hd
      cases h
      exact isNearest_of_ofParts? hden hd
    · rename_i hnone
      have hcoarser := ih (by omega) h
      refine ⟨by have := hcoarser.scale_le; omega, hcoarser.nearest, ?_⟩
      intro t n hfiner ht hn
      rcases Nat.lt_or_ge scale t with hlast | hle
      · obtain rfl : t = scale + 1 := by omega
        rw [natAbs_eq_halfEven hden hn]
        exact (ofParts?_eq_none_iff hlimit).1 hnone
      · exact hcoarser.finest t n hfiner hle hn

/-- The search fails for the numbers that have no room even as whole ones. -/
theorem fit?_eq_none_iff (hden : 0 < den) (hlimit : limit ≤ 28) :
    fit? negative num den limit = none ↔ ¬ HasRoom (signed negative (num / den)) := by
  have hroom (scale : ℕ) : bound ≤ halfEven (num * Nat.pow 10 scale) den ↔
      ¬ HasRoom (signed negative (num / den) * 10 ^ scale) := by
    have hnear := nearestEven_signed hden negative num scale
    rw [HasRoom, ← hnear.natAbs_lt_iff even_bound, natAbs_eq_halfEven hden hnear, not_lt]
  induction limit with
  | zero =>
    rw [fit?, ofParts?_eq_none_iff hlimit]
    simpa [Nat.pow_eq] using hroom 0
  | succ scale ih =>
    rw [fit?]
    split
    · rename_i d hd
      -- A number with room at a scale has room at the coarser ones.
      have hfits : HasRoom (signed negative (num / den) * 10 ^ (scale + 1)) := by
        by_contra hnone
        rw [(ofParts?_eq_none_iff hlimit).2 ((hroom (scale + 1)).2 hnone)] at hd
        cases hd
      have hone : (1 : ℚ) ≤ 10 ^ (scale + 1) := one_le_pow₀ (by norm_num)
      rw [HasRoom, abs_mul, abs_of_pos (show (0 : ℚ) < 10 ^ (scale + 1) by positivity)] at hfits
      refine iff_of_false nofun (not_not.2 ?_)
      exact (le_mul_of_one_le_right (abs_nonneg _) hone).trans_lt hfits
    · exact ih (by omega)

/-- A number is looked for at the scales up to a limit. -/
structure Fitted (q : ℚ) (limit : ℕ) (found : Option Decimal) : Prop where
  limit_le : limit ≤ 28
  exists_eq_fit? : ∃ (negative : Bool) (num den : ℕ), 0 < den ∧
    signed negative (num / den) = q ∧ found = fit? negative num den limit

theorem Fitted.isNearest (h : Fitted q limit (some c)) : IsNearest q limit c := by
  obtain ⟨hlimit, negative, num, den, hden, rfl, hfound⟩ := h
  exact isNearest_of_fit? hden hlimit hfound.symm

theorem Fitted.eq_none_iff {found : Option Decimal} (h : Fitted q limit found) :
    found = none ↔ ¬ HasRoom q := by
  obtain ⟨hlimit, negative, num, den, hden, rfl, rfl⟩ := h
  exact fit?_eq_none_iff hden hlimit

end Fit

end ProcessTest.Decimal
