import Mathlib.Algebra.Order.Field.Power
import Mathlib.Tactic.FieldSimp
import Mathlib.Tactic.Linarith
import Mathlib.Tactic.NormNum
import Mathlib.Tactic.Positivity
import Mathlib.Tactic.Ring
import ProcessTest.Number.Shortest

/-!
# Magnitudes of doubles

The magnitudes as rational numbers, counted by their codes.  From one code to the next the
magnitude grows by one unit in the last place, and the interval that rounds to a number reaches
half way to both neighbours; so no rational number lies in the intervals of two magnitudes.

* `size` — the magnitude of a code; `size_succ`, `size_strictMono`.
* `Span.Has` — membership in an interval; `Span.contains_iff` for a decimal.
* `span_lowest`, `span_highest` — the ends are the middles between neighbours.
* `code_eq_of_has` — the intervals of different magnitudes have nothing in common.
-/

set_option autoImplicit false

namespace ProcessTest.Binary64

variable {x y : Binary64} {t : ℚ}

/-! ## Codes -/

/-- The binade of a code, counted from the one of the least normal magnitude. -/
def binade (c : ℕ) : ℕ := c / 2 ^ 52 - 1

/-- The significand of a code. -/
def significand (c : ℕ) : ℕ := c - 2 ^ 52 * binade c

/-- The unit in the last place. -/
def ulp (c : ℕ) : ℚ := 2 ^ ((binade c : ℤ) - 1074)

/-- The magnitude of a code. -/
def size (c : ℕ) : ℚ := significand c * ulp c

theorem parts_eq (x : Binary64) :
    x.parts = (significand x.code, (binade x.code : ℤ) - 1074) := by
  unfold parts significand binade
  simp only [Nat.pow_eq, Nat.reducePow]
  split <;> simp only [Prod.mk.injEq] <;> omega

theorem ulp_pos (c : ℕ) : 0 < ulp c := by
  unfold ulp
  positivity

theorem significand_lt (c : ℕ) : significand c < 2 ^ 53 := by
  unfold significand binade
  omega

/-- A new binade begins with the least significand; elsewhere the significand grows by one. -/
theorem binade_succ (c : ℕ) :
    (binade (c + 1) = binade c ∧ significand (c + 1) = significand c + 1 ∧
        (significand (c + 1) = 2 ^ 52 → binade (c + 1) = 0)) ∨
      (binade (c + 1) = binade c + 1 ∧ significand c + 1 = 2 ^ 53 ∧
        significand (c + 1) = 2 ^ 52) := by
  unfold significand binade
  omega

theorem ulp_of_binade_succ {c d : ℕ} (h : binade d = binade c + 1) : ulp d = 2 * ulp c := by
  unfold ulp
  rw [h, ← zpow_one_add₀ two_ne_zero]
  congr 1
  push_cast
  ring

/-- The next magnitude is one unit away. -/
theorem size_succ (c : ℕ) : size (c + 1) = size c + ulp c := by
  unfold size
  rcases binade_succ c with ⟨hbinade, hsig, -⟩ | ⟨hbinade, hlast, hsig⟩
  · rw [hsig, show ulp (c + 1) = ulp c by simp only [ulp, hbinade]]
    push_cast
    ring
  · have hlast' : (significand c : ℚ) + 1 = 2 ^ 53 := by exact_mod_cast hlast
    rw [hsig, ulp_of_binade_succ hbinade, eq_sub_iff_add_eq.2 hlast']
    push_cast
    ring

theorem size_strictMono : StrictMono size :=
  strictMono_nat_of_lt_succ fun c => by
    rw [size_succ]
    exact lt_add_of_pos_right _ (ulp_pos c)

theorem size_zero : size 0 = 0 := by
  simp [size, significand]

/-- Half way to the neighbours on both sides is more than a part in `10^16` of the magnitude. -/
theorem size_lt_width {c : ℕ} (hc : c ≠ 0) :
    size c < 10 ^ 16 * ((size (c + 1) - size (c - 1)) / 2) := by
  obtain ⟨b, rfl⟩ : ∃ b, c = b + 1 := ⟨c - 1, by omega⟩
  have hsucc := size_succ (b + 1)
  have hpred := size_succ b
  have hpos := ulp_pos b
  rw [Nat.add_sub_cancel]
  rcases binade_succ b with ⟨hbinade, -⟩ | ⟨hbinade, -, hsig⟩
  · have hulp : ulp (b + 1) = ulp b := by simp only [ulp, hbinade]
    have hlt : ((significand (b + 1) : ℕ) : ℚ) < 2 ^ 53 := by exact_mod_cast significand_lt (b + 1)
    have hsize : size (b + 1) < 2 ^ 53 * ulp b := by
      rw [size, hulp]
      exact mul_lt_mul_of_pos_right hlt hpos
    rw [hulp] at hsucc
    linarith
  · have hulp := ulp_of_binade_succ hbinade
    have hsize : size (b + 1) = 2 ^ 52 * (2 * ulp b) := by
      rw [size, hsig, hulp]
      norm_num
    rw [hulp] at hsucc
    linarith

/-! ## Intervals -/

namespace Span

variable {s : Span}

/-- The lower end. -/
def lowest (s : Span) : ℚ := s.low / s.den

/-- The magnitude. -/
def exact (s : Span) : ℚ := s.value / s.den

/-- The upper end. -/
def highest (s : Span) : ℚ := s.high / s.den

/-- Whether a number lies in the interval. -/
def Has (s : Span) (t : ℚ) : Prop :=
  if s.closed then s.lowest ≤ t ∧ t ≤ s.highest else s.lowest < t ∧ t < s.highest

theorem Has.le (h : s.Has t) : s.lowest ≤ t ∧ t ≤ s.highest := by
  unfold Has at h
  split at h
  · exact h
  · exact ⟨h.1.le, h.2.le⟩

theorem has_of_lt (hlow : s.lowest < t) (hhigh : t < s.highest) : s.Has t := by
  unfold Has
  split
  · exact ⟨hlow.le, hhigh.le⟩
  · exact ⟨hlow, hhigh⟩

/-- An end lies in the interval only if both do. -/
theorem Has.closed (h : s.Has t) (hend : t = s.lowest ∨ t = s.highest) : s.closed = true := by
  by_contra hopen
  rw [Has, if_neg hopen] at h
  rcases hend with rfl | rfl
  · exact lt_irrefl _ h.1
  · exact lt_irrefl _ h.2

/-- A whole number over a power of ten is tested without division. -/
theorem contains_iff (hden : 0 < s.den) (places : ℤ) (n : ℕ) :
    s.contains places n = true ↔ s.Has (n * 10 ^ (-places)) := by
  have hden' : (0 : ℚ) < s.den := by exact_mod_cast hden
  -- Both sides of every comparison are multiplied by `den` and by the power of ten.
  obtain ⟨lhs, scale, hscale, hcontains, hlhs⟩ : ∃ lhs scale : ℕ, 0 < scale ∧
      (s.contains places n = if s.closed then s.low * scale ≤ lhs && lhs ≤ s.high * scale
        else s.low * scale < lhs && lhs < s.high * scale) ∧
      (n * 10 ^ (-places) : ℚ) = lhs / (s.den * scale) := by
    by_cases h : 0 ≤ places
    · obtain ⟨k, rfl⟩ := Int.eq_ofNat_of_zero_le h
      refine ⟨n * s.den, 10 ^ k, by positivity, by simp [contains], ?_⟩
      push_cast
      rw [zpow_neg, zpow_natCast]
      field_simp
    · obtain ⟨k, hk⟩ := Int.eq_ofNat_of_zero_le (show 0 ≤ -places by omega)
      refine ⟨n * 10 ^ k * s.den, 1, by positivity, by simp [contains, h, hk], ?_⟩
      rw [hk, zpow_natCast]
      push_cast
      field_simp
  have hscale' : (0 : ℚ) < scale := by exact_mod_cast hscale
  have hle (a b : ℕ) : (a : ℚ) / s.den ≤ b / (s.den * scale) ↔ a * scale ≤ b := by
    rw [div_le_div_iff₀ hden' (by positivity), ← mul_assoc, mul_right_comm,
      mul_le_mul_iff_left₀ hden']
    exact_mod_cast Iff.rfl
  have hge (a b : ℕ) : (b : ℚ) / (s.den * scale) ≤ a / s.den ↔ b ≤ a * scale := by
    rw [div_le_div_iff₀ (by positivity) hden', ← mul_assoc, mul_right_comm,
      mul_le_mul_iff_left₀ hden']
    exact_mod_cast Iff.rfl
  rw [hcontains, hlhs, Has, lowest, highest]
  split
  · simp only [Bool.and_eq_true, decide_eq_true_eq, hle, hge]
  · simp only [Bool.and_eq_true, decide_eq_true_eq, ← not_le, hle, hge]

end Span

/-- A span counts quarters of the unit in the last place. -/
theorem quarters_div_den (q : ℤ) (n : ℕ) :
    ((if 0 ≤ q then n * Nat.pow 2 q.toNat else n : ℕ) : ℚ) /
      (if 0 ≤ q then 4 else 4 * Nat.pow 2 (-q).toNat : ℕ) = n / 4 * 2 ^ q := by
  by_cases h : 0 ≤ q
  · obtain ⟨k, rfl⟩ := Int.eq_ofNat_of_zero_le h
    rw [if_pos h, if_pos h, Int.toNat_natCast, zpow_natCast, Nat.pow_eq]
    push_cast
    ring
  · obtain ⟨k, hk⟩ := Int.eq_ofNat_of_zero_le (show 0 ≤ -q by omega)
    rw [if_neg h, if_neg h, hk, Int.toNat_natCast, Nat.pow_eq, ← neg_neg q, hk, zpow_neg,
      zpow_natCast]
    push_cast
    field_simp

theorem span_exact (x : Binary64) : x.span.exact = size x.code := by
  have h := quarters_div_den ((binade x.code : ℤ) - 1074) (4 * significand x.code)
  rw [Span.exact, size, ulp]
  simp only [span, parts_eq]
  rw [h]
  push_cast
  ring

/-- The upper end is half way to the next magnitude. -/
theorem span_highest (x : Binary64) :
    x.span.highest = (size x.code + size (x.code + 1)) / 2 := by
  have h := quarters_div_den ((binade x.code : ℤ) - 1074) (4 * significand x.code + 2)
  rw [Span.highest, size_succ, size, ulp]
  simp only [span, parts_eq]
  rw [h]
  push_cast
  ring

/-- The lower end is half way to the magnitude before. -/
theorem span_lowest (hx : x.code ≠ 0) :
    x.span.lowest = (size (x.code - 1) + size x.code) / 2 := by
  obtain ⟨b, hb⟩ : ∃ b, x.code = b + 1 := ⟨x.code - 1, by omega⟩
  rw [hb, Nat.add_sub_cancel, size_succ, Span.lowest]
  simp only [span, parts_eq, hb]
  rw [quarters_div_den]
  rcases binade_succ b with ⟨hbinade, hsig, hleast⟩ | ⟨hbinade, -, hsig⟩
  · have hgap : (significand (b + 1) = Nat.pow 2 52 &&
        decide (-1074 < (binade (b + 1) : ℤ) - 1074)) = false := by
      simp only [Nat.pow_eq, Bool.and_eq_false_imp, decide_eq_true_eq, decide_eq_false_iff_not]
      intro h
      rw [hleast h]
      decide
    rw [hgap, if_neg Bool.false_ne_true, hsig, hbinade, size, ulp]
    rw [show 4 * (significand b + 1) - 2 = 4 * significand b + 2 by omega]
    push_cast
    ring
  · have hgap : (significand (b + 1) = Nat.pow 2 52 &&
        decide (-1074 < (binade (b + 1) : ℤ) - 1074)) = true := by
      rw [hsig, hbinade, Bool.and_eq_true, decide_eq_true_eq, decide_eq_true_eq]
      exact ⟨rfl, by push_cast; omega⟩
    have hulp := ulp_of_binade_succ hbinade
    have hsize := size_succ b
    rw [size, hsig, hulp] at hsize
    rw [hgap, if_pos rfl, hsig, ← ulp, hulp]
    push_cast at hsize ⊢
    linarith

theorem span_den_pos (x : Binary64) : 0 < x.span.den := by
  simp only [span, Nat.pow_eq]
  split <;> positivity

/-- The ends round to a number of even code. -/
theorem span_closed_iff (x : Binary64) : x.span.closed = true ↔ x.code % 2 = 0 := by
  simp only [span, parts_eq, significand, beq_iff_eq]
  have : 2 ^ 52 * binade x.code ≤ x.code := by
    unfold binade
    omega
  omega

theorem span_lowest_lt (hx : x.code ≠ 0) : x.span.lowest < size x.code := by
  have hlt := size_strictMono (show x.code - 1 < x.code by omega)
  rw [span_lowest hx]
  linarith

theorem lt_span_highest (x : Binary64) : size x.code < x.span.highest := by
  have hlt := size_strictMono (Nat.lt_succ_self x.code)
  rw [span_highest]
  linarith

/-- Numbers that round to a nonzero magnitude are positive. -/
theorem Span.Has.pos (h : x.span.Has t) (hx : x.code ≠ 0) : 0 < t := by
  have hpred := size_strictMono.monotone (Nat.zero_le (x.code - 1))
  have hlt := size_strictMono (Nat.pos_of_ne_zero hx)
  rw [size_zero] at hpred hlt
  have hle := h.le.1
  rw [span_lowest hx] at hle
  linarith

theorem code_le_of_has (hy : y.code ≠ 0) (hxt : x.span.Has t) (hyt : y.span.Has t) :
    y.code ≤ x.code := by
  by_contra! hlt
  have hhigh := hxt.le.2
  have hlow := hyt.le.1
  have hpred := size_strictMono.monotone (show x.code ≤ y.code - 1 by omega)
  have hself := size_strictMono.monotone (show x.code + 1 ≤ y.code by omega)
  rw [span_highest] at hhigh
  rw [span_lowest hy] at hlow
  -- Only neighbours touch, and of two neighbours one is odd.
  have hnext : y.code = x.code + 1 := size_strictMono.injective (by linarith)
  have hx := (span_closed_iff x).1 (hxt.closed (.inr (by rw [span_highest]; linarith)))
  have hy := (span_closed_iff y).1 (hyt.closed (.inl (by rw [span_lowest hy]; linarith)))
  omega

/-- **A rational number rounds to one magnitude at most.** -/
theorem code_eq_of_has (hx : x.code ≠ 0) (hy : y.code ≠ 0) (hxt : x.span.Has t)
    (hyt : y.span.Has t) : x.code = y.code :=
  le_antisymm (code_le_of_has hx hyt hxt) (code_le_of_has hy hxt hyt)

end ProcessTest.Binary64
