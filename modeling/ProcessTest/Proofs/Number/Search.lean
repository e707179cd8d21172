import Mathlib.Data.Nat.Cast.Order.Field
import ProcessTest.Proofs.Number.Magnitude

/-!
# The fewest digits that read back

The search for the shortest decimal tries one digit, two digits and so on.  It always finds one:
seventeen digits lie closer together than the ends of the interval of any double.

* `Span.zpow_magnitude_le` — the power of ten from which digits are counted.
* `Span.exists_pick?` — a grid finer than the interval has a hit.
* `exists_search` — the search ends with a decimal of the interval.
-/

set_option autoImplicit false

namespace ProcessTest.Binary64

variable {x : Binary64}

namespace Span

variable {s : Span} {places : ℤ} {n : ℕ}

/-! ## Powers of ten -/

/-- A logarithm to base ten, estimated from below by the one to base two. -/
theorem ten_zpow_le_two_zpow {n l : ℤ} (hl : |l| ≤ 2000) (h : 100000 * (n + 1) ≤ 30103 * l) :
    (10 : ℚ) ^ n ≤ 2 ^ (l - 1) := by
  obtain ⟨hlow, hhigh⟩ := abs_le.1 hl
  have hcomm (a : ℚ) (i : ℤ) (k : ℕ) : (a ^ i) ^ k = (a ^ k) ^ i := by
    rw [← zpow_natCast, ← zpow_natCast, ← zpow_mul, ← zpow_mul, mul_comm]
  -- The quotient 103 / 31 is above the logarithm of ten to base two, and 93 / 28 is below it.
  rcases le_total 0 n with hn | hn
  · refine le_of_pow_le_pow_left₀ (n := 31) (by decide) (by positivity) ?_
    calc ((10 : ℚ) ^ n) ^ 31 = (10 ^ 31) ^ n := hcomm _ _ _
      _ ≤ (2 ^ 103) ^ n := zpow_le_zpow_left₀ hn (by norm_num) (by norm_num)
      _ = 2 ^ (103 * n) := by rw [zpow_mul, ← zpow_natCast]; rfl
      _ ≤ 2 ^ ((l - 1) * 31) := zpow_le_zpow_right₀ one_le_two (by omega)
      _ = (2 ^ (l - 1)) ^ 31 := by rw [zpow_mul, ← zpow_natCast]; rfl
  · refine le_of_pow_le_pow_left₀ (n := 28) (by decide) (by positivity) ?_
    calc ((10 : ℚ) ^ n) ^ 28 = ((10 ^ 28) ^ (-n))⁻¹ := by rw [hcomm, zpow_neg, inv_inv]
      _ ≤ ((2 ^ 93) ^ (-n))⁻¹ :=
        inv_anti₀ (by positivity) (zpow_le_zpow_left₀ (by omega) (by norm_num) (by norm_num))
      _ = 2 ^ (93 * n) := by rw [zpow_neg, inv_inv, zpow_mul, ← zpow_natCast]; rfl
      _ ≤ 2 ^ ((l - 1) * 28) := zpow_le_zpow_right₀ one_le_two (by omega)
      _ = (2 ^ (l - 1)) ^ 28 := by rw [zpow_mul, ← zpow_natCast]; rfl

/-- Whether the value reaches a power of ten. -/
def reaches (s : Span) (e : ℤ) : Bool :=
  if 0 ≤ e then s.den * Nat.pow 10 e.toNat ≤ s.value else s.den ≤ s.value * Nat.pow 10 (-e).toNat

theorem reaches_iff (hden : 0 < s.den) (e : ℤ) : s.reaches e = true ↔ (10 : ℚ) ^ e ≤ s.exact := by
  have hden' : (0 : ℚ) < s.den := by exact_mod_cast hden
  rw [exact, le_div_iff₀ hden', reaches]
  by_cases h : 0 ≤ e
  · obtain ⟨k, rfl⟩ := Int.eq_ofNat_of_zero_le h
    rw [if_pos h, decide_eq_true_eq, Int.toNat_natCast, zpow_natCast, mul_comm, Nat.pow_eq]
    exact_mod_cast Iff.rfl
  · obtain ⟨k, hk⟩ := Int.eq_ofNat_of_zero_le (show 0 ≤ -e by omega)
    rw [if_neg h, decide_eq_true_eq, hk, Int.toNat_natCast, ← neg_neg e, hk, zpow_neg, zpow_natCast,
      Nat.pow_eq, inv_mul_le_iff₀ (by positivity), mul_comm]
    exact_mod_cast Iff.rfl

/-- The estimate of the magnitude from the two logarithms. -/
def guess (s : Span) : ℤ := ((Nat.log2 s.value : ℤ) - (Nat.log2 s.den : ℤ)) * 30103 / 100000

theorem magnitude_eq (s : Span) : s.magnitude = if s.reaches (s.guess + 1) then s.guess + 1
    else if s.reaches s.guess then s.guess else s.guess - 1 := rfl

/-- The two logarithms give the magnitude up to a factor of two. -/
theorem two_zpow_lt_exact (hvalue : s.value ≠ 0) (hden : 0 < s.den) :
    (2 : ℚ) ^ ((Nat.log2 s.value : ℤ) - Nat.log2 s.den - 1) < s.exact ∧
      s.exact < 2 ^ ((Nat.log2 s.value : ℤ) - Nat.log2 s.den + 1) := by
  have hden' : (0 : ℚ) < s.den := by exact_mod_cast hden
  have hvlow : (2 : ℚ) ^ Nat.log2 s.value ≤ s.value := by exact_mod_cast Nat.log2_self_le hvalue
  have hvhigh : (s.value : ℚ) < 2 ^ (Nat.log2 s.value + 1) := by exact_mod_cast Nat.lt_log2_self
  have hdlow : (2 : ℚ) ^ Nat.log2 s.den ≤ s.den := by
    exact_mod_cast Nat.log2_self_le hden.ne'
  have hdhigh : (s.den : ℚ) < 2 ^ (Nat.log2 s.den + 1) := by exact_mod_cast Nat.lt_log2_self
  constructor
  · rw [exact, lt_div_iff₀ hden', sub_sub, zpow_sub₀ two_ne_zero, zpow_natCast, ← Nat.cast_succ,
      zpow_natCast, div_mul_eq_mul_div, div_lt_iff₀ (by positivity)]
    exact mul_lt_mul' hvlow hdhigh hden'.le (by positivity)
  · rw [exact, div_lt_iff₀ hden', sub_add_eq_add_sub, zpow_sub₀ two_ne_zero, zpow_natCast,
      ← Nat.cast_succ, zpow_natCast, div_mul_eq_mul_div, lt_div_iff₀ (by positivity)]
    exact mul_lt_mul hvhigh hdlow (by positivity) (by positivity)

/-- Digits are counted from a power of ten that the value reaches. -/
theorem ten_zpow_magnitude_le (hden : 0 < s.den) (hlow : 2 ^ (-1074 : ℤ) ≤ s.exact)
    (hhigh : s.exact < 2 ^ (1024 : ℤ)) : (10 : ℚ) ^ s.magnitude ≤ s.exact := by
  have hvalue : s.value ≠ 0 := by
    intro h
    rw [exact, h, Nat.cast_zero, zero_div] at hlow
    exact absurd hlow (not_le.2 (by positivity))
  rw [magnitude_eq]
  split_ifs with hnext hguess
  · exact (reaches_iff hden _).1 hnext
  · exact (reaches_iff hden _).1 hguess
  · obtain ⟨hbelow, habove⟩ := two_zpow_lt_exact hvalue hden
    unfold guess
    generalize (Nat.log2 s.value : ℤ) - Nat.log2 s.den = l at hbelow habove
    have h₁ := (zpow_lt_zpow_iff_right₀ one_lt_two).1 (hbelow.trans hhigh)
    have h₂ := (zpow_lt_zpow_iff_right₀ one_lt_two).1 (hlow.trans_lt habove)
    refine (ten_zpow_le_two_zpow (abs_le.2 ⟨by omega, by omega⟩) ?_).trans hbelow.le
    omega

/-! ## Grids -/

/-- The value lies between two neighbours of the grid. -/
theorem grid_spec (hden : 0 < s.den) (places : ℤ) :
    ((s.grid places).1 : ℚ) * 10 ^ (-places) ≤ s.exact ∧
      s.exact < ((s.grid places).1 + 1 : ℕ) * 10 ^ (-places) := by
  -- The value in units of the grid is the quotient that is cut.
  obtain ⟨num, den, hpos, hgrid, hexact⟩ : ∃ num den : ℕ, 0 < den ∧
      (s.grid places).1 = num / den ∧ s.exact = num / den * 10 ^ (-places) := by
    by_cases h : 0 ≤ places
    · obtain ⟨k, rfl⟩ := Int.eq_ofNat_of_zero_le h
      refine ⟨s.value * 10 ^ k, s.den, hden, by simp [grid], ?_⟩
      rw [exact, zpow_neg, zpow_natCast]
      push_cast
      field_simp
    · obtain ⟨k, hk⟩ := Int.eq_ofNat_of_zero_le (show 0 ≤ -places by omega)
      refine ⟨s.value, s.den * 10 ^ k, by positivity, by simp [grid, h, hk], ?_⟩
      rw [exact, hk, zpow_natCast]
      push_cast
      field_simp
  have hden' : (0 : ℚ) < den := by exact_mod_cast hpos
  have hunit : (0 : ℚ) < 10 ^ (-places) := by positivity
  rw [hgrid, hexact]
  constructor
  · exact mul_le_mul_of_nonneg_right Nat.cast_div_le hunit.le
  · refine mul_lt_mul_of_pos_right ?_ hunit
    rw [div_lt_iff₀ hden', mul_comm]
    exact_mod_cast Nat.lt_mul_div_succ num hpos

/-- What is picked lies in the interval and is not zero. -/
theorem contains_of_pick? (h : s.pick? places = some n) :
    s.contains places n = true ∧ n ≠ 0 := by
  unfold pick? at h
  simp only at h
  generalize (s.grid places).1 = d at h
  split at h
  · rename_i hlow hhigh
    obtain ⟨hlow, hd⟩ := Bool.and_eq_true_iff.1 hlow
    rw [bne_iff_ne] at hd
    -- The even one of the two is one of the two.
    have hcases : n = d ∨ n = d + 1 := by
      split_ifs at h <;> simp only [Option.some.injEq] at h <;> omega
    rcases hcases with rfl | rfl
    · exact ⟨hlow, hd⟩
    · exact ⟨hhigh, Nat.succ_ne_zero d⟩
  · rename_i hlow _
    obtain rfl := Option.some.inj h
    obtain ⟨hlow, hd⟩ := Bool.and_eq_true_iff.1 hlow
    exact ⟨hlow, bne_iff_ne.1 hd⟩
  · rename_i hhigh
    obtain rfl := Option.some.inj h
    exact ⟨hhigh, Nat.succ_ne_zero d⟩
  · cases h

/-- A grid that is finer than the interval has a hit. -/
theorem exists_pick? (hden : 0 < s.den) (hlow : s.lowest < s.exact) (hhigh : s.exact < s.highest)
    (hunit : (10 : ℚ) ^ (-places) ≤ s.exact)
    (hwidth : (10 : ℚ) ^ (-places) < s.highest - s.lowest) : ∃ n, s.pick? places = some n := by
  obtain ⟨hbelow, habove⟩ := grid_spec hden places
  have hd : (s.grid places).1 ≠ 0 := by
    intro h
    rw [h, zero_add, Nat.cast_one, one_mul] at habove
    exact absurd habove (not_lt.2 hunit)
  -- The lower neighbour is the hit unless the upper one is.
  have hhit : s.contains places (s.grid places).1 = true ∨
      s.contains places ((s.grid places).1 + 1) = true := by
    simp only [contains_iff hden]
    rw [Nat.cast_succ, add_one_mul] at habove
    rw [Nat.cast_succ, add_one_mul]
    rcases lt_or_ge s.lowest ((s.grid places).1 * 10 ^ (-places)) with hin | hout
    · exact .inl (has_of_lt hin (by linarith))
    · exact .inr (has_of_lt (by linarith) (by linarith))
  unfold pick?
  simp only
  split
  · exact ⟨_, rfl⟩
  · exact ⟨_, rfl⟩
  · exact ⟨_, rfl⟩
  · rename_i hnot hnext
    rw [hnext, or_iff_left Bool.false_ne_true] at hhit
    simp [hhit, hd] at hnot

/-! ## The search -/

theorem pick?_of_search {m : ℤ} {fuel k : ℕ} (h : s.search m fuel k = some (n, places)) :
    s.pick? places = some n := by
  induction fuel generalizing k with
  | zero => cases h
  | succ fuel ih =>
    unfold search at h
    simp only at h
    split at h
    · rename_i hpick
      cases h
      exact hpick
    · exact ih h

/-- The search ends at the first hit, at the latest where one is known. -/
theorem exists_search {m : ℤ} {fuel k : ℕ} (last : ℕ) (hk : k ≤ last) (hlast : last < k + fuel)
    (h : ∃ n, s.pick? (last - 1 - m) = some n) : ∃ r, s.search m fuel k = some r := by
  induction fuel generalizing k with
  | zero => omega
  | succ fuel ih =>
    unfold search
    simp only
    split
    · exact ⟨_, rfl⟩
    · rename_i hnone
      refine ih ?_ (by omega)
      -- The hit is not here, so it comes later.
      rcases hk.eq_or_lt with rfl | hlt
      · obtain ⟨n, hn⟩ := h
        rw [hnone] at hn
        cases hn
      · exact hlt

end Span

/-! ## Doubles -/

theorem size_lt (x : Binary64) : size x.code < 2 ^ (1024 : ℤ) := by
  have hsig : (significand x.code : ℚ) < 2 ^ 53 := by exact_mod_cast significand_lt x.code
  have hbinade : binade x.code ≤ 2045 := by
    have := x.code_lt
    simp only [magnitudes, Nat.pow_eq] at this
    unfold binade
    omega
  calc size x.code < 2 ^ 53 * ulp x.code := mul_lt_mul_of_pos_right hsig (ulp_pos _)
    _ = 2 ^ (53 + ((binade x.code : ℤ) - 1074)) := by
      rw [zpow_add₀ two_ne_zero, ulp, ← zpow_natCast]
      rfl
    _ ≤ 2 ^ (1024 : ℤ) := zpow_le_zpow_right₀ one_le_two (by omega)

theorem le_size (hx : x.code ≠ 0) : 2 ^ (-1074 : ℤ) ≤ size x.code := by
  have hone := size_strictMono.monotone (Nat.one_le_iff_ne_zero.2 hx)
  have hulp : ulp 0 = 2 ^ (-1074 : ℤ) := by simp [ulp, binade]
  rwa [size_succ, size_zero, zero_add, hulp] at hone

/-- **Seventeen digits suffice**: the search for the fewest digits ends with a decimal that rounds
to the number. -/
theorem exists_search_span (hx : x.code ≠ 0) : ∃ n places,
    x.span.search x.span.magnitude 17 1 = some (n, places) ∧ n ≠ 0 ∧
      x.span.Has (n * 10 ^ (-places)) := by
  have hden := span_den_pos x
  have hreach : (10 : ℚ) ^ x.span.magnitude ≤ size x.code := by
    rw [← span_exact]
    refine Span.ten_zpow_magnitude_le hden ?_ ?_
    · rw [span_exact]
      exact le_size hx
    · rw [span_exact]
      exact size_lt x
  have hunit : (10 : ℚ) ^ (-((17 : ℕ) - 1 - x.span.magnitude)) ≤ size x.code / 10 ^ 16 := by
    refine le_trans (le_of_eq ?_) (div_le_div_of_nonneg_right hreach (by positivity))
    rw [← zpow_natCast, ← zpow_sub₀ (by norm_num)]
    congr 1
    push_cast
    ring
  have hsize := size_strictMono (Nat.pos_of_ne_zero hx)
  have hwidth := size_lt_width hx
  rw [size_zero] at hsize
  obtain ⟨⟨n, places⟩, hsearch⟩ : ∃ r, x.span.search x.span.magnitude 17 1 = some r := by
    refine Span.exists_search 17 (by decide) (by decide) (Span.exists_pick? hden ?_ ?_ ?_ ?_)
    · rw [span_exact]
      exact span_lowest_lt hx
    · rw [span_exact]
      exact lt_span_highest x
    · rw [span_exact]
      exact hunit.trans (div_le_self hsize.le (by norm_num))
    · refine hunit.trans_lt ?_
      rw [span_highest, span_lowest hx]
      linarith
  obtain ⟨hcontains, hn⟩ := Span.contains_of_pick? (Span.pick?_of_search hsearch)
  exact ⟨n, places, hsearch, hn, (Span.contains_iff hden _ _).1 hcontains⟩

end ProcessTest.Binary64
