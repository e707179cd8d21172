import ProcessTest.Proofs.Decoding.Success
import ProcessTest.Proofs.Number.Arithmetic
import ProcessTest.Rule.Tax

/-!
# Amounts of tax

Of net, tax and gross, one is the given amount and one is computed from it, both rounded to two
places; the third is their sum or difference.

* `computeTax_eq_ok_iff` — a breakdown in these terms.
* `exists_unrounded` — the product or quotient is always found, is near the exact one and is not
  above the amount.
* `exists_computeTax_addsUp` — amounts with room for two places have a breakdown, and it adds up
  in hundredths.
* `computed_value_eq_iff` — the computed amount is the exact one rounded once, unless the middle
  between two hundredths comes between the exact product or quotient and the one that is found.
-/

set_option autoImplicit false

namespace ProcessTest.Rule

open Decimal (Approximates IsDecimal)
open Rounding (awayFromZero MiddleBetween)
open Decode

variable {amount rate p : Decimal} {mode : TaxMode} {b : TaxBreakdown}

/-! ## The amounts of a breakdown -/

/-- The exact amount of what is computed: the tax on a net amount, or the net amount of a gross
one. -/
def exactComputed (amount rate : ℚ) : TaxMode → ℚ
  | .exclusive => amount * rate
  | .inclusive => amount / (1 + rate)

/-- What is found for it before it is rounded to places. -/
def unrounded (amount rate : Decimal) : TaxMode → Option Decimal
  | .exclusive => amount.mul? rate
  | .inclusive => (Decimal.one.add? rate).bind amount.div?

namespace TaxBreakdown

/-- The amount that the breakdown is of. -/
def given (b : TaxBreakdown) : Decimal :=
  match b.mode with
  | .exclusive => b.net
  | .inclusive => b.gross

/-- The amount that is computed from it with the rate. -/
def computed (b : TaxBreakdown) : Decimal :=
  match b.mode with
  | .exclusive => b.tax
  | .inclusive => b.net

/-- The last amount is found from the other two. -/
def Completed (b : TaxBreakdown) : Prop :=
  match b.mode with
  | .exclusive => b.net.add? b.tax = some b.gross
  | .inclusive => b.gross.sub? b.net = some b.tax

/-- The amounts have two places, are not negative, and add up in hundredths. -/
structure AddsUp (b : TaxBreakdown) : Prop where
  net_scale : b.net.scale = 2
  tax_scale : b.tax.scale = 2
  gross_scale : b.gross.scale = 2
  net_nonneg : 0 ≤ b.net.mantissa
  tax_nonneg : 0 ≤ b.tax.mantissa
  gross_nonneg : 0 ≤ b.gross.mantissa
  sum : b.net.mantissa + b.tax.mantissa = b.gross.mantissa

end TaxBreakdown

theorem orError_eq_ok_iff {α : Type} {error : Error} {found : Option α} {a : α} :
    orError error found = .ok a ↔ found = some a := by
  cases found <;> simp [orError]

/-- A breakdown of an amount: the given amount and the computed one are rounded, and the last one
is found from these. -/
theorem computeTax_eq_ok_iff : computeTax amount rate mode = .ok b ↔
    (0 ≤ amount.value ∧ 0 ≤ rate.value ∧ rate.value ≤ 1) ∧ b.mode = mode ∧ b.rate = rate ∧
      b.given = rounded amount ∧ (unrounded amount rate mode).map rounded = some b.computed ∧
      b.Completed := by
  have hguards : (0 ≤ amount.value ∧ 0 ≤ rate.value ∧ rate.value ≤ 1) ↔
      ¬ amount.lt .zero = true ∧ ¬ (rate.lt .zero || Decimal.one.lt rate) = true := by
    simp only [Bool.or_eq_true, Decimal.lt_iff, Decimal.value_zero, Decimal.value_one, not_or,
      not_lt]
  rw [hguards]
  obtain ⟨net, tax, gross, rate', mode'⟩ := b
  unfold computeTax
  split
  · rename_i hnegative
    exact iff_of_false nofun fun h => h.1.1 hnegative
  split
  · rename_i _ houtside
    exact iff_of_false nofun fun h => h.1.2 houtside
  rename_i hamount hrate
  rw [and_iff_right ⟨hamount, hrate⟩]
  cases mode with
  | exclusive =>
    simp only [bind_eq_ok_iff, orError_eq_ok_iff, pure, Except.pure, Except.ok.injEq,
      TaxBreakdown.mk.injEq, unrounded]
    constructor
    · rintro ⟨_, htax, _, hgross, rfl, rfl, rfl, rfl, rfl⟩
      exact ⟨rfl, rfl, rfl, htax, hgross⟩
    · rintro ⟨rfl, rfl, hnet, htax, hgross⟩
      exact ⟨tax, htax, gross, hnet ▸ hgross, hnet.symm, rfl, rfl, rfl, rfl⟩
  | inclusive =>
    simp only [bind_eq_ok_iff, orError_eq_ok_iff, pure, Except.pure, Except.ok.injEq,
      TaxBreakdown.mk.injEq, unrounded]
    constructor
    · rintro ⟨_, hnet, _, htax, rfl, rfl, rfl, rfl, rfl⟩
      exact ⟨rfl, rfl, rfl, hnet, htax⟩
    · rintro ⟨rfl, rfl, hgross, hnet, htax⟩
      exact ⟨net, hnet, tax, hgross ▸ htax, rfl, rfl, hgross.symm, rfl, rfl⟩

/-! ## Before rounding to places -/

/-- One and a rate are a decimal: the rate has room for one more in front of the point. -/
theorem isDecimal_one_add_rate (hrate : 0 ≤ rate.value) (hrate' : rate.value ≤ 1) :
    IsDecimal (Decimal.one.value + rate.value) := by
  have hscale : (10 : ℚ) ^ rate.scale ≤ 10 ^ 28 :=
    pow_le_pow_right₀ (by norm_num) rate.scale_le
  have hwhole : (Decimal.one.value + rate.value) * 10 ^ rate.scale =
      (10 ^ rate.scale + rate.mantissa : ℤ) := by
    rw [Decimal.value_one, add_mul, one_mul, Decimal.value_mul_pow]
    push_cast
    rfl
  refine Decimal.isDecimal_of_mul_pow hwhole ?_ rate.scale_le
  have hsize : (((10 ^ rate.scale + rate.mantissa : ℤ).natAbs : ℕ) : ℚ) < Decimal.bound := by
    rw [Nat.cast_natAbs, Int.cast_abs, ← hwhole, Decimal.value_one, abs_of_nonneg (by positivity)]
    calc (1 + rate.value) * 10 ^ rate.scale ≤ 2 * 10 ^ 28 := by gcongr; linarith
      _ < Decimal.bound := by norm_num [Decimal.bound]
  exact_mod_cast hsize

theorem exactComputed_nonneg (mode : TaxMode) (hamount : 0 ≤ amount.value)
    (hrate : 0 ≤ rate.value) : 0 ≤ exactComputed amount.value rate.value mode := by
  cases mode with
  | exclusive => exact mul_nonneg hamount hrate
  | inclusive => exact div_nonneg hamount (by linarith)

theorem exactComputed_le (mode : TaxMode) (hamount : 0 ≤ amount.value) (hrate : 0 ≤ rate.value)
    (hrate' : rate.value ≤ 1) : exactComputed amount.value rate.value mode ≤ amount.value := by
  cases mode with
  | exclusive => exact mul_le_of_le_one_right hamount hrate'
  | inclusive => exact div_le_self hamount (by linarith)

/-- The product or quotient is always found, although it may be rounded to fit, and it is not above
the amount. -/
theorem exists_unrounded (mode : TaxMode) (hamount : 0 ≤ amount.value) (hrate : 0 ≤ rate.value)
    (hrate' : rate.value ≤ 1) : ∃ p, unrounded amount rate mode = some p ∧
      p.Approximates (exactComputed amount.value rate.value mode) ∧ p.value ≤ amount.value := by
  have hroom := Decimal.hasRoom_of_le (exactComputed_nonneg mode hamount hrate)
    (exactComputed_le mode hamount hrate hrate')
  cases mode with
  | exclusive =>
    cases hp : amount.mul? rate with
    | none => exact absurd hroom (Decimal.mul?_eq_none_iff.1 hp)
    | some p =>
      exact ⟨p, hp, Decimal.approximates_of_mul? hp,
        Decimal.value_le_of_mul? hamount hrate hrate' hp⟩
  | inclusive =>
    obtain ⟨divisor, hdivisor, hvalue⟩ :=
      Decimal.exists_add?_of_isDecimal (isDecimal_one_add_rate hrate hrate')
    rw [Decimal.value_one] at hvalue
    have hone : 1 ≤ divisor.value := by linarith
    have hne : divisor.value ≠ 0 := (zero_lt_one.trans_le hone).ne'
    rw [exactComputed, ← hvalue] at hroom ⊢
    rw [unrounded, hdivisor, Option.bind_some]
    cases hp : amount.div? divisor with
    | none => exact absurd hroom ((Decimal.div?_eq_none_iff hne).1 hp)
    | some p =>
      exact ⟨p, rfl, Decimal.approximates_of_div? hne hp, Decimal.value_le_of_div? hamount hone hp⟩

/-! ## Breakdowns add up -/

/-- An amount up to three hundred septillions has room for two places. -/
theorem fits_of_le (hnonneg : 0 ≤ p.value) (hle : p.value ≤ 3 * 10 ^ 26) :
    |p.value| * 10 ^ 2 < Decimal.bound := by
  have hbound : (3 * 10 ^ 26 * 10 ^ 2 : ℚ) < Decimal.bound := by norm_num [Decimal.bound]
  rw [abs_of_nonneg hnonneg]
  exact (mul_le_mul_of_nonneg_right hle (by norm_num)).trans_lt hbound

theorem scale_rounded (hfits : |p.value| * 10 ^ 2 < Decimal.bound) : (rounded p).scale = 2 :=
  Decimal.scale_toPlaces (by decide) hfits

theorem value_rounded (p : Decimal) :
    (rounded p).value = awayFromZero (p.value * 100) / 100 := by
  have h := Decimal.value_toPlaces p taxPlaces
  norm_num [taxPlaces] at h
  rw [rounded, taxPlaces, ← h]
  ring

theorem mantissa_rounded (hfits : |p.value| * 10 ^ 2 < Decimal.bound) :
    (rounded p).mantissa = awayFromZero (p.value * 100) := by
  have h := (rounded p).value_mul_pow
  rw [scale_rounded hfits, value_rounded] at h
  norm_num at h
  exact_mod_cast h.symm

theorem mantissa_rounded_nonneg (hnonneg : 0 ≤ p.value) (hle : p.value ≤ 3 * 10 ^ 26) :
    0 ≤ (rounded p).mantissa := by
  rw [mantissa_rounded (fits_of_le hnonneg hle)]
  exact Rounding.awayFromZero_nonneg (by positivity)

theorem mantissa_rounded_mono (hnonneg : 0 ≤ p.value) (hle : p.value ≤ amount.value)
    (hmost : amount.value ≤ 3 * 10 ^ 26) : (rounded p).mantissa ≤ (rounded amount).mantissa := by
  rw [mantissa_rounded (fits_of_le hnonneg (hle.trans hmost)),
    mantissa_rounded (fits_of_le (hnonneg.trans hle) hmost)]
  exact Rounding.awayFromZero_mono (by positivity) (by gcongr)

theorem mantissa_rounded_le (hnonneg : 0 ≤ p.value) (hle : p.value ≤ 3 * 10 ^ 26) :
    (rounded p).mantissa ≤ 3 * 10 ^ 28 := by
  rw [mantissa_rounded (fits_of_le hnonneg hle), ← Rounding.awayFromZero_intCast (3 * 10 ^ 28)]
  refine Rounding.awayFromZero_mono (by positivity) ?_
  push_cast
  linarith

/-- **Breakdowns add up.**  An amount from zero to three hundred septillions, at a rate from zero to
one, has a breakdown: its amounts have two places and are not negative, and net and tax are the
gross amount in hundredths.  The given amount of it is the amount rounded once, a tie away from
zero. -/
theorem exists_computeTax_addsUp (amount rate : Decimal) (mode : TaxMode)
    (hamount : 0 ≤ amount.value ∧ amount.value ≤ 3 * 10 ^ 26)
    (hrate : 0 ≤ rate.value ∧ rate.value ≤ 1) :
    ∃ b, computeTax amount rate mode = .ok b ∧ b.mode = mode ∧ b.rate = rate ∧ b.AddsUp ∧
      b.given.mantissa = awayFromZero (amount.value * 100) := by
  obtain ⟨p, hp, happrox, hle⟩ := exists_unrounded mode hamount.1 hrate.1 hrate.2
  have hp' : 0 ≤ p.value := happrox.nonneg (exactComputed_nonneg mode hamount.1 hrate.1)
  have hp'' : p.value ≤ 3 * 10 ^ 26 := hle.trans hamount.2
  have hscale := scale_rounded (fits_of_le hamount.1 hamount.2)
  have hscale' := scale_rounded (fits_of_le hp' hp'')
  have hgiven := mantissa_rounded (fits_of_le hamount.1 hamount.2)
  -- In hundredths the computed amount is between zero and the given one, which is bounded.
  have hnonneg := mantissa_rounded_nonneg hp' hp''
  have hmono := mantissa_rounded_mono hp' hle hamount.2
  have hmost := mantissa_rounded_le hamount.1 hamount.2
  have hbound : (6 * 10 ^ 28 : ℕ) < Decimal.bound := by norm_num [Decimal.bound]
  have hunrounded : (unrounded amount rate mode).map rounded = some (rounded p) := by
    rw [hp, Option.map_some]
  cases mode with
  | exclusive =>
    obtain ⟨gross, hgross, hplaces, hsum⟩ :=
      Decimal.exists_add?_of_scale_eq (hscale.trans hscale'.symm) (by omega)
    have hgross' : 0 ≤ gross.mantissa := hsum ▸ add_nonneg (hnonneg.trans hmono) hnonneg
    refine ⟨⟨rounded amount, rounded p, gross, rate, .exclusive⟩, ?_, rfl, rfl, ?_, hgiven⟩
    · exact computeTax_eq_ok_iff.2 ⟨⟨hamount.1, hrate⟩, rfl, rfl, rfl, hunrounded, hgross⟩
    · exact ⟨hscale, hscale', hplaces.trans hscale, hnonneg.trans hmono, hnonneg, hgross',
        hsum.symm⟩
  | inclusive =>
    obtain ⟨tax, htax, hplaces, hdifference⟩ :=
      Decimal.exists_sub?_of_scale_eq (hscale.trans hscale'.symm) (by omega)
    have htax' : 0 ≤ tax.mantissa := hdifference ▸ sub_nonneg.2 hmono
    refine ⟨⟨rounded p, tax, rounded amount, rate, .inclusive⟩, ?_, rfl, rfl, ?_, hgiven⟩
    · exact computeTax_eq_ok_iff.2 ⟨⟨hamount.1, hrate⟩, rfl, rfl, rfl, hunrounded, htax⟩
    · exact ⟨hscale', hplaces.trans hscale, hscale, hnonneg, htax', hnonneg.trans hmono,
        hdifference ▸ add_sub_cancel _ _⟩

/-- One hundred. -/
def hundred : Decimal := ⟨100, 0, by decide, Decimal.zero.scale_le⟩

/-- Five hundredths. -/
def fiveHundredths : Decimal := ⟨5, 2, by decide, by decide⟩

theorem exists_hundred_addsUp : ∃ b, computeTax hundred fiveHundredths .inclusive = .ok b ∧
    b.AddsUp ∧ b.given.mantissa = 10000 := by
  have hamount : hundred.value = 100 := by norm_num [Decimal.value, hundred]
  have hrate : fiveHundredths.value = 1 / 20 := by norm_num [Decimal.value, fiveHundredths]
  obtain ⟨b, hb, -, -, hadds, hgiven⟩ := exists_computeTax_addsUp hundred fiveHundredths .inclusive
    (by norm_num [hamount]) (by norm_num [hrate])
  refine ⟨b, hb, hadds, hgiven.trans ?_⟩
  norm_num [hamount, awayFromZero]

/-! ## Rounding twice -/

/-- **Amounts that are rounded once.**  The computed amount is what is found for the exact product
or quotient, rounded to hundredths with ties away from zero.  It is the exact one rounded in this
way if and only if no middle between hundredths comes between the two; in particular if the exact
one is a decimal. -/
theorem computed_value_eq_iff (h : computeTax amount rate mode = .ok b) :
    ∃ p, unrounded amount rate mode = some p ∧
      p.Approximates (exactComputed amount.value rate.value mode) ∧
      b.computed.value = awayFromZero (p.value * 100) / 100 ∧
      (b.computed.value = awayFromZero (exactComputed amount.value rate.value mode * 100) / 100 ↔
        ¬ MiddleBetween (exactComputed amount.value rate.value mode * 100) (p.value * 100)) ∧
      (IsDecimal (exactComputed amount.value rate.value mode) →
        b.computed.value =
          awayFromZero (exactComputed amount.value rate.value mode * 100) / 100) := by
  obtain ⟨⟨hamount, hrate, hrate'⟩, -, -, -, hcomputed, -⟩ := computeTax_eq_ok_iff.1 h
  obtain ⟨p, hp, happrox, -⟩ := exists_unrounded mode hamount hrate hrate'
  rw [hp, Option.map_some, Option.some.injEq] at hcomputed
  have hexact := exactComputed_nonneg mode hamount hrate
  have hp' : 0 ≤ p.value := happrox.nonneg hexact
  rw [← hcomputed, value_rounded]
  refine ⟨p, hp, happrox, rfl, ?_, fun hdecimal => by rw [happrox.exact hdecimal]⟩
  rw [← Rounding.awayFromZero_eq_iff (by positivity) (by positivity), div_left_inj' (by norm_num),
    Int.cast_inj, eq_comm]

theorem exists_computed_hundred : ∃ b, computeTax hundred fiveHundredths .exclusive = .ok b ∧
    b.computed.value = 5 := by
  have hexact : exactComputed hundred.value fiveHundredths.value .exclusive = 5 := by
    norm_num [exactComputed, Decimal.value, hundred, fiveHundredths]
  have hfound : ∃ b, computeTax hundred fiveHundredths .exclusive = .ok b := ⟨_, rfl⟩
  obtain ⟨b, hb⟩ := hfound
  obtain ⟨-, -, -, -, -, honce⟩ := computed_value_eq_iff hb
  rw [hexact] at honce
  refine ⟨b, hb, ?_⟩
  rw [honce ⟨⟨5, 0, by decide, by decide⟩, by norm_num [Decimal.value]⟩]
  norm_num [awayFromZero]

/-- The last decimal before one half. -/
def belowHalf : Decimal := ⟨4999999999999999999999999999, 28, by decide, by decide⟩

/-- One hundredth. -/
def oneHundredth : Decimal := ⟨1, 2, Decimal.one.mantissa_lt, by decide⟩

/-- Five thousandths. -/
def fiveThousandths : Decimal := ⟨5, 3, by decide, by decide⟩

/-- A rate of two units in the last place. -/
def slightRate : Decimal := ⟨2, 28, by decide, by decide⟩

/-- A product and a quotient below five thousandths are rounded up to these, and then to one
hundredth. -/
theorem exists_rounded_twice :
    (∃ b, computeTax belowHalf oneHundredth .exclusive = .ok b ∧ b.tax = oneHundredth ∧
      awayFromZero (belowHalf.value * oneHundredth.value * 100) = 0) ∧
    ∃ b, computeTax fiveThousandths slightRate .inclusive = .ok b ∧ b.net = oneHundredth ∧
      awayFromZero (fiveThousandths.value / (1 + slightRate.value) * 100) = 0 := by
  refine ⟨⟨_, rfl, by decide +kernel, ?_⟩, ⟨_, rfl, by decide +kernel, ?_⟩⟩
  · norm_num [awayFromZero, Decimal.value, belowHalf, oneHundredth]
  · norm_num [awayFromZero, Decimal.value, fiveThousandths, slightRate]

end ProcessTest.Rule
