import ProcessTest.Proofs.Decoding.Success
import ProcessTest.Proofs.Number.Arithmetic
import ProcessTest.Rule.Journal

/-!
# Exactness of accounting rules

The equation and the journals are decided with decimals, one sum or difference after the other.
Each of these is exact if its exact result is a decimal, and is rounded otherwise, as long as the
rounded result fits.

* `StaysDecimal`, `TotalsExact` — the exact running sums are decimals, and the running totals are
  these sums: `totalsExact_iff`.
* `abs_total_sub_le` — in general a total is off by half a unit for each amount at most.
* `total_eq_error_iff` — a total fails when a running one has no room.
* `EquationVerdict.IsExact`, `JournalVerdict.IsExact` — verdicts on the exact sums;
  `exact_iff_decimals` says when each step of a check is exact, and what holds when it is not.
-/

set_option autoImplicit false

namespace ProcessTest.Rule

open Decimal (IsDecimal HasRoom)
open Decode

variable {side : Side} {amount sum : Decimal} {amounts : List Decimal}

/-! ## Totals -/

/-- The exact sum of amounts. -/
def exactSum (amounts : List Decimal) : ℚ := (amounts.map Decimal.value).sum

@[simp] theorem exactSum_nil : exactSum [] = 0 := rfl

@[simp] theorem exactSum_cons (amount : Decimal) (rest : List Decimal) :
    exactSum (amount :: rest) = amount.value + exactSum rest := List.sum_cons

/-- Every running sum from the given number on is a decimal. -/
def StaysDecimal (start : ℚ) (amounts : List Decimal) : Prop :=
  ∀ n, IsDecimal (start + exactSum (amounts.take n))

/-- Every running total is the exact running sum. -/
def TotalsExact (side : Side) (sum : Decimal) (amounts : List Decimal) : Prop :=
  ∀ n, ∃ t, total side sum (amounts.take n) = .ok t ∧
    t.value = sum.value + exactSum (amounts.take n)

theorem StaysDecimal.tail {start : ℚ} (h : StaysDecimal start (amount :: amounts)) :
    StaysDecimal (start + amount.value) amounts := by
  intro n
  have hnext := h (n + 1)
  rwa [List.take_succ_cons, exactSum_cons, ← add_assoc] at hnext

theorem StaysDecimal.head {start : ℚ} (h : StaysDecimal start (amount :: amounts)) :
    IsDecimal (start + amount.value) := by
  simpa using h 1

/-- The induction follows the amounts: a sum that is a decimal is found, and the totals go on from
it. -/
theorem exists_total_of_staysDecimal (side : Side) (h : StaysDecimal sum.value amounts) :
    ∃ t, total side sum amounts = .ok t ∧ t.value = sum.value + exactSum amounts := by
  induction amounts generalizing sum with
  | nil => exact ⟨sum, rfl, by rw [exactSum_nil, add_zero]⟩
  | cons amount rest ih =>
    obtain ⟨next, hnext, hvalue⟩ := Decimal.exists_add?_of_isDecimal h.head
    have htail : StaysDecimal next.value rest := hvalue ▸ h.tail
    obtain ⟨t, ht, hsum⟩ := ih htail
    refine ⟨t, ?_, by rw [hsum, hvalue, exactSum_cons, add_assoc]⟩
    rw [total, hnext]
    exact ht

theorem StaysDecimal.take {start : ℚ} (h : StaysDecimal start amounts) (n : ℕ) :
    StaysDecimal start (amounts.take n) := by
  intro m
  rw [List.take_take]
  exact h (min m n)

/-- **The running totals are exact** exactly if the exact running sums are decimals. -/
theorem totalsExact_iff : TotalsExact side sum amounts ↔ StaysDecimal sum.value amounts := by
  constructor
  · intro h n
    obtain ⟨t, -, ht⟩ := h n
    exact ⟨t, ht⟩
  · intro h n
    exact exists_total_of_staysDecimal side (h.take n)

/-- In general a total is off by half a unit for each amount at most. -/
theorem abs_total_sub_le {t : Decimal} (h : total side sum amounts = .ok t) :
    |t.value - (sum.value + exactSum amounts)| ≤ amounts.length / 2 := by
  induction amounts generalizing sum with
  | nil =>
    cases h
    simp
  | cons amount rest ih =>
    rw [total] at h
    split at h
    · rename_i next hnext
      have hrest := ih h
      have hstep := (Decimal.approximates_of_add? hnext).abs_sub_le
      have hsplit : t.value - (sum.value + exactSum (amount :: rest)) =
          (t.value - (next.value + exactSum rest)) +
            (next.value - (sum.value + amount.value)) := by
        rw [exactSum_cons]
        ring
      have hsum := (abs_add_le _ _).trans (add_le_add hrest hstep)
      rw [← hsplit] at hsum
      rw [List.length_cons]
      push_cast
      linarith
    · cases h

/-- Some running total and the next amount have no room together. -/
def Overflows (side : Side) (sum : Decimal) (amounts : List Decimal) : Prop :=
  ∃ n t amount, total side sum (amounts.take n) = .ok t ∧ amounts[n]? = some amount ∧
    ¬ HasRoom (t.value + amount.value)

theorem overflows_cons_iff {next : Decimal} (hnext : sum.add? amount = some next) :
    Overflows side sum (amount :: amounts) ↔ Overflows side next amounts := by
  have hroom := Decimal.hasRoom_of_add? hnext
  constructor
  · rintro ⟨n, t, other, ht, hother, hfull⟩
    cases n with
    | zero =>
      cases ht
      cases hother
      exact absurd hroom hfull
    | succ n =>
      rw [List.take_succ_cons, total, hnext] at ht
      exact ⟨n, t, other, ht, hother, hfull⟩
  · rintro ⟨n, t, other, ht, hother, hfull⟩
    refine ⟨n + 1, t, other, ?_, hother, hfull⟩
    rw [List.take_succ_cons, total, hnext]
    exact ht

/-- **A total fails** exactly when a running one has no room. -/
theorem total_eq_error_iff {cause : Error} :
    total side sum amounts = .error cause ↔ cause = .total side ∧ Overflows side sum amounts := by
  induction amounts generalizing sum with
  | nil =>
    refine iff_of_false nofun ?_
    rintro ⟨-, n, t, amount, -, hamount, -⟩
    cases hamount
  | cons amount rest ih =>
    rw [total]
    split
    · rename_i next hnext
      rw [ih, overflows_cons_iff hnext]
    · rename_i hnone
      have hover : Overflows side sum (amount :: rest) :=
        ⟨0, sum, amount, rfl, rfl, Decimal.add?_eq_none_iff.1 hnone⟩
      rw [Except.error.injEq, eq_comm, and_iff_left hover]

/-! ## The equation -/

variable {assets liabilities equity tolerance : Decimal}

/-- The verdict is about the exact difference. -/
structure EquationVerdict.IsExact (v : EquationVerdict)
    (assets liabilities equity tolerance : Decimal) : Prop where
  difference : v.difference.value = assets.value - liabilities.value - equity.value
  valid : v.valid = true ↔
    |assets.value - liabilities.value - equity.value| ≤ |tolerance.value|

theorem checkEquation_eq_ok {v : EquationVerdict}
    (h : checkEquation assets liabilities equity tolerance = .ok v) :
    ∃ d, assets.sub? liabilities = some d ∧ d.sub? equity = some v.difference ∧
      (v.valid = true ↔ |v.difference.value| ≤ |tolerance.value|) := by
  unfold checkEquation at h
  split at h
  · cases h
  · rename_i difference hdifference
    cases h
    obtain ⟨d, hd, hequity⟩ := Option.bind_eq_some_iff.1 hdifference
    refine ⟨d, hd, hequity, ?_⟩
    rw [Decimal.le_iff, Decimal.value_abs, Decimal.value_abs]

theorem exists_checkEquation (tolerance : Decimal) {d difference : Decimal}
    (hd : assets.sub? liabilities = some d) (hdifference : d.sub? equity = some difference) :
    ∃ v, checkEquation assets liabilities equity tolerance = .ok v ∧ v.difference = difference := by
  unfold checkEquation
  rw [hd, Option.bind_some, hdifference]
  exact ⟨_, rfl, rfl⟩

theorem equation_exact_iff :
    (∃ d v, assets.sub? liabilities = some d ∧ d.value = assets.value - liabilities.value ∧
        checkEquation assets liabilities equity tolerance = .ok v ∧
        v.IsExact assets liabilities equity tolerance) ↔
      IsDecimal (assets.value - liabilities.value) ∧
        IsDecimal (assets.value - liabilities.value - equity.value) := by
  constructor
  · rintro ⟨d, v, -, hvalue, -, hexact⟩
    exact ⟨⟨d, hvalue⟩, ⟨v.difference, hexact.difference⟩⟩
  · rintro ⟨hfirst, hsecond⟩
    obtain ⟨d, hd, hvalue⟩ := Decimal.exists_sub?_of_isDecimal hfirst
    rw [← hvalue] at hsecond
    obtain ⟨difference, hdifference, hsub⟩ := Decimal.exists_sub?_of_isDecimal hsecond
    obtain ⟨v, hv, rfl⟩ := exists_checkEquation tolerance hd hdifference
    obtain ⟨-, -, -, hvalid⟩ := checkEquation_eq_ok hv
    rw [hvalue] at hsub
    exact ⟨d, v, hd, hvalue, hv, hsub, by rw [hvalid, hsub]⟩

theorem abs_equation_sub_le {v : EquationVerdict}
    (h : checkEquation assets liabilities equity tolerance = .ok v) :
    |v.difference.value - (assets.value - liabilities.value - equity.value)| ≤ 1 := by
  obtain ⟨d, hd, hdifference, -⟩ := checkEquation_eq_ok h
  have hfirst := (Decimal.approximates_of_sub? hd).abs_sub_le
  have hsecond := (Decimal.approximates_of_sub? hdifference).abs_sub_le
  have hsum := (abs_add_le _ _).trans (add_le_add hsecond hfirst)
  rw [sub_add_sub_comm] at hsum
  refine le_of_eq_of_le (congrArg abs ?_) (hsum.trans (by norm_num))
  ring

theorem equation_error_iff :
    (∃ cause, checkEquation assets liabilities equity tolerance = .error cause) ↔
      ¬ HasRoom (assets.value - liabilities.value) ∨
        ∃ d, assets.sub? liabilities = some d ∧ ¬ HasRoom (d.value - equity.value) := by
  unfold checkEquation
  cases hd : assets.sub? liabilities with
  | none => simpa using Decimal.sub?_eq_none_iff.1 hd
  | some d =>
    have hroom := Decimal.hasRoom_of_sub? hd
    rw [Option.bind_some]
    cases hdifference : d.sub? equity with
    | none => simpa [hroom] using Decimal.sub?_eq_none_iff.1 hdifference
    | some difference =>
      have hroom' := Decimal.hasRoom_of_sub? hdifference
      simp [hroom, hroom']

/-! ## Journals -/

variable {lines : List JournalLine}

/-- The exact sum of the debits. -/
def exactDebits (lines : List JournalLine) : ℚ := exactSum (lines.map JournalLine.debit)

/-- The exact sum of the credits. -/
def exactCredits (lines : List JournalLine) : ℚ := exactSum (lines.map JournalLine.credit)

/-- The verdict is about the exact sums. -/
structure JournalVerdict.IsExact (v : JournalVerdict) (lines : List JournalLine)
    (tolerance : Decimal) : Prop where
  totalDebits : v.totalDebits.value = exactDebits lines
  totalCredits : v.totalCredits.value = exactCredits lines
  difference : v.difference.value = exactDebits lines - exactCredits lines
  valid : v.valid = true ↔ |exactDebits lines - exactCredits lines| ≤ |tolerance.value|

theorem checkJournal_eq_ok {v : JournalVerdict} (h : checkJournal lines tolerance = .ok v) :
    total .debit .zero (lines.map JournalLine.debit) = .ok v.totalDebits ∧
      total .credit .zero (lines.map JournalLine.credit) = .ok v.totalCredits ∧
      v.totalDebits.sub? v.totalCredits = some v.difference ∧
      (v.valid = true ↔ |v.difference.value| ≤ |tolerance.value|) := by
  unfold checkJournal at h
  obtain ⟨debits, hdebits, h⟩ := bind_eq_ok_iff.1 h
  obtain ⟨credits, hcredits, h⟩ := bind_eq_ok_iff.1 h
  split at h
  · cases h
  · rename_i difference hdifference
    cases h
    refine ⟨hdebits, hcredits, hdifference, ?_⟩
    rw [Decimal.le_iff, Decimal.value_abs, Decimal.value_abs]

theorem exists_checkJournal (tolerance : Decimal) {debits credits difference : Decimal}
    (hdebits : total .debit .zero (lines.map JournalLine.debit) = .ok debits)
    (hcredits : total .credit .zero (lines.map JournalLine.credit) = .ok credits)
    (hdifference : debits.sub? credits = some difference) :
    ∃ v, checkJournal lines tolerance = .ok v ∧ v.totalDebits = debits ∧
      v.totalCredits = credits ∧ v.difference = difference := by
  unfold checkJournal
  rw [hdebits, hcredits]
  simp only [bind, Except.bind, hdifference]
  exact ⟨_, rfl, rfl, rfl, rfl⟩

theorem journal_exact_iff :
    (TotalsExact .debit .zero (lines.map JournalLine.debit) ∧
        TotalsExact .credit .zero (lines.map JournalLine.credit) ∧
        ∃ v, checkJournal lines tolerance = .ok v ∧ v.IsExact lines tolerance) ↔
      StaysDecimal 0 (lines.map JournalLine.debit) ∧
        StaysDecimal 0 (lines.map JournalLine.credit) ∧
        IsDecimal (exactDebits lines - exactCredits lines) := by
  rw [totalsExact_iff, totalsExact_iff, Decimal.value_zero]
  refine and_congr_right fun hd => and_congr_right fun hc => ⟨?_, fun hdecimal => ?_⟩
  · rintro ⟨v, -, hexact⟩
    exact ⟨v.difference, hexact.difference⟩
  · rw [← Decimal.value_zero] at hd hc
    obtain ⟨debits, hdebits, hdebits'⟩ := exists_total_of_staysDecimal .debit hd
    obtain ⟨credits, hcredits, hcredits'⟩ := exists_total_of_staysDecimal .credit hc
    rw [Decimal.value_zero, zero_add] at hdebits' hcredits'
    rw [exactDebits, exactCredits, ← hdebits', ← hcredits'] at hdecimal
    obtain ⟨difference, hdifference, hsub⟩ := Decimal.exists_sub?_of_isDecimal hdecimal
    obtain ⟨v, hv, rfl, rfl, rfl⟩ :=
      exists_checkJournal tolerance hdebits hcredits hdifference
    obtain ⟨-, -, -, hvalid⟩ := checkJournal_eq_ok hv
    rw [hdebits', hcredits'] at hsub
    exact ⟨v, hv, hdebits', hcredits', hsub, by rw [hvalid, hsub]; rfl⟩

theorem abs_journal_sub_le {v : JournalVerdict} (h : checkJournal lines tolerance = .ok v) :
    |v.difference.value - (exactDebits lines - exactCredits lines)| ≤ lines.length + 1 / 2 := by
  obtain ⟨hdebits, hcredits, hdifference, -⟩ := checkJournal_eq_ok h
  have hd := abs_total_sub_le hdebits
  have hc := abs_total_sub_le hcredits
  have hsub := (Decimal.approximates_of_sub? hdifference).abs_sub_le
  rw [Decimal.value_zero, zero_add, List.length_map, abs_le] at hd hc
  rw [abs_le] at hsub ⊢
  unfold exactDebits exactCredits
  constructor <;> linarith [hd.1, hd.2, hc.1, hc.2, hsub.1, hsub.2]

theorem journal_error_iff :
    (∃ cause, checkJournal lines tolerance = .error cause) ↔
      Overflows .debit .zero (lines.map JournalLine.debit) ∨
        Overflows .credit .zero (lines.map JournalLine.credit) ∨
        ∃ debits credits, total .debit .zero (lines.map JournalLine.debit) = .ok debits ∧
          total .credit .zero (lines.map JournalLine.credit) = .ok credits ∧
          ¬ HasRoom (debits.value - credits.value) := by
  unfold checkJournal
  cases hdebits : total .debit .zero (lines.map JournalLine.debit) with
  | error cause =>
    have hover := (total_eq_error_iff.1 hdebits).2
    exact iff_of_true ⟨cause, rfl⟩ (.inl hover)
  | ok debits =>
    have hd : ¬ Overflows .debit .zero (lines.map JournalLine.debit) := fun hover =>
      absurd (hdebits.symm.trans (total_eq_error_iff.2 ⟨rfl, hover⟩)) nofun
    cases hcredits : total .credit .zero (lines.map JournalLine.credit) with
    | error cause =>
      have hover := (total_eq_error_iff.1 hcredits).2
      exact iff_of_true ⟨cause, rfl⟩ (.inr (.inl hover))
    | ok credits =>
      have hc : ¬ Overflows .credit .zero (lines.map JournalLine.credit) := fun hover =>
        absurd (hcredits.symm.trans (total_eq_error_iff.2 ⟨rfl, hover⟩)) nofun
      cases hdifference : debits.sub? credits with
      | none => simpa [bind, Except.bind, hdifference, hd, hc] using
          Decimal.sub?_eq_none_iff.1 hdifference
      | some difference =>
        have hroom := Decimal.hasRoom_of_sub? hdifference
        simp [bind, Except.bind, hdifference, hd, hc, hroom]

/-! ## When accounting is exact -/

/-- **When accounting is exact.**  Each step of an equation or a journal is exact if and only if its
exact result is a decimal.  In general the verdict is about the computed difference, which is off
by one at most for an equation, and by one for each line and a half at most for a journal; and
there is none exactly if a step has no room for the nearest whole number. -/
theorem exact_iff_decimals (assets liabilities equity tolerance : Decimal)
    (lines : List JournalLine) :
    (((∃ d v, assets.sub? liabilities = some d ∧ d.value = assets.value - liabilities.value ∧
          checkEquation assets liabilities equity tolerance = .ok v ∧
          v.IsExact assets liabilities equity tolerance) ↔
        IsDecimal (assets.value - liabilities.value) ∧
          IsDecimal (assets.value - liabilities.value - equity.value)) ∧
      (∀ v, checkEquation assets liabilities equity tolerance = .ok v →
        (v.valid = true ↔ |v.difference.value| ≤ |tolerance.value|) ∧
          |v.difference.value - (assets.value - liabilities.value - equity.value)| ≤ 1) ∧
      ((∃ cause, checkEquation assets liabilities equity tolerance = .error cause) ↔
        ¬ HasRoom (assets.value - liabilities.value) ∨
          ∃ d, assets.sub? liabilities = some d ∧ ¬ HasRoom (d.value - equity.value))) ∧
    ((TotalsExact .debit .zero (lines.map JournalLine.debit) ∧
          TotalsExact .credit .zero (lines.map JournalLine.credit) ∧
          ∃ v, checkJournal lines tolerance = .ok v ∧ v.IsExact lines tolerance) ↔
        StaysDecimal 0 (lines.map JournalLine.debit) ∧
          StaysDecimal 0 (lines.map JournalLine.credit) ∧
          IsDecimal (exactDebits lines - exactCredits lines)) ∧
      (∀ v, checkJournal lines tolerance = .ok v →
        (v.valid = true ↔ |v.difference.value| ≤ |tolerance.value|) ∧
          |v.difference.value - (exactDebits lines - exactCredits lines)| ≤
            lines.length + 1 / 2) ∧
      ((∃ cause, checkJournal lines tolerance = .error cause) ↔
        Overflows .debit .zero (lines.map JournalLine.debit) ∨
          Overflows .credit .zero (lines.map JournalLine.credit) ∨
          ∃ debits credits, total .debit .zero (lines.map JournalLine.debit) = .ok debits ∧
            total .credit .zero (lines.map JournalLine.credit) = .ok credits ∧
            ¬ HasRoom (debits.value - credits.value)) := by
  refine ⟨⟨equation_exact_iff, fun v hv => ?_, equation_error_iff⟩,
    journal_exact_iff, fun v hv => ?_, journal_error_iff⟩
  · obtain ⟨-, -, -, hvalid⟩ := checkEquation_eq_ok hv
    exact ⟨hvalid, abs_equation_sub_le hv⟩
  · obtain ⟨-, -, -, hvalid⟩ := checkJournal_eq_ok hv
    exact ⟨hvalid, abs_journal_sub_le hv⟩

/-- The greatest decimal. -/
def greatest : Decimal := ⟨79228162514264337593543950335, 0, by decide, Decimal.zero.scale_le⟩

/-- Four tenths. -/
def fourTenths : Decimal := ⟨4, 1, by decide, by decide⟩

/-- A journal whose debits are four tenths above its credits. -/
def lossyJournal : List JournalLine :=
  [⟨greatest, .zero⟩, ⟨fourTenths, .zero⟩, ⟨.zero, greatest⟩]

/-- Both checks take a difference of four tenths for none. -/
theorem exists_lost_amount :
    exactDebits lossyJournal - exactCredits lossyJournal = 2 / 5 ∧
      greatest.value - fourTenths.neg.value - greatest.value = 2 / 5 ∧
      |defaultTolerance.value| < 2 / 5 ∧
      (∃ v, checkJournal lossyJournal defaultTolerance = .ok v ∧ v.valid = true ∧
        v.difference = .zero ∧ ¬ v.IsExact lossyJournal defaultTolerance) ∧
      ∃ v, checkEquation greatest fourTenths.neg greatest defaultTolerance = .ok v ∧
        v.valid = true ∧ v.difference = .zero ∧
        ¬ v.IsExact greatest fourTenths.neg greatest defaultTolerance := by
  have hfour : fourTenths.value = 2 / 5 := by norm_num [Decimal.value, fourTenths]
  have htolerance : |defaultTolerance.value| < 2 / 5 := by
    norm_num [Decimal.value, defaultTolerance, abs_of_pos]
  have hjournal : exactDebits lossyJournal - exactCredits lossyJournal = 2 / 5 := by
    simp [exactDebits, exactCredits, lossyJournal, hfour]
  have hequation : greatest.value - fourTenths.neg.value - greatest.value = 2 / 5 := by
    simp [hfour]
  refine ⟨hjournal, hequation, htolerance, ⟨_, rfl, by decide +kernel, by decide +kernel, ?_⟩,
    ⟨_, rfl, by decide +kernel, by decide +kernel, ?_⟩⟩
  · rintro ⟨-, -, -, hvalid⟩
    rw [hjournal, abs_of_pos (by norm_num)] at hvalid
    exact absurd (hvalid.1 (by decide +kernel)) (not_le.2 htolerance)
  · rintro ⟨-, hvalid⟩
    rw [hequation, abs_of_pos (by norm_num)] at hvalid
    exact absurd (hvalid.1 (by decide +kernel)) (not_le.2 htolerance)

end ProcessTest.Rule
