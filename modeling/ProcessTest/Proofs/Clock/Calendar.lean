import Mathlib.Algebra.Ring.Nat
import Mathlib.Order.Monotone.Basic
import ProcessTest.Calendar

/-!
# Days and their dates

The date of a day is a date of the calendar, and its day is the day itself.

* `daysBefore_succ` — a year has as many days as its months.
* `daysBefore_yearOf_le`, `lt_daysBefore_yearOf_succ` — the year that a day lies in.
* `exists_dayOfYear?` — month and day of a day in its year.
* `day?_ofDay`, `lt_of_day?` — dates of days, and days of dates.
-/

set_option autoImplicit false

namespace ProcessTest.Calendar

variable {day month year n : Nat} {lengths : List Nat} {date : Date}

/-! ## Years -/

theorem isLeap_iff : isLeap year = true ↔
    year % 4 = 0 ∧ (year % 100 ≠ 0 ∨ year % 400 = 0) := by
  simp [isLeap]

theorem sum_monthLengths (leap : Bool) :
    (monthLengths leap).sum = 365 + if leap = true then 1 else 0 := by
  cases leap <;> rfl

/-- **A year has as many days as its months.** -/
theorem daysBefore_succ (year : Nat) :
    daysBefore (year + 1) = daysBefore year + (monthLengths (isLeap year)).sum := by
  have hfour : (year + 4) / 4 = (year + 3) / 4 + if year % 4 = 0 then 1 else 0 := by
    split <;> omega
  have hhundred : (year + 100) / 100 = (year + 99) / 100 + if year % 100 = 0 then 1 else 0 := by
    split <;> omega
  have hcycle : (year + 400) / 400 = (year + 399) / 400 + if year % 400 = 0 then 1 else 0 := by
    split <;> omega
  have hcenturies : (year + 99) / 100 ≤ 365 * year + (year + 3) / 4 := by omega
  have hhundredth : year % 100 = 0 → year % 4 = 0 := by omega
  have hcyclic : year % 400 = 0 → year % 100 = 0 := by omega
  rw [sum_monthLengths]
  unfold daysBefore
  simp only [isLeap_iff, Nat.add_assoc, Nat.reduceAdd, Nat.add_comm 1, hfour, hhundred, hcycle]
  -- What is left speaks of the quotients and of divisibility only.
  generalize (year + 3) / 4 = fours at *
  generalize (year + 99) / 100 = hundreds at *
  generalize (year + 399) / 400 = cycles at *
  by_cases h4 : year % 4 = 0
  · by_cases h100 : year % 100 = 0
    · by_cases h400 : year % 400 = 0
      · simp only [h4, h100, h400, if_true, ne_eq, not_true, or_true, and_true]
        omega
      · simp only [h4, h100, h400, if_true, if_false, ne_eq, not_true, or_false, and_false]
        omega
    · have h400 : year % 400 ≠ 0 := fun h => h100 (hcyclic h)
      simp only [h4, h100, h400, if_true, if_false, ne_eq, not_false_eq_true, true_or, and_true]
      omega
  · have h100 : year % 100 ≠ 0 := fun h => h4 (hhundredth h)
    have h400 : year % 400 ≠ 0 := fun h => h100 (hcyclic h)
    simp only [h4, h100, h400, if_false, false_and]
    omega

theorem daysBefore_mono : Monotone daysBefore :=
  monotone_nat_of_le_succ fun year => by
    rw [daysBefore_succ]
    exact Nat.le_add_right _ _

/-- By the average length of a year, the guess is off by one at most. -/
theorem guess_bounds (day : Nat) :
    daysBefore (400 * day / 146097 - 1) ≤ day ∧ day < daysBefore (400 * day / 146097 + 2) := by
  unfold daysBefore
  omega

theorem daysBefore_yearOf_le (day : Nat) : daysBefore (yearOf day) ≤ day := by
  unfold yearOf
  dsimp only
  split
  · assumption
  · split
    · assumption
    · exact (guess_bounds day).1

theorem lt_daysBefore_yearOf_succ (day : Nat) : day < daysBefore (yearOf day + 1) := by
  unfold yearOf
  dsimp only
  split
  · exact (guess_bounds day).2
  · rename_i hnext
    split
    · exact Nat.lt_of_not_le hnext
    · rename_i hguess
      have hle : 400 * day / 146097 ≤ 400 * day / 146097 - 1 + 1 := by omega
      exact (Nat.lt_of_not_le hguess).trans_le (daysBefore_mono hle)

/-- Days up to the end of a year lie in years up to it. -/
theorem yearOf_lt (h : day < daysBefore year) : yearOf day < year := by
  by_contra hge
  exact absurd (daysBefore_mono (Nat.le_of_not_lt hge))
    (Nat.not_le_of_lt ((daysBefore_yearOf_le day).trans_lt h))

/-! ## Months -/

/-- A day of the year has a month and a day in it, which give the day of the year. -/
theorem exists_dayOfYear? (month : Nat) (h : n < lengths.sum) :
    ∃ i d, monthAndDay month lengths n = (month + i, d) ∧
      dayOfYear? lengths (i + 1) d = some n := by
  induction lengths generalizing month n with
  | nil => exact absurd h (Nat.not_lt_zero n)
  | cons length rest ih =>
    unfold monthAndDay
    by_cases hn : n < length
    · rw [if_pos hn]
      refine ⟨0, n + 1, rfl, ?_⟩
      simp [dayOfYear?]
      omega
    · rw [if_neg hn]
      have hrest : n - length < rest.sum := by
        rw [List.sum_cons] at h
        omega
      obtain ⟨i, d, hdate, hday⟩ := ih (month + 1) hrest
      refine ⟨i + 1, d, ?_, ?_⟩
      · rw [hdate, Nat.add_right_comm, Nat.add_assoc]
      · simp [dayOfYear?, hday]
        omega

/-- A date that a month has: there is such a month, and it is long enough. -/
theorem bounds_of_dayOfYear? (h : dayOfYear? lengths month day = some n) :
    month ≤ lengths.length ∧ (∃ length ∈ lengths, day ≤ length) ∧ n < lengths.sum := by
  induction lengths generalizing month n with
  | nil => simp [dayOfYear?] at h
  | cons length rest ih =>
    match month with
    | 0 => simp [dayOfYear?] at h
    | 1 =>
      simp only [dayOfYear?, Bool.and_eq_true, decide_eq_true_eq] at h
      split at h
      · rename_i hday
        cases h
        refine ⟨by simp, ⟨length, List.mem_cons_self, hday.2⟩, ?_⟩
        rw [List.sum_cons]
        omega
      · cases h
    | month + 2 =>
      rw [dayOfYear?, Option.map_eq_some_iff] at h
      · obtain ⟨m, hm, rfl⟩ := h
        obtain ⟨hmonth, ⟨other, hother, hday⟩, hsum⟩ := ih hm
        refine ⟨Nat.succ_le_succ hmonth, ⟨other, List.mem_cons_of_mem _ hother, hday⟩, ?_⟩
        rw [List.sum_cons]
        omega
      · exact Nat.succ_ne_zero month

/-! ## Dates -/

theorem length_le_of_mem_monthLengths {leap : Bool} {length : Nat}
    (h : length ∈ monthLengths leap) : length ≤ 31 := by
  have hall : ∀ leap : Bool, ∀ length ∈ monthLengths leap, length ≤ 31 := by decide
  exact hall leap length h

theorem lt_of_day? (h : date.day? = some n) :
    date.month ≤ 12 ∧ date.day ≤ 31 ∧ n < daysBefore (date.year + 1) := by
  obtain ⟨m, hm, rfl⟩ := Option.map_eq_some_iff.1 h
  obtain ⟨hmonth, ⟨length, hlength, hday⟩, hsum⟩ := bounds_of_dayOfYear? hm
  rw [daysBefore_succ]
  exact ⟨hmonth, hday.trans (length_le_of_mem_monthLengths hlength), Nat.add_lt_add_left hsum _⟩

/-- **The date of a day is a date of the calendar**, that of this day. -/
theorem day?_ofDay (day : Nat) : (Date.ofDay day).day? = some day := by
  have hbefore := daysBefore_yearOf_le day
  have hbehind := lt_daysBefore_yearOf_succ day
  rw [daysBefore_succ] at hbehind
  have hsum : day - daysBefore (yearOf day) < (monthLengths (isLeap (yearOf day))).sum := by omega
  obtain ⟨i, d, hdate, hday⟩ := exists_dayOfYear? 1 hsum
  unfold Date.ofDay Date.day?
  simp only [hdate, Nat.add_comm 1 i, hday, Option.map_some]
  congr 1
  omega

end ProcessTest.Calendar
