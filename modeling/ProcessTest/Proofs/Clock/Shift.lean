import ProcessTest.Proofs.Clock.Text

/-!
# Shifted clocks

A shifted clock is a clock of the same offset, as many seconds later, whatever calendar days,
months and leap years lie between.  Shifting it on comes to one shift by the sum, and fails where
that one does: behind the last second of the year 9999, or in front of the first one of the year
0000.

* `instant` — the universal time of a clock.
* `later?_later?`, `later?_zero` — instants shifted twice, or not at all.
* `shift?_eq_none_iff` — the shifts that fail.
* `isShift_of_shift?` — shifts of texts.
-/

set_option autoImplicit false

namespace ProcessTest.Clock

variable {s t : String} {c d : Clock} {m : Int}

/-- Nanoseconds of universal time since the first of January of the year 0. -/
def instant (c : Clock) : Int := (c.seconds - 60 * c.offset) * 1000000000 + c.nanoseconds

/-! ## Instants -/

theorem later?_eq_some_iff : c.later? m = some d ↔
    (0 ≤ c.seconds + m ∧ c.seconds + m < endSeconds) ∧
      d = { c with seconds := (c.seconds + m).toNat } := by
  unfold later?
  simp only [Bool.and_eq_true, decide_eq_true_eq, Option.ite_none_right_eq_some,
    Option.some.injEq, eq_comm (a := d)]

theorem InRange.of_later? (h : c.InRange) (hd : c.later? m = some d) : d.InRange := by
  obtain ⟨⟨hlow, hhigh⟩, rfl⟩ := later?_eq_some_iff.1 hd
  refine ⟨?_, h.nanoseconds, h.offset⟩
  dsimp only
  omega

theorem instant_of_later? (hd : c.later? m = some d) : d.instant = c.instant + m * 1000000000 := by
  obtain ⟨⟨hlow, -⟩, rfl⟩ := later?_eq_some_iff.1 hd
  unfold instant
  dsimp only
  omega

/-- Two shifts come to one, and fail where it does. -/
theorem later?_later? (hd : c.later? m = some d) (n : Int) : d.later? n = c.later? (m + n) := by
  obtain ⟨⟨hlow, -⟩, rfl⟩ := later?_eq_some_iff.1 hd
  have hsum : ((c.seconds + m).toNat : Int) + n = c.seconds + (m + n) := by omega
  unfold later?
  simp only [hsum]

theorem later?_zero (h : c.InRange) : c.later? 0 = some c := by
  have hseconds := h.seconds
  exact later?_eq_some_iff.2 ⟨⟨by omega, by omega⟩, by simp⟩

/-! ## Texts -/

theorem shift?_of_read? (h : read? s = some c) (m : Int) :
    shift? s m = (c.later? m).map text := by
  unfold shift?
  rw [h, Option.bind_some]

/-- A shift fails in front of the years 0000 to 9999, and behind them. -/
theorem shift?_eq_none_iff (h : read? s = some c) :
    shift? s m = none ↔ c.seconds + m < 0 ∨ endSeconds ≤ c.seconds + m := by
  rw [shift?_of_read? h, Option.map_eq_none_iff, later?]
  simp only [Bool.and_eq_true, decide_eq_true_eq, ite_eq_right_iff, reduceCtorEq, imp_false]
  omega

example : shift? "9999-12-31T23:59:59+05:45" 1 = none := by decide +kernel

/-- What a shift of a clock text by some seconds comes to. -/
structure IsShift (s t : String) (m : Int) : Prop where
  valid : isValid s = true
  shifted_valid : isValid t = true
  /-- The offset and the fraction of the second are kept; a leap second, whose digits stand behind
  the first seventeen characters, is read as the last nanosecond in front of it. -/
  later : ∃ before after, read? s = some before ∧ read? t = some after ∧
    after.offset = before.offset ∧ after.nanoseconds = before.nanoseconds ∧
    after.instant = before.instant + m * 1000000000 ∧
    ((s.toList.drop 17).take 2 = ['6', '0'] → before.nanoseconds = 999999999)
  /-- A further shift comes to one by the sum; both fail together. -/
  further : ∀ n, shift? t n = shift? s (m + n)
  still : shift? t 0 = some t

/-- **Shifts compose**, and keep the offset and the fraction of a second. -/
theorem isShift_of_shift? (h : shift? s m = some t) : IsShift s t m := by
  obtain ⟨d, hbind, rfl⟩ := Option.map_eq_some_iff.1 h
  obtain ⟨c, hread, hlater⟩ := Option.bind_eq_some_iff.1 hbind
  have hrange : d.InRange := (inRange_of_read? hread).of_later? hlater
  have hshifted : read? d.text = some d := read?_text hrange
  refine ⟨?_, ?_, ⟨c, d, hread, hshifted, ?_⟩, fun n => ?_, ?_⟩
  · exact Option.isSome_iff_exists.2 ⟨c, hread⟩
  · exact Option.isSome_iff_exists.2 ⟨d, hshifted⟩
  · have hinstant := instant_of_later? hlater
    obtain ⟨-, rfl⟩ := later?_eq_some_iff.1 hlater
    exact ⟨rfl, rfl, hinstant, fun hleap => (nanoseconds_of_leap hread hleap).1⟩
  · rw [shift?_of_read? hshifted, shift?_of_read? hread, later?_later? hlater]
  · rw [shift?_of_read? hshifted, later?_zero hrange, Option.map_some]

/-- From a leap second into the last hours of the year. -/
theorem isShift_leapSecond :
    shift? "2016-12-31T18:59:60-05:00" 18000 = some "2016-12-31T23:59:59.999999999-05:00" ∧
      IsShift "2016-12-31T18:59:60-05:00" "2016-12-31T23:59:59.999999999-05:00" 18000 :=
  ⟨by decide +kernel, isShift_of_shift? (by decide +kernel)⟩

end ProcessTest.Clock
