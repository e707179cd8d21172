import ProcessTest.Clock
import ProcessTest.Proofs.Clock.Calendar
import ProcessTest.Proofs.Text.Cut
import ProcessTest.Proofs.Text.Digits

/-!
# Clock texts read back

Every instant in range has a text that is read as the instant itself, and only instants in range
are read.

* `InRange` — the instants of the years 0000 to 9999, at an offset of less than a day.
* `take?_padded`, `fraction?_fractionText`, `offset?_offsetText` — the fields of a text.
* `read?_text` — the text of an instant is read as the instant.
* `exists_fields_of_read?` — what a text that is read consists of.
* `inRange_of_read?`, `nanoseconds_of_leap` — what is read is in range, and a leap second counts
  as the last nanosecond in front of it.
-/

set_option autoImplicit false

namespace ProcessTest.Clock

variable {s : String} {c : Clock} {cs rest : List Char} {width n : Nat} {offset : Int}

/-- The instants that have a text. -/
structure InRange (c : Clock) : Prop where
  seconds : c.seconds < endSeconds
  nanoseconds : c.nanoseconds < 1000000000
  /-- Less than a day. -/
  offset : c.offset.natAbs < 24 * 60

/-! ## Fields of a fixed width -/

theorem take?_eq_some_iff : take? width cs = some (n, rest) ↔
    (cs.take width).length = width ∧ (∀ c ∈ cs.take width, c.isDigit = true) ∧
      n = Text.ofDigits (cs.take width) ∧ rest = cs.drop width := by
  unfold take?
  dsimp only
  split
  · rename_i h
    simp only [Bool.and_eq_true, decide_eq_true_eq, List.all_eq_true] at h
    constructor
    · intro heq
      cases heq
      exact ⟨h.1, h.2, rfl, rfl⟩
    · rintro ⟨-, -, rfl, rfl⟩
      rfl
  · rename_i h
    simp only [Bool.and_eq_true, decide_eq_true_eq, List.all_eq_true, not_and] at h
    exact iff_of_false nofun fun hall => h hall.1 hall.2.1

theorem lt_of_take? (h : take? width cs = some (n, rest)) : n < Nat.pow 10 width := by
  obtain ⟨hlength, hdigits, rfl, -⟩ := take?_eq_some_iff.1 h
  have hlt := Text.ofDigits_lt hdigits
  rwa [hlength] at hlt

theorem take?_padded (hwidth : 0 < width) (h : n < Nat.pow 10 width) (rest : List Char) :
    take? width ((Text.padded width n).toList ++ rest) = some (n, rest) := by
  have hlength := Text.length_padded hwidth h
  refine take?_eq_some_iff.2 ?_
  rw [List.take_left' hlength, List.drop_left' hlength]
  exact ⟨hlength, fun _ => Text.isDigit_of_mem_padded, (Text.ofDigits_padded width n).symm, rfl⟩

theorem take?_pair (h : n < 100) (rest : List Char) :
    take? 2 ((Text.padded 2 n).toList ++ rest) = some (n, rest) := take?_padded (by decide) h rest

theorem skip?_cons (c : Char) (rest : List Char) : skip? c (c :: rest) = some rest := if_pos rfl

theorem skip?_eq_some_iff {c : Char} : skip? c cs = some rest ↔ cs = c :: rest := by
  cases cs with
  | nil => exact iff_of_false nofun nofun
  | cons d cs =>
    unfold skip?
    split
    · rename_i h
      simp [h]
    · rename_i h
      simp [h]

/-! ## Fractions -/

theorem toList_fractionText (h : n ≠ 0) :
    ∃ (ds : List Char) (k : Nat), (fractionText n).toList = '.' :: ds ∧
      (Text.padded 9 n).toList = ds ++ List.replicate k '0' := by
  obtain ⟨k, hk⟩ := Text.exists_append_zeros (Text.padded 9 n).toList
  refine ⟨_, k, ?_, hk⟩
  unfold fractionText
  rw [if_neg h]
  simp

/-- The fraction is read, unless a point or a digit follows. -/
theorem fraction?_fractionText (h : n < 1000000000)
    (hrest : ∀ c ∈ rest.head?, c ≠ '.' ∧ c.isDigit = false) :
    fraction? ((fractionText n).toList ++ rest) = some (n, rest) := by
  by_cases hn : n = 0
  · have hempty : (fractionText n).toList = [] := by
      unfold fractionText
      rw [if_pos hn]
      rfl
    rw [hempty, List.nil_append, hn]
    unfold fraction?
    split
    · exact absurd rfl (hrest '.' rfl).1
    · rfl
  · obtain ⟨ds, k, htext, hpadded⟩ := toList_fractionText hn
    have hlength : ds.length + k = 9 := by
      have hnine := Text.length_padded (by decide : 0 < 9) h
      rwa [hpadded, List.length_append, List.length_replicate] at hnine
    have hvalue : Text.ofDigits (ds ++ List.replicate k '0') = n := by
      rw [← hpadded, Text.ofDigits_padded]
    have hdigits : ∀ c ∈ ds, c.isDigit = true := by
      intro c hc
      have hmem : c ∈ (Text.padded 9 n).toList := by
        rw [hpadded]
        exact List.mem_append_left _ hc
      exact Text.isDigit_of_mem_padded hmem
    have hne : ds.isEmpty = false := by
      rw [List.isEmpty_eq_false_iff]
      rintro rfl
      rw [Text.ofDigits_append_zeros] at hvalue
      exact hn hvalue.symm
    obtain ⟨htake, hdrop⟩ := Text.span_append hdigits fun c hc => (hrest c hc).2
    have hnine : ds.take 9 ++ List.replicate (9 - ds.length) '0' = ds ++ List.replicate k '0' := by
      rw [List.take_of_length_le (by omega), ← hlength, Nat.add_sub_cancel_left]
    rw [htext, List.cons_append, fraction?]
    simp only [htake, hdrop, hne, Bool.false_eq_true, if_false, hnine, hvalue]

/-! ## Offsets -/

/-- Hours and minutes behind a sign. -/
theorem offset?_signed (ahead : Bool) (h : n < 24 * 60) :
    offset? ((if ahead then '+' else '-') ::
      ((Text.padded 2 (n / 60)).toList ++ ':' :: (Text.padded 2 (n % 60)).toList)) =
      some (if ahead then (n : Int) else -n, []) := by
  have hhours : n / 60 ≤ 23 := by omega
  have hminutes : n % 60 ≤ 59 := by omega
  have hsum : (60 * (n / 60 : Nat) + (n % 60 : Nat) : Int) = n := by omega
  have hfirst := take?_pair (by omega : n / 60 < 100)
  have hsecond := take?_pair (by omega : n % 60 < 100) []
  rw [List.append_nil] at hsecond
  cases ahead
  all_goals
    simp only [Bool.false_eq_true, if_true, if_false]
    rw [offset?]
    · simp only [Option.bind_eq_bind, Option.bind_some, hfirst, skip?_cons, hsecond, hhours,
        hminutes, decide_true, Bool.and_self, if_true, hsum]
      rfl
    · decide
    · decide

theorem toList_offsetText (h : offset ≠ 0) :
    (offsetText offset).toList = (if 0 < offset then '+' else '-') ::
      ((Text.padded 2 (offset.natAbs / 60)).toList ++
        ':' :: (Text.padded 2 (offset.natAbs % 60)).toList) := by
  unfold offsetText
  rw [if_neg h]
  by_cases hsign : 0 < offset
  · have hahead : ¬ offset < 0 := by omega
    simp [hsign, hahead]
  · have hbehind : offset < 0 := by omega
    simp [hsign, hbehind]

theorem offset?_offsetText (h : offset.natAbs < 24 * 60) :
    offset? (offsetText offset).toList = some (offset, []) := by
  by_cases hzero : offset = 0
  · rw [hzero]
    rfl
  · have hread := offset?_signed (decide (0 < offset)) h
    have hvalue : (if 0 < offset then (offset.natAbs : Int) else -offset.natAbs) = offset := by
      split <;> omega
    simp only [decide_eq_true_eq, hvalue] at hread
    rw [toList_offsetText hzero, hread]

theorem head?_offsetText (offset : Int) :
    ∀ c ∈ (offsetText offset).toList.head?, c ≠ '.' ∧ c.isDigit = false := by
  intro c hc
  by_cases hzero : offset = 0
  · rw [hzero] at hc
    cases hc
    decide
  · rw [toList_offsetText hzero] at hc
    cases hc
    split <;> decide

/-! ## Whole texts -/

/-- The fields of a text in a row. -/
theorem toList_text (c : Clock) :
    c.text.toList = (Text.padded 4 (Calendar.Date.ofDay (c.seconds / daySeconds)).year).toList ++
      '-' :: ((Text.padded 2 (Calendar.Date.ofDay (c.seconds / daySeconds)).month).toList ++
      '-' :: ((Text.padded 2 (Calendar.Date.ofDay (c.seconds / daySeconds)).day).toList ++
      'T' :: ((Text.padded 2 (c.seconds % daySeconds / 3600)).toList ++
      ':' :: ((Text.padded 2 (c.seconds % daySeconds / 60 % 60)).toList ++
      ':' :: ((Text.padded 2 (c.seconds % daySeconds % 60)).toList ++
      ((fractionText c.nanoseconds).toList ++ (offsetText c.offset).toList)))))) := by
  simp [text]

/-- **The text of an instant is read as the instant.** -/
theorem read?_text (h : c.InRange) : read? c.text = some c := by
  have hdate := Calendar.day?_ofDay (c.seconds / daySeconds)
  obtain ⟨hmonth, hday, -⟩ := Calendar.lt_of_day? hdate
  have hyear : (Calendar.Date.ofDay (c.seconds / daySeconds)).year < 10000 :=
    Calendar.yearOf_lt (Nat.div_lt_of_lt_mul (by rw [Nat.mul_comm]; exact h.seconds))
  have htime : c.seconds % daySeconds < 86400 := Nat.mod_lt _ (by decide)
  have hseconds : c.seconds / daySeconds * daySeconds +
      3600 * (c.seconds % daySeconds / 3600) + 60 * (c.seconds % daySeconds / 60 % 60) +
      c.seconds % daySeconds % 60 = c.seconds := by
    have hsplit := Nat.div_add_mod' c.seconds daySeconds
    omega
  unfold read?
  rw [toList_text]
  generalize c.seconds % daySeconds = time at *
  generalize Calendar.Date.ofDay (c.seconds / daySeconds) = date at *
  have hminute : time / 60 % 60 < 60 := Nat.mod_lt _ (by decide)
  have hsecond : time % 60 < 60 := Nat.mod_lt _ (by decide)
  -- Field by field.
  refine Option.bind_eq_some_iff.2 ⟨_, take?_padded (by decide) hyear _, ?_⟩
  refine Option.bind_eq_some_iff.2 ⟨_, skip?_cons '-' _, ?_⟩
  refine Option.bind_eq_some_iff.2 ⟨_, take?_pair (by omega) _, ?_⟩
  refine Option.bind_eq_some_iff.2 ⟨_, skip?_cons '-' _, ?_⟩
  refine Option.bind_eq_some_iff.2 ⟨_, take?_pair (by omega) _, ?_⟩
  dsimp only
  rw [if_pos (by decide)]
  refine Option.bind_eq_some_iff.2 ⟨_, rfl, ?_⟩
  refine Option.bind_eq_some_iff.2 ⟨_, take?_pair (by omega) _, ?_⟩
  refine Option.bind_eq_some_iff.2 ⟨_, skip?_cons ':' _, ?_⟩
  refine Option.bind_eq_some_iff.2 ⟨_, take?_pair (by omega) _, ?_⟩
  refine Option.bind_eq_some_iff.2 ⟨_, skip?_cons ':' _, ?_⟩
  refine Option.bind_eq_some_iff.2 ⟨_, take?_pair (by omega) _, ?_⟩
  refine Option.bind_eq_some_iff.2
    ⟨_, fraction?_fractionText h.nanoseconds (head?_offsetText c.offset), ?_⟩
  refine Option.bind_eq_some_iff.2 ⟨_, offset?_offsetText h.offset, ?_⟩
  refine Option.bind_eq_some_iff.2 ⟨_, hdate, ?_⟩
  have hleap : (time % 60 == 60) = false := beq_false_of_ne (by omega)
  have hfields : ¬ (!([] : List Char).isEmpty || decide (23 < time / 3600) ||
      decide (59 < time / 60 % 60) || decide (60 < time % 60)) = true := by
    simp
    omega
  dsimp only
  rw [if_neg hfields]
  simp only [hleap, Bool.false_and, Bool.false_eq_true, if_false, hseconds]

/-! ## What is read -/

theorem fraction?_lt (h : fraction? cs = some (n, rest)) : n < 1000000000 := by
  unfold fraction? at h
  split at h
  · rename_i ds
    dsimp only at h
    split at h
    · cases h
    · cases h
      have hdigits : ∀ c ∈ (ds.takeWhile Char.isDigit).take 9 ++
          List.replicate (9 - (ds.takeWhile Char.isDigit).length) '0', c.isDigit = true := by
        intro c hc
        rcases List.mem_append.1 hc with hc | hc
        · exact List.mem_takeWhile_imp (List.mem_of_mem_take hc)
        · exact Text.isDigit_of_mem_zeros hc
      have hlength : min 9 (ds.takeWhile Char.isDigit).length +
          (9 - (ds.takeWhile Char.isDigit).length) = 9 := by omega
      have hlt := Text.ofDigits_lt hdigits
      rwa [List.length_append, List.length_take, List.length_replicate, hlength] at hlt
  · cases h
    decide

theorem natAbs_lt_of_offset? (h : offset? cs = some (offset, rest)) : offset.natAbs < 24 * 60 := by
  unfold offset? at h
  split at h
  · cases h
    decide
  · cases h
    decide
  · -- Whichever the sign, hours and minutes are bounded.
    simp only [Option.bind_eq_bind] at h
    split at h
    on_goal 2 => split at h
    on_goal 3 => cases h
    all_goals
      simp only [Option.bind_some, Option.bind_eq_some_iff] at h
      obtain ⟨⟨hours, _⟩, -, _, -, ⟨minutes, _⟩, -, h⟩ := h
      dsimp only at h
      split at h
      · rename_i hbounds
        simp only [Bool.and_eq_true, decide_eq_true_eq] at hbounds
        cases h
        omega
      · cases h
  · cases h

/-- What stands behind a field of fixed width. -/
theorem eq_drop_of_take? (h : take? width cs = some (n, rest)) : rest = cs.drop width :=
  (take?_eq_some_iff.1 h).2.2.2

theorem eq_drop_of_skip? {d : Char} (h : skip? d cs = some rest) : rest = cs.drop 1 := by
  rw [skip?_eq_some_iff.1 h]
  rfl

/-- The fields of a text, of which the instant is made up. -/
structure Fields (s : String) (c : Clock) (days hour minute second fraction : Nat) : Prop where
  days_lt : days < Calendar.daysBefore 10000
  hour_le : hour ≤ 23
  minute_le : minute ≤ 59
  second_le : second ≤ 60
  fraction_lt : fraction < 1000000000
  offset_lt : c.offset.natAbs < 24 * 60
  /-- The place of the second in the text. -/
  second_eq : second = Text.ofDigits ((s.toList.drop 17).take 2)
  seconds_eq : c.seconds =
    days * daySeconds + 3600 * hour + 60 * minute + if second = 60 then 59 else second
  nanoseconds_eq : c.nanoseconds = if second = 60 then 999999999 else fraction

/-- A text that is read has all fields. -/
theorem exists_fields_of_read? (h : read? s = some c) :
    ∃ days hour minute second fraction, Fields s c days hour minute second fraction := by
  obtain ⟨⟨year, r4⟩, hyear, h⟩ := Option.bind_eq_some_iff.1 h
  obtain ⟨r5, hr5, h⟩ := Option.bind_eq_some_iff.1 h
  obtain ⟨⟨month, r7⟩, hmonth, h⟩ := Option.bind_eq_some_iff.1 h
  obtain ⟨r8, hr8, h⟩ := Option.bind_eq_some_iff.1 h
  obtain ⟨⟨day, r10⟩, hday, h⟩ := Option.bind_eq_some_iff.1 h
  dsimp only at h
  split at h
  · rename_i separator r11
    split at h
    · obtain ⟨_, ⟨⟩, h⟩ := Option.bind_eq_some_iff.1 h
      obtain ⟨⟨hour, r13⟩, hhour, h⟩ := Option.bind_eq_some_iff.1 h
      obtain ⟨r14, hr14, h⟩ := Option.bind_eq_some_iff.1 h
      obtain ⟨⟨minute, r16⟩, hminute, h⟩ := Option.bind_eq_some_iff.1 h
      obtain ⟨r17, hr17, h⟩ := Option.bind_eq_some_iff.1 h
      obtain ⟨⟨second, r19⟩, hsecond, h⟩ := Option.bind_eq_some_iff.1 h
      obtain ⟨⟨fraction, r⟩, hfraction, h⟩ := Option.bind_eq_some_iff.1 h
      obtain ⟨⟨offset, e⟩, hoffset, h⟩ := Option.bind_eq_some_iff.1 h
      obtain ⟨days, hdays, h⟩ := Option.bind_eq_some_iff.1 h
      dsimp only at h
      -- Each field begins where the one in front of it ends.
      have hplace : r17 = s.toList.drop 17 := by
        have hr11 : r11 = s.toList.drop 11 := by
          have hr10 := eq_drop_of_take? hday
          rw [eq_drop_of_skip? hr8, eq_drop_of_take? hmonth, eq_drop_of_skip? hr5,
            eq_drop_of_take? hyear] at hr10
          simp only [List.drop_drop, Nat.reduceAdd] at hr10
          have htail := congrArg List.tail hr10
          rwa [List.tail_cons, List.tail_drop] at htail
        rw [eq_drop_of_skip? hr17, eq_drop_of_take? hminute, eq_drop_of_skip? hr14,
          eq_drop_of_take? hhour, hr11]
        simp only [List.drop_drop, Nat.reduceAdd]
      have hyear_lt : year < 10000 := lt_of_take? hyear
      have hdays_lt : days < Calendar.daysBefore 10000 :=
        (Calendar.lt_of_day? hdays).2.2.trans_le (Calendar.daysBefore_mono hyear_lt)
      obtain ⟨hfields, hinstant⟩ := Option.ite_none_left_eq_some.1 h
      obtain ⟨-, hinstant⟩ := Option.ite_none_left_eq_some.1 hinstant
      cases hinstant
      simp only [Bool.or_eq_true, decide_eq_true_eq, not_or, Nat.not_lt] at hfields
      exact ⟨days, hour, minute, second, fraction,
        { days_lt := hdays_lt
          hour_le := hfields.1.1.2
          minute_le := hfields.1.2
          second_le := hfields.2
          fraction_lt := fraction?_lt hfraction
          offset_lt := natAbs_lt_of_offset? hoffset
          second_eq := hplace ▸ (take?_eq_some_iff.1 hsecond).2.2.1
          seconds_eq := by simp
          nanoseconds_eq := by simp }⟩
    · cases h
  · cases h

/-- **Only instants in range are read.** -/
theorem inRange_of_read? (h : read? s = some c) : c.InRange := by
  obtain ⟨days, hour, minute, second, fraction, hfields⟩ := exists_fields_of_read? h
  obtain ⟨hdays, hhour, hminute, hsecond, hfraction, hoffset, -, hseconds, hnanoseconds⟩ := hfields
  have htime : (if second = 60 then 59 else second) ≤ 59 := by
    split
    · exact Nat.le_refl 59
    · omega
  refine ⟨?_, ?_, hoffset⟩
  · unfold endSeconds
    unfold daySeconds at hseconds ⊢
    omega
  · rw [hnanoseconds]
    split
    · decide
    · exact hfraction

/-- **A leap second counts as the last nanosecond in front of it.** -/
theorem nanoseconds_of_leap (h : read? s = some c)
    (hleap : (s.toList.drop 17).take 2 = ['6', '0']) :
    c.nanoseconds = 999999999 ∧ c.seconds % 60 = 59 := by
  obtain ⟨days, hour, minute, second, fraction, hfields⟩ := exists_fields_of_read? h
  have hsecond : second = 60 := by
    rw [hfields.second_eq, hleap]
    rfl
  have hseconds := hfields.seconds_eq
  have hnanoseconds := hfields.nanoseconds_eq
  rw [if_pos hsecond] at hseconds hnanoseconds
  unfold daySeconds at hseconds
  exact ⟨hnanoseconds, by omega⟩

end ProcessTest.Clock
