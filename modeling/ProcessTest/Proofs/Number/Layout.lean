import Mathlib.Data.List.TakeWhile
import ProcessTest.Json.Text
import ProcessTest.Number.Literal
import ProcessTest.Proofs.Number.Search
import ProcessTest.Proofs.Text.Cut
import ProcessTest.Proofs.Text.Digits

/-!
# Texts of numbers

The digits of a double denote a rational number that rounds to it, and both ways to write them,
plainly or with an exponent, keep that rational number.  So the text of a double tells its
magnitude, and as a point or an exponent is always written, it tells doubles from whole numbers.

* `DecimalDigits.value` — the rational number of digits; `Binary64.has_value_shortest`.
* `Literal.rational?` — the rational number of a literal, before it is rounded.
* `Layout.rational?_unsigned` — no layout changes the number.
* `Number.text_injective` — numbers of one text are equal.
-/

set_option autoImplicit false

namespace ProcessTest

/-! ## Digits -/

namespace DecimalDigits

/-- The rational number that digits denote. -/
def value (d : DecimalDigits) : ℚ :=
  Text.ofDigits d.digits * 10 ^ (d.exponent + 1 - d.digits.length)

/-- There is a digit, and there is nothing but digits. -/
structure Proper (d : DecimalDigits) : Prop where
  nonempty : d.digits ≠ []
  digit : ∀ c ∈ d.digits, c.isDigit = true

end DecimalDigits

namespace Binary64

variable {x y : Binary64}

theorem shortest_zero (hx : x.code = 0) : x.shortest = ⟨['0'], 0⟩ := by
  rw [shortest, if_pos hx]

/-- The digits of a nonzero double are those of a decimal in its interval. -/
theorem exists_shortest (hx : x.code ≠ 0) :
    ∃ (n : ℕ) (places : ℤ) (k : ℕ), x.span.Has (n * 10 ^ (-places)) ∧
      Text.digits n = x.shortest.digits ++ List.replicate k '0' ∧
      x.shortest.digits ≠ [] ∧ x.shortest.exponent = (Text.digits n).length - 1 - places := by
  obtain ⟨n, places, hsearch, hn, hhas⟩ := exists_search_span hx
  obtain ⟨k, hk⟩ := Text.exists_append_zeros (Text.digits n)
  have hkept : ((Text.digits n).reverse.dropWhile (· == '0')).reverse ≠ [] := by
    intro hnil
    rw [hnil] at hk
    have hzero := Text.ofDigits_append_zeros [] k
    rw [← hk, Text.ofDigits_digits] at hzero
    exact hn hzero
  refine ⟨n, places, k, hhas, ?_⟩
  simp only [shortest, if_neg hx, hsearch]
  exact ⟨hk, hkept, trivial⟩

theorem proper_shortest (x : Binary64) : x.shortest.Proper := by
  by_cases hx : x.code = 0
  · rw [shortest_zero hx]
    exact ⟨List.cons_ne_nil _ _, by simp⟩
  · obtain ⟨n, places, k, -, hdigits, hne, -⟩ := exists_shortest hx
    exact ⟨hne, fun c hc => Text.isDigit_of_mem_digits (hdigits ▸ List.mem_append_left _ hc)⟩

theorem value_shortest_zero (hx : x.code = 0) : x.shortest.value = 0 := by
  rw [shortest_zero hx]
  simp [DecimalDigits.value, Text.ofDigits, Text.digitValue]

/-- The digits of a double round to it. -/
theorem has_value_shortest (hx : x.code ≠ 0) : x.span.Has x.shortest.value := by
  obtain ⟨n, places, k, hhas, hdigits, -, hexponent⟩ := exists_shortest hx
  suffices x.shortest.value = n * 10 ^ (-places) by rwa [this]
  have hn : (n : ℚ) = 10 ^ k * Text.ofDigits x.shortest.digits := by
    have := Text.ofDigits_append_zeros x.shortest.digits k
    rw [← hdigits, Text.ofDigits_digits, Nat.pow_eq] at this
    exact_mod_cast this
  have hlength := congrArg List.length hdigits
  rw [List.length_append, List.length_replicate] at hlength
  rw [DecimalDigits.value, hexponent, hn, mul_comm _ (10 ^ (-places)), mul_left_comm, ← mul_assoc,
    mul_comm, ← zpow_natCast, ← zpow_add₀ (by norm_num), hlength]
  congr 2
  push_cast
  ring

/-- Doubles whose digits denote one number have one magnitude. -/
theorem code_eq_of_value_shortest (h : x.shortest.value = y.shortest.value) : x.code = y.code := by
  by_cases hx : x.code = 0 <;> by_cases hy : y.code = 0
  · rw [hx, hy]
  · have hpos := (has_value_shortest hy).pos hy
    rw [← h, value_shortest_zero hx] at hpos
    exact absurd hpos (lt_irrefl _)
  · have hpos := (has_value_shortest hx).pos hx
    rw [h, value_shortest_zero hy] at hpos
    exact absurd hpos (lt_irrefl _)
  · exact code_eq_of_has hx hy (has_value_shortest hx) (h ▸ has_value_shortest hy)

end Binary64

/-! ## Literals -/

/-- The sign and the digits of an exponent. -/
def Layout.exponentText (l : Layout) (e : ℤ) : List Char :=
  (if e < 0 then ['-'] else if l.plusSign then ['+'] else []) ++ Text.digits e.natAbs

namespace Literal

/-- The number of an unsigned literal, before it is rounded. -/
def rational? (cs : List Char) : Option ℚ := do
  let (whole, fraction, rest) ← mantissa? cs
  let exponent ← exponent? rest
  pure (Text.ofDigits (whole ++ fraction) * 10 ^ (exponent - fraction.length))

variable {whole fraction rest : List Char}

/-- Digits with a point in between. -/
theorem mantissa?_point (hne : whole ≠ []) (hwhole : ∀ c ∈ whole, c.isDigit = true)
    (hfraction : ∀ c ∈ fraction, c.isDigit = true) (hrest : ∀ c ∈ rest.head?, c.isDigit = false) :
    mantissa? (whole ++ '.' :: (fraction ++ rest)) = some (whole, fraction, rest) := by
  have hpoint : ∀ c ∈ ('.' :: (fraction ++ rest)).head?, c.isDigit = false := by
    rintro c hc
    cases hc
    rfl
  obtain ⟨htake, hdrop⟩ := Text.span_append hwhole hpoint
  obtain ⟨htake', hdrop'⟩ := Text.span_append hfraction hrest
  unfold mantissa?
  simp [htake, hdrop, htake', hdrop', hne]

/-- Digits without a point. -/
theorem mantissa?_whole (hne : whole ≠ []) (hwhole : ∀ c ∈ whole, c.isDigit = true)
    (hrest : ∀ c ∈ rest.head?, c.isDigit = false ∧ c ≠ '.') :
    mantissa? (whole ++ rest) = some (whole, [], rest) := by
  obtain ⟨htake, hdrop⟩ := Text.span_append hwhole fun c hc => (hrest c hc).1
  unfold mantissa?
  rw [htake, hdrop]
  simp only
  split
  · exact absurd rfl (hrest '.' rfl).2
  · simp [hne]

theorem exponent?_nil : exponent? [] = some 0 := rfl

theorem head_exponent? {e : ℤ} (h : exponent? rest = some e) :
    ∀ c ∈ rest.head?, c.isDigit = false ∧ c ≠ '.' := by
  rintro c hc
  cases rest with
  | nil => cases hc
  | cons d ds =>
    obtain rfl := Option.some.inj hc
    have hmark : d = 'e' ∨ d = 'E' := by
      by_contra hnot
      simp [exponent?, hnot] at h
    rcases hmark with rfl | rfl <;> decide

theorem sign_digits (n : ℕ) : sign (Text.digits n) = (false, Text.digits n) := by
  unfold sign
  split
  · rename_i h
    exact absurd (Text.isDigit_of_mem_digits (h ▸ List.mem_cons_self)) (by decide)
  · rename_i h
    exact absurd (Text.isDigit_of_mem_digits (h ▸ List.mem_cons_self)) (by decide)
  · rfl

theorem readNat?_digits (n : ℕ) : Text.readNat? (Text.digits n) = some n := by
  unfold Text.readNat?
  rw [if_neg, Text.ofDigits_digits]
  simpa [Text.digits_ne_nil] using fun c => Text.isDigit_of_mem_digits

/-- The exponent as layouts write it. -/
theorem exponent?_exponentText (l : Layout) (e : ℤ) :
    exponent? ('e' :: l.exponentText e) = some e := by
  have hsign : sign (l.exponentText e) = (decide (e < 0), Text.digits e.natAbs) := by
    unfold Layout.exponentText
    split_ifs with hneg
    · simp [sign, hneg]
    · simp [sign, hneg]
    · simp [sign_digits, hneg]
  simp only [exponent?, hsign, readNat?_digits]
  by_cases hneg : e < 0
  · simp [hneg, abs_of_neg]
  · simp [hneg, abs_of_nonneg (not_lt.1 hneg)]

end Literal

/-! ## Layouts -/

/-- The characters that numbers consist of. -/
def isNumeral (c : Char) : Bool := c.isDigit || c == '.' || c == 'e' || c == '+' || c == '-'

theorem isNumeral_of_isDigit {c : Char} (h : c.isDigit = true) : isNumeral c = true := by
  simp [isNumeral, h]

namespace Layout

open Literal (rational? exponent?_nil)

variable {d : DecimalDigits}

/-- Zeros around the digits leave the number as it is, if the exponent says so. -/
theorem value_eq {ds : List Char} {i j : ℕ} {e : ℤ}
    (hds : ds = List.replicate i '0' ++ (d.digits ++ List.replicate j '0'))
    (he : e + j = d.exponent + 1 - d.digits.length) :
    (Text.ofDigits ds : ℚ) * 10 ^ e = d.value := by
  rw [hds, Text.ofDigits_zeros_append, Text.ofDigits_append_zeros, DecimalDigits.value, ← he,
    zpow_add₀ (by norm_num), zpow_natCast, Nat.pow_eq]
  push_cast
  ring

theorem isDigit_of_eq {ds : List Char} {i j : ℕ} (hd : d.Proper)
    (hds : ds = List.replicate i '0' ++ (d.digits ++ List.replicate j '0')) :
    ∀ c ∈ ds, c.isDigit = true := by
  intro c hc
  rw [hds, List.mem_append, List.mem_append] at hc
  rcases hc with hc | hc | hc
  · exact Text.isDigit_of_mem_zeros hc
  · exact hd.digit c hc
  · exact Text.isDigit_of_mem_zeros hc

variable {whole fraction rest : List Char} {i j : ℕ} {e : ℤ}

/-- A literal with a point, whose digits are the given ones up to zeros. -/
theorem rational?_point (hd : d.Proper) (hne : whole ≠ []) (he : Literal.exponent? rest = some e)
    (hds : whole ++ fraction = List.replicate i '0' ++ (d.digits ++ List.replicate j '0'))
    (hplaces : e - fraction.length + j = d.exponent + 1 - d.digits.length) :
    rational? (whole ++ '.' :: (fraction ++ rest)) = some d.value := by
  have hdigit := isDigit_of_eq hd hds
  have hm := Literal.mantissa?_point hne (fun c hc => hdigit c (List.mem_append_left _ hc))
    (fun c hc => hdigit c (List.mem_append_right _ hc))
    fun c hc => (Literal.head_exponent? he c hc).1
  rw [rational?, hm]
  simp only [Option.bind_eq_bind, Option.bind_some, he]
  exact congrArg some (value_eq hds hplaces)

/-- A literal without a point. -/
theorem rational?_whole (hd : d.Proper) (he : Literal.exponent? rest = some e)
    (hplaces : e = d.exponent + 1 - d.digits.length) :
    rational? (d.digits ++ rest) = some d.value := by
  rw [rational?, Literal.mantissa?_whole hd.nonempty hd.digit (Literal.head_exponent? he)]
  simp only [Option.bind_eq_bind, Option.bind_some, he]
  rw [List.append_nil, List.length_nil, Nat.cast_zero, sub_zero, hplaces]
  rfl

/-- The plain form below one. -/
theorem rational?_small (hd : d.Proper) (hsmall : d.exponent < 0) :
    rational? ('0' :: '.' :: List.replicate ((-d.exponent).toNat - 1) '0' ++ d.digits) =
      some d.value := by
  have hds : ['0'] ++ (List.replicate ((-d.exponent).toNat - 1) '0' ++ d.digits) =
      List.replicate (-d.exponent).toNat '0' ++ (d.digits ++ List.replicate 0 '0') := by
    rw [← List.append_assoc, List.singleton_append, ← List.replicate_succ, List.replicate_zero,
      List.append_nil]
    congr 2
    omega
  have h := rational?_point hd (List.cons_ne_nil _ _) exponent?_nil hds
    (by rw [List.length_append, List.length_replicate]; omega)
  simpa using h

/-- The plain form from one on. -/
theorem rational?_plain (hd : d.Proper) (hlarge : 0 ≤ d.exponent) :
    rational? (d.digits.take (d.exponent.toNat + 1) ++
      List.replicate (d.exponent.toNat + 1 - d.digits.length) '0' ++
        '.' :: (if (d.digits.drop (d.exponent.toNat + 1)).isEmpty then ['0']
          else d.digits.drop (d.exponent.toNat + 1))) = some d.value := by
  obtain ⟨k, hk⟩ := Int.eq_ofNat_of_zero_le hlarge
  have hpos := List.length_pos_iff.2 hd.nonempty
  rw [hk, Int.toNat_natCast]
  have hne : d.digits.take (k + 1) ++ List.replicate (k + 1 - d.digits.length) '0' ≠ [] := by
    simp [hd.nonempty]
  rcases Nat.lt_or_ge (k + 1) d.digits.length with hlt | hge
  · -- Digits are left behind the point.
    have hds : d.digits.take (k + 1) ++ List.replicate (k + 1 - d.digits.length) '0' ++
        d.digits.drop (k + 1) =
          List.replicate 0 '0' ++ (d.digits ++ List.replicate 0 '0') := by
      rw [Nat.sub_eq_zero_of_le hlt.le]
      simp
    have h := rational?_point hd hne exponent?_nil hds (by rw [List.length_drop]; omega)
    rw [List.append_nil] at h
    rw [if_neg (by simpa using hlt)]
    exact h
  · -- Zeros reach up to the point and stand behind it.
    have hds : d.digits.take (k + 1) ++ List.replicate (k + 1 - d.digits.length) '0' ++ ['0'] =
        List.replicate 0 '0' ++
          (d.digits ++ List.replicate (k + 1 - d.digits.length + 1) '0') := by
      rw [List.take_of_length_le hge, List.replicate_succ']
      simp
    have h := rational?_point hd hne exponent?_nil hds (by rw [List.length_singleton]; omega)
    rw [if_pos (by simpa using hge)]
    exact h

/-- The form with an exponent. -/
theorem rational?_scientific (hd : d.Proper) {mark : List Char}
    (he : Literal.exponent? ('e' :: mark) = some d.exponent) :
    rational? ((match d.digits with
      | [one] => [one]
      | one :: rest => one :: '.' :: rest
      | [] => []) ++ 'e' :: mark) = some d.value := by
  split
  · rename_i hds
    rw [← hds]
    exact rational?_whole hd he (by rw [hds, List.length_singleton]; omega)
  · rename_i first more _ hds
    have hzeros : [first] ++ more = List.replicate 0 '0' ++ (d.digits ++ List.replicate 0 '0') := by
      simp [hds]
    have h := rational?_point hd (List.cons_ne_nil _ _) he hzeros
      (by rw [hds, List.length_cons]; omega)
    simpa using h
  · rename_i hds
    exact absurd hds hd.nonempty

/-- No layout changes the number. -/
theorem rational?_unsigned (l : Layout) (hd : d.Proper) :
    rational? (l.unsigned d) = some d.value := by
  by_cases hplain : (l.plainFrom ≤ d.exponent && d.exponent < l.plainBelow) = true
  · rw [unsigned, if_pos hplain]
    split
    · rename_i hsmall
      exact rational?_small hd hsmall
    · rename_i hlarge
      exact rational?_plain hd (not_lt.1 hlarge)
  · rw [unsigned, if_neg hplain]
    have h := rational?_scientific hd (Literal.exponent?_exponentText l d.exponent)
    simp only [List.append_assoc, List.cons_append]
    exact h

theorem isNumeral_of_mem_exponentText {l : Layout} {c : Char} (h : c ∈ l.exponentText e) :
    isNumeral c = true := by
  rcases List.mem_append.1 h with h | h
  · split_ifs at h
    · obtain rfl := List.mem_singleton.1 h
      rfl
    · obtain rfl := List.mem_singleton.1 h
      rfl
    · cases h
  · exact isNumeral_of_isDigit (Text.isDigit_of_mem_digits h)

/-- Every layout begins with digits, and a point or an exponent follows. -/
theorem exists_unsigned_eq (l : Layout) (hd : d.Proper) : ∃ whole c rest,
    l.unsigned d = whole ++ c :: rest ∧ whole ≠ [] ∧ (∀ w ∈ whole, w.isDigit = true) ∧
      (c = '.' ∨ c = 'e') ∧ ∀ r ∈ rest, isNumeral r = true := by
  have hzeros (k : ℕ) : ∀ c ∈ List.replicate k '0', c.isDigit = true :=
    fun c => Text.isDigit_of_mem_zeros
  by_cases hplain : (l.plainFrom ≤ d.exponent && d.exponent < l.plainBelow) = true
  · rw [unsigned, if_pos hplain]
    split
    · refine ⟨['0'], '.', _, rfl, List.cons_ne_nil _ _, hzeros 1, .inl rfl, fun c hc => ?_⟩
      exact isNumeral_of_isDigit ((List.mem_append.1 hc).elim (hzeros _ c) (hd.digit c))
    · refine ⟨_, '.', _, rfl, by simp [hd.nonempty], fun c hc => ?_, .inl rfl, fun c hc => ?_⟩
      · exact (List.mem_append.1 hc).elim (fun h => hd.digit c (List.mem_of_mem_take h))
          (hzeros _ c)
      · refine isNumeral_of_isDigit ?_
        split_ifs at hc
        · exact hzeros 1 c hc
        · exact hd.digit c (List.mem_of_mem_drop hc)
  · obtain ⟨first, more, hds⟩ := List.exists_cons_of_ne_nil hd.nonempty
    have hfirst : ∀ c ∈ [first], c.isDigit = true :=
      fun c hc => hd.digit c (hds ▸ List.mem_cons.2 (.inl (List.mem_singleton.1 hc)))
    rw [unsigned, if_neg hplain, hds]
    cases more with
    | nil =>
      exact ⟨[first], 'e', l.exponentText d.exponent, rfl, List.cons_ne_nil _ _, hfirst, .inr rfl,
        fun c hc => isNumeral_of_mem_exponentText hc⟩
    | cons second more =>
      refine ⟨[first], '.', second :: more ++ 'e' :: l.exponentText d.exponent, ?_,
        List.cons_ne_nil _ _, hfirst, .inl rfl, fun c hc => ?_⟩
      · simp [exponentText]
      · rcases List.mem_append.1 hc with hc | hc
        · exact isNumeral_of_isDigit (hd.digit c (hds ▸ List.mem_cons_of_mem _ hc))
        · rcases List.mem_cons.1 hc with rfl | hc
          · rfl
          · exact isNumeral_of_mem_exponentText hc

/-- Doubles whose digits are written alike have one magnitude. -/
theorem code_eq_of_unsigned (l : Layout) {x y : Binary64}
    (h : l.unsigned x.shortest = l.unsigned y.shortest) : x.code = y.code := by
  have hx := rational?_unsigned l x.proper_shortest
  rw [h, rational?_unsigned l y.proper_shortest] at hx
  exact Binary64.code_eq_of_value_shortest (Option.some.inj hx).symm

end Layout

/-! ## Numbers -/

namespace Number

variable {m n : Number}

/-- Whether the text begins with a minus sign. -/
def negative : Number → Bool
  | .int n => decide (n < 0)
  | .double x => x.negative

/-- The text behind the sign. -/
def unsigned : Number → List Char
  | .int n => Text.digits n.natAbs
  | .double x => Layout.document.unsigned x.shortest

theorem toList_text (n : Number) :
    n.text.toList = if n.negative then '-' :: n.unsigned else n.unsigned := by
  cases n with
  | int n => by_cases h : n < 0 <;> simp [text, negative, unsigned, h]
  | double x => by_cases h : x.negative <;> simp [text, Layout.text, negative, unsigned, h]

theorem head_unsigned (n : Number) : ∃ c cs, n.unsigned = c :: cs ∧ c.isDigit = true := by
  cases n with
  | int n =>
    obtain ⟨c, cs, hds⟩ := List.exists_cons_of_ne_nil (Text.digits_ne_nil n.natAbs)
    exact ⟨c, cs, hds, Text.isDigit_of_mem_digits (hds ▸ List.mem_cons_self)⟩
  | double x =>
    obtain ⟨whole, mark, rest, heq, hne, hwhole, -⟩ :=
      Layout.document.exists_unsigned_eq x.proper_shortest
    obtain ⟨c, cs, rfl⟩ := List.exists_cons_of_ne_nil hne
    exact ⟨c, cs ++ mark :: rest, heq, hwhole c List.mem_cons_self⟩

theorem toList_text_ne_nil (n : Number) : n.text.toList ≠ [] := by
  obtain ⟨c, cs, h, -⟩ := head_unsigned n
  rw [toList_text, h]
  split_ifs <;> exact List.cons_ne_nil _ _

/-- A whole number has neither a point nor an exponent. -/
theorem unsigned_int_ne (i : ℤ) (x : Binary64) : unsigned (.int i) ≠ unsigned (.double x) := by
  intro h
  obtain ⟨whole, mark, rest, heq, -, -, hmark, -⟩ :=
    Layout.document.exists_unsigned_eq x.proper_shortest
  have hmem : mark ∈ unsigned (.int i) := by
    rw [h, unsigned, heq]
    exact List.mem_append_right _ List.mem_cons_self
  have hdigit := Text.isDigit_of_mem_digits hmem
  rcases hmark with rfl | rfl <;> exact absurd hdigit (by decide)

theorem isNumeral_of_mem_text {c : Char} (h : c ∈ n.text.toList) : isNumeral c = true := by
  have hunsigned : ∀ c ∈ n.unsigned, isNumeral c = true := by
    cases n with
    | int n => exact fun c hc => isNumeral_of_isDigit (Text.isDigit_of_mem_digits hc)
    | double x =>
      obtain ⟨whole, mark, rest, heq, -, hwhole, hmark, hrest⟩ :=
        Layout.document.exists_unsigned_eq x.proper_shortest
      intro c hc
      rw [unsigned, heq] at hc
      rcases List.mem_append.1 hc with hc | hc
      · exact isNumeral_of_isDigit (hwhole c hc)
      · rcases List.mem_cons.1 hc with rfl | hc
        · rcases hmark with rfl | rfl <;> rfl
        · exact hrest c hc
  rw [toList_text] at h
  split_ifs at h
  · rcases List.mem_cons.1 h with rfl | h
    · rfl
    · exact hunsigned c h
  · exact hunsigned c h

/-- **Numbers of one text are equal**: a text tells the sign, the magnitude and whether the number
is a whole number or a double. -/
theorem text_injective : Function.Injective Number.text := by
  intro m n h
  have htext := congrArg String.toList h
  rw [toList_text, toList_text] at htext
  obtain ⟨c, cs, hm, hc⟩ := head_unsigned m
  obtain ⟨d, ds, hn, hd⟩ := head_unsigned n
  have hsplit : m.negative = n.negative ∧ m.unsigned = n.unsigned := by
    rw [hm, hn] at htext ⊢
    split_ifs at htext with hm hn hn
    · exact ⟨hm.trans hn.symm, (List.cons.inj htext).2⟩
    · obtain rfl := (List.cons.inj htext).1
      exact absurd hd (by decide)
    · obtain rfl := (List.cons.inj htext).1
      exact absurd hc (by decide)
    · exact ⟨(Bool.eq_false_iff.2 hm).trans (Bool.eq_false_iff.2 hn).symm, htext⟩
  obtain ⟨hnegative, hunsigned⟩ := hsplit
  match m, n with
  | .int i, .int j =>
    have habs : i.natAbs = j.natAbs := Text.digits_injective hunsigned
    have hsign : i < 0 ↔ j < 0 := decide_eq_decide.1 hnegative
    congr 1
    omega
  | .int i, .double x => exact absurd hunsigned (unsigned_int_ne i x)
  | .double x, .int i => exact absurd hunsigned.symm (unsigned_int_ne i x)
  | .double ⟨a, i, _⟩, .double ⟨b, j, _⟩ =>
    obtain rfl : a = b := hnegative
    obtain rfl : i = j := Layout.document.code_eq_of_unsigned hunsigned
    rfl

end Number

end ProcessTest
