import Mathlib.Data.List.TakeWhile
import ProcessTest.Text.Digits

/-!
# Numbers in digits

* `ofDigits_digits` — the digits of a number denote it, so `digits_injective`.
* `ofDigits_padded` — a number filled up with zeros reads back as itself.
* `head?_digits_ne_zero` — a positive number has no leading zero.
* `exists_append_zeros` — digits without their trailing zeros.
* `isDigit_of_mem_padded`, `length_padded` — it consists of digits, as many as asked for.
* `ofDigits_lt` — a number is less than the power of ten for its digits.
-/

set_option autoImplicit false

namespace ProcessTest.Text

variable {width n : Nat} {c : Char}

theorem ofDigits_digits (n : Nat) : ofDigits (digits n) = n := by
  change Nat.ofDigitChars 10 (Nat.toDigits 10 n) 0 = n
  exact Nat.ofDigitChars_ten_toDigits

theorem digits_ne_nil (n : Nat) : digits n ≠ [] := Nat.toDigits_ne_nil

theorem isDigit_of_mem_digits (h : c ∈ digits n) : c.isDigit = true :=
  Nat.isDigit_of_mem_toDigits (by decide) (by decide) h

theorem isDigit_of_mem_zeros {k : Nat} (h : c ∈ List.replicate k '0') : c.isDigit = true := by
  obtain ⟨-, rfl⟩ := List.mem_replicate.1 h
  rfl

theorem digits_injective {m n : Nat} (h : digits m = digits n) : m = n := by
  rw [← ofDigits_digits m, h, ofDigits_digits]

theorem head?_digits_ne_zero (h : 0 < n) : (digits n).head? ≠ some '0' := by
  have hsingle : ∀ d < 10, 0 < d → [Nat.digitChar d].head? ≠ some '0' := by decide
  induction n using Nat.strongRecOn with
  | _ n ih =>
    unfold digits at ih ⊢
    by_cases hn : n < 10
    · rw [Nat.toDigits_of_lt_base hn]
      exact hsingle n hn h
    · have hten : 10 ≤ n := Nat.le_of_not_lt hn
      have hrest := ih (n / 10) (by omega) (by omega)
      rw [Nat.toDigits_of_base_le (by decide) hten]
      cases hlead : Nat.toDigits 10 (n / 10) with
      | nil => exact absurd hlead Nat.toDigits_ne_nil
      | cons d ds =>
        rw [hlead] at hrest
        exact hrest

theorem ofDigits_zeros_append (k : Nat) (ds : List Char) :
    ofDigits (List.replicate k '0' ++ ds) = ofDigits ds := by
  change Nat.ofDigitChars 10 _ 0 = Nat.ofDigitChars 10 _ 0
  rw [Nat.ofDigitChars_append, Nat.ofDigitChars_replicate_zero, Nat.mul_zero]

theorem ofDigits_append_zeros (ds : List Char) (k : Nat) :
    ofDigits (ds ++ List.replicate k '0') = Nat.pow 10 k * ofDigits ds := by
  change Nat.ofDigitChars 10 _ 0 = Nat.pow 10 k * Nat.ofDigitChars 10 _ 0
  rw [Nat.ofDigitChars_append, Nat.ofDigitChars_replicate_zero]
  rfl

/-- Without its trailing zeros, and with them again. -/
theorem exists_append_zeros (ds : List Char) :
    ∃ k, ds = (ds.reverse.dropWhile (· == '0')).reverse ++ List.replicate k '0' := by
  refine ⟨(ds.reverse.takeWhile (· == '0')).length, ?_⟩
  have hzeros : (ds.reverse.takeWhile (· == '0')).reverse =
      List.replicate (ds.reverse.takeWhile (· == '0')).length '0' := by
    refine List.eq_replicate_iff.2 ⟨List.length_reverse, fun c hc => ?_⟩
    have h := List.mem_takeWhile_imp (List.mem_reverse.1 hc)
    rwa [beq_iff_eq] at h
  calc ds = (ds.reverse.takeWhile (· == '0') ++ ds.reverse.dropWhile (· == '0')).reverse := by
        rw [List.takeWhile_append_dropWhile, List.reverse_reverse]
    _ = (ds.reverse.dropWhile (· == '0')).reverse ++
          (ds.reverse.takeWhile (· == '0')).reverse := List.reverse_append
    _ = _ := by rw [hzeros]

theorem ofDigits_padded (width n : Nat) : ofDigits (padded width n).toList = n := by
  unfold padded
  rw [String.toList_ofList, ofDigits_zeros_append, ofDigits_digits]

theorem isDigit_of_mem_padded (h : c ∈ (padded width n).toList) : c.isDigit = true := by
  unfold padded at h
  rw [String.toList_ofList] at h
  rcases List.mem_append.1 h with h | h
  · exact isDigit_of_mem_zeros h
  · exact isDigit_of_mem_digits h

theorem length_padded (hwidth : 0 < width) (h : n < Nat.pow 10 width) :
    (padded width n).toList.length = width := by
  have hle : (digits n).length ≤ width := (Nat.length_toDigits_le_iff (by decide) hwidth).2 h
  unfold padded
  rw [String.toList_ofList, List.length_append, List.length_replicate, Nat.sub_add_cancel hle]

theorem isDigit_iff : c.isDigit = true ↔ 48 ≤ c.val.toNat ∧ c.val.toNat ≤ 57 :=
  Bool.and_eq_true_iff.trans (and_congr (decide_eq_true_iff.trans UInt32.le_iff_toNat_le)
    (decide_eq_true_iff.trans UInt32.le_iff_toNat_le))

theorem digitValue_lt (h : c.isDigit = true) : digitValue c < 10 := by
  have hnine := (isDigit_iff.1 h).2
  have hzero : ('0' : Char).toNat = 48 := rfl
  unfold digitValue
  rw [hzero, ← Char.toNat_val]
  omega

/-- A number is less than the power of ten for its digits. -/
theorem ofDigits_lt {ds : List Char} (h : ∀ c ∈ ds, c.isDigit = true) :
    ofDigits ds < Nat.pow 10 ds.length := by
  suffices hfold : ∀ n,
      ds.foldl (fun n c => 10 * n + digitValue c) n < (n + 1) * Nat.pow 10 ds.length by
    have hzero := hfold 0
    rwa [Nat.zero_add, Nat.one_mul] at hzero
  induction ds with
  | nil => simp
  | cons c ds ih =>
    intro n
    obtain ⟨hc, hds⟩ := List.forall_mem_cons.1 h
    have hdigit : 10 * n + digitValue c + 1 ≤ (n + 1) * 10 := by
      have := digitValue_lt hc
      omega
    calc ds.foldl (fun n c => 10 * n + digitValue c) (10 * n + digitValue c)
        < (10 * n + digitValue c + 1) * Nat.pow 10 ds.length := ih hds _
      _ ≤ (n + 1) * 10 * Nat.pow 10 ds.length := Nat.mul_le_mul_right _ hdigit
      _ = (n + 1) * Nat.pow 10 (ds.length + 1) := by
        rw [Nat.mul_assoc, Nat.mul_comm 10]
        rfl

end ProcessTest.Text
