import Offspring.Text.Operand
/-!
# Numbers written and read

A number is written with decimal digits alone, those of the standard library
(`Decimal.ofNat_eq_toDigits`), after a minus sign if it is negative, so it stays on one line.
Its digits give it back (`Decimal.value_ofNat`), so different numbers are written
differently.  The number at the head of an operand fits 32 bits.
-/

namespace Offspring

namespace Decimal

theorem isDigit_digit : ∀ n, n < 10 → (digit n).isDigit = true := by
  decide

theorem ofNat_of_lt {n : Nat} (h : n < 10) : ofNat n = [digit n] := by
  rw [ofNat, if_pos h]

theorem ofNat_ne_nil (n : Nat) : ofNat n ≠ [] := by
  rw [ofNat]
  split <;> simp

theorem digit_eq_digitChar : ∀ n, n < 10 → digit n = n.digitChar := by
  decide

/-- Numbers are written as the standard library writes them. -/
theorem ofNat_eq_toDigits (n : Nat) : ofNat n = Nat.toDigits 10 n := by
  induction n using Nat.strongRecOn with
  | ind n ih =>
      rw [ofNat, Nat.toDigits_eq_if (by decide)]
      by_cases hn : n < 10
      · rw [if_pos hn, if_pos hn, digit_eq_digitChar n hn]
      · rw [if_neg hn, if_neg hn, ih (n / 10) (by omega),
          digit_eq_digitChar (n % 10) (Nat.mod_lt n (by decide))]

/-- A negative number is written after a minus sign, and any other without a sign. -/
theorem ofInt_eq_toDigits (i : Int) :
    ofInt i = (if i < 0 then ['-'] else []) ++ Nat.toDigits 10 i.natAbs := by
  rw [← ofNat_eq_toDigits]
  cases i with
  | ofNat n =>
      have hn : ¬ (Int.ofNat n < 0) := by simp
      rw [if_neg hn]
      rfl
  | negSucc n =>
      have hn : Int.negSucc n < 0 := Int.negSucc_lt_zero n
      rw [if_pos hn]
      rfl

/-- A number is written with digits. -/
theorem isDigit_of_mem_ofNat {n : Nat} {c : Char} (h : c ∈ ofNat n) : c.isDigit = true := by
  induction n using Nat.strongRecOn generalizing c with
  | ind n ih =>
      rw [ofNat] at h
      split at h
      · next hn =>
        rw [List.mem_singleton] at h
        rw [h]
        exact isDigit_digit n hn
      · next hn =>
        rw [List.mem_append, List.mem_singleton] at h
        rcases h with h | h
        · exact ih (n / 10) (by omega) h
        · rw [h]
          exact isDigit_digit (n % 10) (by omega)

theorem notMem_ofNat {c : Char} (hc : c.isDigit = false) (n : Nat) : c ∉ ofNat n := by
  intro h
  rw [isDigit_of_mem_ofNat h] at hc
  cases hc

/-- And so are its sign and digits on one line. -/
theorem newline_notMem_ofInt (i : Int) : '\n' ∉ ofInt i := by
  intro h
  cases i with
  | ofNat n => exact notMem_ofNat (by decide) n h
  | negSucc n =>
      rw [ofInt, List.mem_cons] at h
      rcases h with h | h
      · cases h
      · exact notMem_ofNat (by decide) (n + 1) h

theorem digitValue_digit : ∀ n, n < 10 → digitValue (digit n) = n := by
  decide

theorem valueFrom_append (v : Nat) (s t : Text) :
    valueFrom v (s ++ t) = valueFrom (valueFrom v s) t := by
  induction s generalizing v with
  | nil => rfl
  | cons c s ih => exact ih (v * 10 + digitValue c)

/-- Zeros in front of a row of digits do not count. -/
theorem value_zeros_append (zeros : Nat) (t : Text) :
    value (List.replicate zeros '0' ++ t) = value t := by
  induction zeros with
  | zero => rfl
  | succ zeros ih =>
      rw [List.replicate_succ, List.cons_append]
      exact ih

/-- The last digit counts once, and those before it tenfold. -/
theorem value_append_digit (t : Text) {n : Nat} (h : n < 10) :
    value (t ++ [digit n]) = value t * 10 + n := by
  calc value (t ++ [digit n]) = valueFrom (value t) [digit n] := valueFrom_append 0 t _
    _ = value t * 10 + digitValue (digit n) := rfl
    _ = value t * 10 + n := by rw [digitValue_digit n h]

/-- **The digits of a number give it back.** -/
theorem value_ofNat (n : Nat) : value (ofNat n) = n := by
  induction n using Nat.strongRecOn with
  | ind n ih =>
      by_cases hn : n < 10
      · calc value (ofNat n) = value ([] ++ [digit n]) := by rw [ofNat_of_lt hn, List.nil_append]
          _ = value [] * 10 + n := value_append_digit [] hn
          _ = n := by rw [show value [] = 0 from rfl]; omega
      · rw [ofNat, if_neg hn, value_append_digit _ (by omega), ih (n / 10) (by omega)]
        omega

theorem ofNat_injective {m n : Nat} (h : ofNat m = ofNat n) : m = n := by
  rw [← value_ofNat m, h, value_ofNat]

end Decimal

namespace Operand

/-- A clamped number fits 32 bits. -/
theorem clamp_bounds (v : Int) : smallest ≤ clamp v ∧ clamp v ≤ largest := by
  unfold clamp smallest largest
  split
  · omega
  · split <;> omega

/-- What an operand stands for fits 32 bits. -/
theorem leadingInt_bounds (t : Text) : smallest ≤ leadingInt t ∧ leadingInt t ≤ largest :=
  clamp_bounds _

end Operand

end Offspring
