import Offspring.Proofs.Text.Octets
import Offspring.Proofs.Text.Subparts
import Offspring.Proofs.Text.Operand
import Offspring.Text.Register
/-!
# No fault in the register

Digits are read only behind a number that is not past the ceiling, so the register never comes
near its bounds (`shift?_eq`): it holds every number on the way (`readDigits_spec`), and the
negative of the last.  From the first digit that is not zero on the number grows tenfold with
each digit, so there are at most ten more of them (`length_steps_of_le`).  A sign and a digit are
characters of one byte (`sign_eq`, `digit?_of_isDigit`), so the bytes of an operand are read as
its characters are (`readDigits_encode_cons`) and come to the same number (`result_readDigits`).
-/

namespace Offspring.Operand

open Decimal

theorem register?_eq {v : Int} (h : -2 ^ 63 ≤ v ∧ v < 2 ^ 63) : register? v = some v :=
  if_pos h

theorem digit?_le {b : UInt8} {digit : Nat} (h : digit? b = some digit) : digit ≤ 9 := by
  unfold digit? at h
  split at h
  · next hb =>
    cases h
    omega
  · cases h

/-- The digit zero is one byte. -/
theorem digit?_eq_zero_iff {b : UInt8} : digit? b = some 0 ↔ b = 0x30 := by
  have hzero : (0x30 : UInt8).toNat = 48 := rfl
  rw [digit?, ← UInt8.toNat_inj, hzero]
  split
  · rw [Option.some.injEq]
    omega
  · simp only [reduceCtorEq, false_iff]
    omega

section Digits

variable {v : Int} {b : UInt8} {digit : Nat}

/-- **Up to the ceiling there is room for one more digit.** -/
theorem shift?_eq (hv : 0 ≤ v ∧ v ≤ ceiling) (hdigit : digit ≤ 9) :
    shift? v digit = some (v * 10 + digit) := by
  unfold ceiling at hv
  rw [shift?, register?_eq (by omega), Option.bind_some, register?_eq (by omega)]

theorem readDigits_of_none (hb : digit? b = none) (v : Int) (bs : Bytes) :
    readDigits v (b :: bs) = ⟨[], some v⟩ := by
  simp only [readDigits, hb]

/-- One digit, read behind a number that is not past the ceiling. -/
theorem readDigits_of_digit (hv : 0 ≤ v ∧ v ≤ ceiling) (hb : digit? b = some digit) (bs : Bytes) :
    readDigits v (b :: bs) =
      if v * 10 + digit > ceiling then ⟨[(v, digit)], some (v * 10 + digit)⟩
      else ⟨(v, digit) :: (readDigits (v * 10 + digit) bs).steps,
        (readDigits (v * 10 + digit) bs).result⟩ := by
  simp only [readDigits, hb, shift?_eq hv (digit?_le hb)]

/-- **No digit is a fault.**  Before each the number is not past the ceiling, and after the last
it is not far past it. -/
theorem readDigits_spec (hv : 0 ≤ v ∧ v ≤ ceiling) (bs : Bytes) :
    (∀ s ∈ (readDigits v bs).steps, (0 ≤ s.1 ∧ s.1 ≤ ceiling) ∧ s.2 ≤ 9) ∧
    ∃ n, (readDigits v bs).result = some n ∧ 0 ≤ n ∧ n ≤ ceiling * 10 + 9 := by
  induction bs generalizing v with
  | nil => exact ⟨nofun, v, rfl, hv.1, by omega⟩
  | cons b bs ih =>
      cases hb : digit? b with
      | none =>
          rw [readDigits_of_none hb]
          exact ⟨nofun, v, rfl, hv.1, by omega⟩
      | some digit =>
          have hdigit := digit?_le hb
          rw [readDigits_of_digit hv hb]
          split
          · refine ⟨?_, _, rfl, by omega, by omega⟩
            intro s hs
            obtain rfl := List.mem_singleton.mp hs
            exact ⟨hv, hdigit⟩
          · obtain ⟨hsteps, hresult⟩ := ih (v := v * 10 + digit) (by omega)
            exact ⟨List.forall_mem_cons.mpr ⟨⟨hv, hdigit⟩, hsteps⟩, hresult⟩

/-- **A number soon is past the ceiling.**  With `k` more digits than one, it takes at most
`10 - k` further ones. -/
theorem length_steps_of_le {k : Nat} (hk : k ≤ 9) (hv : (10 : Int) ^ k ≤ v ∧ v ≤ ceiling)
    (bs : Bytes) : (readDigits v bs).steps.length ≤ 10 - k := by
  induction bs generalizing v k with
  | nil => exact Nat.zero_le _
  | cons b bs ih =>
      have hpow : (0 : Int) < 10 ^ k := Int.pow_pos (by decide)
      cases hb : digit? b with
      | none =>
          rw [readDigits_of_none hb]
          exact Nat.zero_le _
      | some digit =>
          rw [readDigits_of_digit (by omega) hb]
          split
          · rw [List.length_singleton]
            omega
          · next hlow =>
            have hnext : (10 : Int) ^ (k + 1) ≤ v * 10 + digit := by
              rw [Int.pow_succ]
              omega
            have hmore : k + 1 ≤ 9 := by
              by_contra htop
              obtain rfl : k = 9 := by omega
              unfold ceiling at hlow
              omega
            have hlater := ih hmore ⟨hnext, by omega⟩
            rw [List.length_cons]
            omega

/-- After the zeros at the front at most eleven digits are read. -/
theorem length_steps_le (bs : Bytes) :
    (readDigits 0 bs).steps.length ≤ 11 + (bs.takeWhile (· = 0x30)).length := by
  have hzero : (0 : Int) ≤ 0 ∧ (0 : Int) ≤ ceiling := by decide
  induction bs with
  | nil => exact Nat.zero_le _
  | cons b bs ih =>
      cases hb : digit? b with
      | none =>
          rw [readDigits_of_none hb]
          exact Nat.zero_le _
      | some digit =>
          have hdigit := digit?_le hb
          rw [readDigits_of_digit hzero hb]
          split
          · rw [List.length_singleton]
            omega
          · by_cases hnone : digit = 0
            · subst hnone
              have hb' := digit?_eq_zero_iff.mp hb
              simp only [hb', List.takeWhile_cons, decide_true, if_true, List.length_cons]
              have hsame : (0 : Int) * 10 + (0 : Nat) = 0 := rfl
              rw [hsame]
              omega
            · have hlater := length_steps_of_le (v := 0 * 10 + digit) (k := 0) (by decide)
                (by rw [Int.pow_zero]; unfold ceiling; omega) bs
              rw [List.length_cons]
              omega

end Digits

section Characters

/-- A character of one byte below 0x80 is first just when its byte is. -/
theorem head?_encode_eq_iff {a : Char} {b : UInt8} (ha : String.utf8EncodeChar a = [b])
    (hb : b.toNat ≤ 0x7F) (t : Text) : t.encode.head? = some b ↔ t.head? = some a := by
  cases t with
  | nil => simp
  | cons c t =>
      constructor
      · intro h
        rw [Text.encode_cons, List.head?_append_of_ne_nil _ (Utf8.encodeChar_ne_nil c)] at h
        rw [Utf8.eq_of_mem_encodeChar ha hb (List.mem_of_mem_head? h), List.head?_cons]
      · intro h
        obtain rfl := Option.some.inj h
        rw [Text.encode_cons, ha, List.singleton_append, List.head?_cons]

theorem hasMinus_iff (t : Text) : hasMinus t = true ↔ t.head? = some '-' := by
  rw [hasMinus, decide_eq_true_iff]
  exact head?_encode_eq_iff (by decide) (by decide) t

theorem hasSign_iff (t : Text) :
    hasSign t = true ↔ t.head? = some '-' ∨ t.head? = some '+' := by
  rw [hasSign, Bool.or_eq_true, hasMinus_iff, decide_eq_true_iff]
  exact or_congr_right (head?_encode_eq_iff (by decide) (by decide) t)

/-- **A sign is cut off where a character ends.** -/
theorem fromByte?_one_of_hasSign {t : Text} (h : hasSign t = true) :
    t.fromByte? 1 = some t.tail := by
  rcases (hasSign_iff t).mp h with hminus | hplus
  · obtain ⟨rest, rfl⟩ := List.head?_eq_some_iff.mp hminus
    exact Text.fromByte?_zero rest
  · obtain ⟨rest, rfl⟩ := List.head?_eq_some_iff.mp hplus
    exact Text.fromByte?_zero rest

/-- The sign is the same, read as a byte or as a character. -/
theorem sign_eq (t : Text) :
    unsigned? t = some (sign t).2 ∧ hasMinus t = (sign t).1 := by
  by_cases h : hasSign t = true
  · rw [unsigned?, if_pos h, fromByte?_one_of_hasSign h]
    rcases (hasSign_iff t).mp h with hminus | hplus
    · obtain ⟨rest, rfl⟩ := List.head?_eq_some_iff.mp hminus
      exact ⟨rfl, rfl⟩
    · obtain ⟨rest, rfl⟩ := List.head?_eq_some_iff.mp hplus
      exact ⟨rfl, rfl⟩
  · have hnone := mt (hasSign_iff t).mpr h
    have hself : sign t = (false, t) := by
      unfold sign
      split
      · exact absurd (.inl rfl) hnone
      · exact absurd (.inr rfl) hnone
      · rfl
    rw [unsigned?, if_neg h, hself, Bool.eq_false_iff]
    exact ⟨rfl, fun hminus => hnone (.inl ((hasMinus_iff t).mp hminus))⟩

theorem digit_digitValue {c : Char} (h : c.isDigit = true) :
    digitValue c < 10 ∧ digit (digitValue c) = c := by
  have hbounds : 0x30 ≤ c.toNat ∧ c.toNat ≤ 0x39 := by
    simpa [Char.isDigit, UInt32.le_iff_toNat_le] using h
  unfold digitValue digit
  refine ⟨by omega, ?_⟩
  rw [Nat.add_sub_of_le hbounds.1, Char.ofNat_toNat]

theorem encodeChar_digit : ∀ n, n < 10 →
    String.utf8EncodeChar (digit n) = [UInt8.ofNat (0x30 + n)] ∧
      digit? (UInt8.ofNat (0x30 + n)) = some n := by
  decide

/-- A digit is one byte, and that byte is the digit. -/
theorem digit?_of_isDigit {c : Char} (h : c.isDigit = true) :
    ∃ b, String.utf8EncodeChar c = [b] ∧ digit? b = some (digitValue c) := by
  obtain ⟨hlt, hc⟩ := digit_digitValue h
  obtain ⟨hbyte, hdigit⟩ := encodeChar_digit (digitValue c) hlt
  rw [hc] at hbyte
  exact ⟨_, hbyte, hdigit⟩

/-- No other character has a byte that is a digit. -/
theorem isDigit_of_digit? {c : Char} {b : UInt8} {n : Nat} (hb : b ∈ String.utf8EncodeChar c)
    (h : digit? b = some n) : c.isDigit = true := by
  have hn := digit?_le h
  unfold digit? at h
  split at h
  · next hrange =>
    have hn' : b.toNat - 0x30 = n := Option.some.inj h
    have hbyte : UInt8.ofNat (0x30 + n) = b := by
      rw [← hn', Nat.add_sub_of_le hrange.1, UInt8.ofNat_toNat]
    have hdigit := (encodeChar_digit n (by omega)).1
    rw [hbyte] at hdigit
    rw [Utf8.eq_of_mem_encodeChar hdigit (by omega) hb]
    exact isDigit_digit n (by omega)
  · cases h

/-- One character, read behind a number that is not past the ceiling. -/
theorem readDigits_encode_cons {v : Nat} (hv : v ≤ ceiling) (c : Char) (t : Text) :
    readDigits v (Text.encode (c :: t)) =
      if c.isDigit then
        if v * 10 + digitValue c > ceiling then
          ⟨[(v, digitValue c)], some (v * 10 + digitValue c : Nat)⟩
        else
          ⟨(v, digitValue c) :: (readDigits (v * 10 + digitValue c : Nat) t.encode).steps,
            (readDigits (v * 10 + digitValue c : Nat) t.encode).result⟩
      else ⟨[], some v⟩ := by
  rw [Text.encode_cons]
  by_cases hc : c.isDigit = true
  · obtain ⟨b, hb, hdigit⟩ := digit?_of_isDigit hc
    have hnext : (v : Int) * 10 + digitValue c = (v * 10 + digitValue c : Nat) := by omega
    rw [hb, List.singleton_append, readDigits_of_digit (by omega) hdigit, if_pos hc, hnext]
    simp only [gt_iff_lt, Int.ofNat_lt]
  · rw [if_neg hc]
    cases hbytes : String.utf8EncodeChar c with
    | nil => exact absurd hbytes (Utf8.encodeChar_ne_nil c)
    | cons b bs =>
        have hnone : digit? b = none := by
          cases hb : digit? b with
          | none => rfl
          | some n => exact absurd (isDigit_of_digit? (by simp [hbytes]) hb) hc
        rw [List.cons_append, readDigits_of_none hnone]

/-- **The bytes come to the number that the characters come to.** -/
theorem result_readDigits {v : Nat} (hv : v ≤ ceiling) (t : Text) :
    (readDigits v t.encode).result = some (accumulate v t : Int) := by
  induction t generalizing v with
  | nil => rfl
  | cons c t ih =>
      rw [readDigits_encode_cons hv, accumulate]
      by_cases hc : c.isDigit = true
      · rw [if_pos hc, if_pos hc]
        by_cases hpast : v * 10 + digitValue c > ceiling
        · rw [if_pos hpast, if_pos hpast]
        · rw [if_neg hpast, if_neg hpast]
          exact ih (by omega)
      · rw [if_neg hc, if_neg hc]

/-- **The digits read are the first characters**, one after the other, and before each of them the
register holds the number of those in front of it. -/
theorem getElem?_steps {v : Nat} (hv : v ≤ ceiling) (t : Text) {i : Nat} {s : Int × Nat}
    (h : (readDigits v t.encode).steps[i]? = some s) :
    ∃ c, t[i]? = some c ∧ c.isDigit = true ∧
      s = ((accumulate v (t.take i) : Int), digitValue c) := by
  induction t generalizing v i with
  | nil => cases h
  | cons c t ih =>
      rw [readDigits_encode_cons hv] at h
      by_cases hc : c.isDigit = true
      · rw [if_pos hc] at h
        by_cases hpast : v * 10 + digitValue c > ceiling
        · rw [if_pos hpast] at h
          cases i with
          | zero => exact ⟨c, rfl, hc, (Option.some.inj h).symm⟩
          | succ i => cases h
        · rw [if_neg hpast] at h
          cases i with
          | zero => exact ⟨c, rfl, hc, (Option.some.inj h).symm⟩
          | succ i =>
              obtain ⟨d, hd, hdigit, hs⟩ := ih (Nat.le_of_not_lt hpast) h
              refine ⟨d, hd, hdigit, ?_⟩
              rw [hs, List.take_succ_cons, accumulate, if_pos hc, if_neg hpast]
      · rw [if_neg hc] at h
        cases h

end Characters

/-- What does not fit 32 bits becomes the bound on the side of its sign. -/
theorem narrow_eq {v : Int} (hv : 0 ≤ v) (minus : Bool) :
    (if smallest ≤ (if minus then -v else v) ∧ (if minus then -v else v) ≤ largest then
      (if minus then -v else v) else if minus then smallest else largest) =
      clamp (if minus then -v else v) := by
  unfold clamp smallest largest
  cases minus
  · simp only [Bool.false_eq_true, if_false]
    split <;> split <;> omega
  · simp only [if_true]
    split <;> split <;> omega

/-- **No number on the way is a fault.**  Whatever the operand is, and however long its row of
digits: a sign is one byte, behind which a character starts.  The digits after it are read one
after the other; before each of them the register holds the number so far, which is from zero to
the ceiling, so it holds that number with the digit behind it.  It holds the negative of the last
number, and no more than eleven digits are read after the zeros at the front.  What comes of it
is the number that the operand stands for. -/
theorem register_law (t : Text) :
    let signed := t.dropWhile isBlank
    (hasSign signed = true → Text.fromByte? 1 signed = some signed.tail) ∧
    ∃ unsigned v, unsigned? signed = some unsigned ∧
      (readDigits 0 unsigned.encode).result = some v ∧
      (∀ i s, (readDigits 0 unsigned.encode).steps[i]? = some s →
        ∃ c, unsigned[i]? = some c ∧ c.isDigit = true ∧
          s = ((accumulate 0 (unsigned.take i) : Int), digitValue c)) ∧
      (∀ s ∈ (readDigits 0 unsigned.encode).steps,
        (0 ≤ s.1 ∧ s.1 ≤ 2 ^ 31) ∧ s.1 * 10 + s.2 < 2 ^ 63 ∧
          shift? s.1 s.2 = some (s.1 * 10 + s.2)) ∧
      register? (-v) = some (-v) ∧
      (readDigits 0 unsigned.encode).steps.length ≤
        11 + (unsigned.encode.takeWhile (· = 0x30)).length ∧
      registerInt? t = some (leadingInt t) := by
  intro signed
  obtain ⟨hunsigned, hminus⟩ := sign_eq signed
  have hzero : (0 : Int) ≤ 0 ∧ (0 : Int) ≤ ceiling := by decide
  obtain ⟨hsteps, v, hv, hlow, hhigh⟩ := readDigits_spec hzero (sign signed).2.encode
  have hheld : register? (-v) = some (-v) := by
    unfold ceiling at hhigh
    exact register?_eq (by omega)
  have hsame : v = accumulate 0 (sign signed).2 := by
    have hread := result_readDigits (v := 0) (Nat.zero_le _) (sign signed).2
    exact Option.some.inj (hv.symm.trans hread)
  refine ⟨fromByte?_one_of_hasSign, (sign signed).2, v, hunsigned, hv,
    fun _ _ => getElem?_steps (Nat.zero_le _) _, ?_, hheld, length_steps_le _, ?_⟩
  · intro s hs
    obtain ⟨hbounds, hdigit⟩ := hsteps s hs
    have hroom := shift?_eq hbounds hdigit
    unfold ceiling at hbounds
    exact ⟨by omega, by omega, hroom⟩
  · have hmagnitude : (if (sign signed).1 = true then register? (-v) else some v) =
        some (if (sign signed).1 = true then -v else v) := by
      rw [hheld]
      split <;> rfl
    calc registerInt? t
        = (if (sign signed).1 = true then register? (-v) else some v).map (fun n =>
            if smallest ≤ n ∧ n ≤ largest then n
            else if (sign signed).1 = true then smallest else largest) := by
          rw [registerInt?, hunsigned, Option.bind_some, hv, Option.bind_some, hminus]
      _ = some (clamp (if (sign signed).1 = true then -v else v)) := by
          rw [hmagnitude, Option.map_some, narrow_eq hlow]
      _ = some (leadingInt t) := by rw [hsame, leadingInt]

/-- Three zeros and eleven digits are read, the last of them behind the ceiling itself. -/
theorem register_law_widest :
    let operand := "\t-000214748364809".toList
    let reading := readDigits 0 (Text.encode "000214748364809".toList)
    operand.dropWhile isBlank = '-' :: "000214748364809".toList ∧
      reading.steps.length = 11 + 3 ∧ reading.steps.getLast? = some (2 ^ 31, 0) ∧
      shift? (2 ^ 31) 0 = some 21474836480 ∧ registerInt? operand = some (-2 ^ 31) := by
  intro operand reading
  have hsigned : operand.dropWhile isBlank = '-' :: "000214748364809".toList := by decide
  obtain ⟨_, unsigned, v, hunsigned, _, _, hsteps, _, _, hnumber⟩ := register_law operand
  have hvalue : leadingInt operand = -2 ^ 31 := by decide
  have hcut : unsigned = "000214748364809".toList := by
    rw [hsigned] at hunsigned
    exact Option.some.inj (hunsigned.symm.trans (by decide))
  subst hcut
  have hlast : reading.steps.getLast? = some (2 ^ 31, 0) := by decide
  refine ⟨hsigned, by decide, hlast, ?_, by rw [hnumber, hvalue]⟩
  exact (hsteps _ (List.mem_of_getLast? hlast)).2.2

end Offspring.Operand
