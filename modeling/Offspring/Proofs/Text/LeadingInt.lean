import Mathlib.Data.List.Induction
import Mathlib.Data.List.TakeWhile
import Mathlib.Data.Nat.Digits.Defs
import Offspring.Proofs.Text.Operand
/-!
# The number that an operand stands for

Reading stops at the first number past the ceiling, but no digit after it changes the
answer: what is read is the value of all the digits, or both are past the ceiling
(`accumulate_cases`), and past it everything is clamped alike (`clamp_of_past`).  So an
operand that is divided into blanks, a sign, digits and a rest stands for the clamped value
of its digits (`leadingInt_of_parts`), and a number that is written is read back
(`leadingInt_written`).  Every text is divided in this way, and `leadingInt_law` says so for
all of them.
-/

namespace Offspring

namespace Decimal

/-- More digits never make a number smaller. -/
theorem le_valueFrom (v : Nat) (t : Text) : v ≤ valueFrom v t := by
  induction t generalizing v with
  | nil => exact Nat.le_refl v
  | cons c t ih =>
      have hv : v ≤ v * 10 + digitValue c := by omega
      exact Nat.le_trans hv (ih _)

/-- The value of a row of digits is that of its digits in base ten, the last one first. -/
theorem value_eq_ofDigits (t : Text) :
    value t = Nat.ofDigits 10 (t.map digitValue).reverse := by
  induction t using List.reverseRecOn with
  | nil => rfl
  | append_singleton t c ih =>
      have hlast : value (t ++ [c]) = value t * 10 + digitValue c := valueFrom_append 0 t [c]
      rw [hlast, List.map_append, List.map_singleton, List.reverse_append,
        List.reverse_singleton, List.singleton_append, Nat.ofDigits_cons, ← ih]
      omega

end Decimal

namespace Operand

open Decimal

/-- The blanks are these six characters and no others. -/
theorem isBlank_iff (c : Char) :
    isBlank c = true ↔ c ∈ [' ', '\t', '\n', '\x0b', '\x0c', '\r'] := by
  simp [isBlank, or_assoc]

/-- A digit is neither a blank nor a sign. -/
theorem isDigit_apart {c : Char} (h : c.isDigit = true) :
    isBlank c = false ∧ c ≠ '+' ∧ c ≠ '-' := by
  refine ⟨?_, ?_, ?_⟩
  · rw [Bool.eq_false_iff]
    intro hblank
    simp only [isBlank_iff, List.mem_cons, List.not_mem_nil, or_false] at hblank
    rcases hblank with rfl | rfl | rfl | rfl | rfl | rfl <;> revert h <;> decide
  · rintro rfl
    revert h
    decide
  · rintro rfl
    revert h
    decide

theorem clamp_eq (v : Int) : clamp v = max (-2 ^ 31) (min (2 ^ 31 - 1) v) := by
  unfold clamp smallest largest
  omega

/-- Past the ceiling all numbers are clamped alike, on either side of zero. -/
theorem clamp_of_past {m n : Nat} (hm : ceiling < m) (hn : ceiling < n) (minus : Bool) :
    clamp (if minus then -(m : Int) else m) = clamp (if minus then -(n : Int) else n) := by
  unfold ceiling at hm hn
  unfold clamp smallest largest
  cases minus
  · simp only [Bool.false_eq_true, if_false]
    omega
  · simp only [if_true]
    omega

variable {blanks sign digits rest : Text}

/-- **No digit past the ceiling counts.**  What is read of a row of digits is its value, or
both are past the ceiling. -/
theorem accumulate_cases (hdigits : ∀ c ∈ digits, c.isDigit = true)
    (hrest : ∀ c ∈ rest.head?, c.isDigit = false) (v : Nat) :
    accumulate v (digits ++ rest) = valueFrom v digits ∨
      (ceiling < accumulate v (digits ++ rest) ∧ ceiling < valueFrom v digits) := by
  induction digits generalizing v with
  | nil =>
      left
      cases rest with
      | nil => rfl
      | cons c rest =>
          have hc : c.isDigit = false := hrest c rfl
          rw [List.nil_append, accumulate, hc]
          rfl
  | cons c digits ih =>
      have hc : c.isDigit = true := hdigits c List.mem_cons_self
      have htail : ∀ d ∈ digits, d.isDigit = true := fun d hd =>
        hdigits d (List.mem_cons_of_mem c hd)
      rw [List.cons_append, accumulate, if_pos hc]
      by_cases hpast : v * 10 + digitValue c > ceiling
      · right
        rw [if_pos hpast]
        exact ⟨hpast, Nat.lt_of_lt_of_le hpast (le_valueFrom _ digits)⟩
      · rw [if_neg hpast]
        exact ih htail (v * 10 + digitValue c)

/-- A sign is taken off the front, and there is none where none begins. -/
theorem sign_append (hsign : sign = [] ∨ sign = ['+'] ∨ sign = ['-'])
    (hopen : sign = [] → ∀ c ∈ rest.head?, c ≠ '+' ∧ c ≠ '-') :
    Operand.sign (sign ++ rest) = (decide (sign = ['-']), rest) := by
  rcases hsign with rfl | rfl | rfl
  · cases rest with
    | nil => rfl
    | cons c rest =>
        obtain ⟨hplus, hminus⟩ := hopen rfl c rfl
        unfold Operand.sign
        split
        · next heq => exact absurd (List.cons.inj heq).1 hminus
        · next heq => exact absurd (List.cons.inj heq).1 hplus
        · rfl
  · rfl
  · rfl

/-- **An operand in four parts** stands for the clamped value of its digits. -/
theorem leadingInt_of_parts (hblanks : ∀ c ∈ blanks, isBlank c = true)
    (hsign : sign = [] ∨ sign = ['+'] ∨ sign = ['-'])
    (hdigits : ∀ c ∈ digits, c.isDigit = true)
    (hrest : ∀ c ∈ rest.head?, c.isDigit = false)
    (hopen : sign = [] → digits = [] → ∀ c ∈ rest.head?, isBlank c = false ∧ c ≠ '+' ∧ c ≠ '-') :
    leadingInt (blanks ++ (sign ++ (digits ++ rest))) =
      clamp (if sign = ['-'] then -(value digits : Int) else value digits) := by
  -- what comes first after no sign is a digit, or else begins the rest
  have hfirst : sign = [] → ∀ c ∈ (digits ++ rest).head?,
      isBlank c = false ∧ c ≠ '+' ∧ c ≠ '-' := by
    intro hnone
    cases digits with
    | nil => exact hopen hnone rfl
    | cons d digits =>
        intro c hc
        obtain rfl : d = c := Option.some.inj hc
        exact isDigit_apart (hdigits d List.mem_cons_self)
  have hhead : ∀ c ∈ (sign ++ (digits ++ rest)).head?, ¬ isBlank c = true := by
    intro c hc
    rcases hsign with rfl | rfl | rfl
    · simpa using (hfirst rfl c hc).1
    · obtain rfl : '+' = c := Option.some.inj hc
      decide
    · obtain rfl : '-' = c := Option.some.inj hc
      decide
  have hdrop : (blanks ++ (sign ++ (digits ++ rest))).dropWhile isBlank =
      sign ++ (digits ++ rest) := by
    rw [List.dropWhile_append_of_pos hblanks]
    generalize sign ++ (digits ++ rest) = signed at hhead
    cases signed with
    | nil => rfl
    | cons c signed => exact List.dropWhile_cons_of_neg (hhead c rfl)
  have hsigned : Operand.sign (sign ++ (digits ++ rest)) =
      (decide (sign = ['-']), digits ++ rest) :=
    sign_append hsign fun hnone c hc => (hfirst hnone c hc).2
  have hread : leadingInt (blanks ++ (sign ++ (digits ++ rest))) = clamp
      (if decide (sign = ['-']) then -(accumulate 0 (digits ++ rest) : Int)
        else accumulate 0 (digits ++ rest)) := by
    simp only [leadingInt, hdrop, hsigned]
  rw [hread]
  rcases accumulate_cases hdigits hrest 0 with hsame | ⟨hpast, hvalue⟩
  · rw [hsame]
    simp only [decide_eq_true_eq]
    rfl
  · rw [clamp_of_past hpast hvalue]
    simp only [decide_eq_true_eq]
    rfl

theorem clamp_of_bounds {i : Int} (h : smallest ≤ i ∧ i ≤ largest) : clamp i = i := by
  unfold clamp
  rw [if_neg (Int.not_lt.mpr h.1), if_neg (Int.not_lt.mpr h.2)]

/-- **A number that is written is read back**, after blanks, after a sign that agrees with it
and any zeros, and with anything behind it but a digit. -/
theorem leadingInt_written {i : Int} (hi : smallest ≤ i ∧ i ≤ largest)
    (hblanks : ∀ c ∈ blanks, isBlank c = true)
    (hsign : if i < 0 then sign = ['-'] else sign = [] ∨ sign = ['+'])
    (zeros : Nat) (hrest : ∀ c ∈ rest.head?, c.isDigit = false) :
    leadingInt (blanks ++ (sign ++ ((List.replicate zeros '0' ++ ofNat i.natAbs) ++ rest))) =
      i := by
  have hdigits : ∀ c ∈ List.replicate zeros '0' ++ ofNat i.natAbs, c.isDigit = true := by
    intro c hc
    rcases List.mem_append.mp hc with hc | hc
    · rw [(List.mem_replicate.mp hc).2]
      rfl
    · exact isDigit_of_mem_ofNat hc
  have hvalue : value (List.replicate zeros '0' ++ ofNat i.natAbs) = i.natAbs := by
    rw [value_zeros_append, value_ofNat]
  have hsome : List.replicate zeros '0' ++ ofNat i.natAbs ≠ [] :=
    List.append_ne_nil_of_right_ne_nil _ (ofNat_ne_nil i.natAbs)
  have hone : sign = [] ∨ sign = ['+'] ∨ sign = ['-'] := by
    split at hsign
    · exact .inr (.inr hsign)
    · exact hsign.imp_right .inl
  have hsigned : (if sign = ['-'] then -(i.natAbs : Int) else i.natAbs) = i := by
    by_cases hneg : i < 0
    · rw [if_pos hneg] at hsign
      rw [if_pos hsign]
      omega
    · rw [if_neg hneg] at hsign
      have hplus : sign ≠ ['-'] := by
        rcases hsign with rfl | rfl <;> decide
      rw [if_neg hplus]
      omega
  rw [leadingInt_of_parts hblanks hone hdigits hrest fun _ hnone => absurd hnone hsome, hvalue,
    hsigned, clamp_of_bounds hi]

/-- The bare number is one way to write it. -/
theorem leadingInt_ofInt {i : Int} (hi : smallest ≤ i ∧ i ≤ largest) :
    leadingInt (ofInt i) = i := by
  have hsign : if i < 0 then (if i < 0 then ['-'] else []) = ['-']
      else (if i < 0 then ['-'] else []) = [] ∨ (if i < 0 then ['-'] else []) = ['+'] := by
    split
    · rfl
    · exact .inl rfl
  have hblanks : ∀ c ∈ ([] : Text), isBlank c = true := nofun
  have hrest : ∀ c ∈ ([] : Text).head?, c.isDigit = false := nofun
  have hbare := leadingInt_written hi hblanks hsign 0 hrest
  rw [ofInt_eq_toDigits, ← ofNat_eq_toDigits]
  simpa only [List.nil_append, List.append_nil, List.replicate_zero] using hbare

/-- Nothing that a run stops at belongs to the run. -/
theorem head_dropWhile (p : Char → Bool) (t : Text) :
    ∀ c ∈ (t.dropWhile p).head?, p c = false := by
  intro c hc
  have hstop := List.head?_dropWhile_not p t
  rw [Option.mem_def.mp hc] at hstop
  simpa using hstop

/-- Every text begins with one sign or with none. -/
theorem exists_sign (t : Text) :
    ∃ sign : Text, (sign = [] ∨ sign = ['+'] ∨ sign = ['-']) ∧
      t = sign ++ (if t.head? = some '-' ∨ t.head? = some '+' then t.tail else t) ∧
      (sign = ['-'] ↔ t.head? = some '-') ∧
      (sign = [] ↔ ¬ (t.head? = some '-' ∨ t.head? = some '+')) := by
  by_cases hminus : t.head? = some '-'
  · obtain ⟨rest, rfl⟩ := List.head?_eq_some_iff.mp hminus
    exact ⟨['-'], .inr (.inr rfl), by simp, by simp, by simp⟩
  by_cases hplus : t.head? = some '+'
  · obtain ⟨rest, rfl⟩ := List.head?_eq_some_iff.mp hplus
    exact ⟨['+'], .inr (.inl rfl), by simp, by simp, by simp⟩
  · refine ⟨[], .inl rfl, by simp [hminus, hplus], by simp [hminus], by simp [hminus, hplus]⟩

/-- **The number of an operand.**  Skip the blanks at its front, as many as there are, and then
one sign; the longest row of digits that follows has a value, which is zero if there are no
digits and has no bound, with any number of zeros in front.  The operand stands for that value
with its sign, or for the nearest number that fits 32 bits.  What follows the digits does not
count: anything else that does not go on with what was read may stand there. -/
theorem leadingInt_law (t : Text) :
    let signed := t.dropWhile fun c => c ∈ [' ', '\t', '\n', '\x0b', '\x0c', '\r']
    let minus := signed.head? = some '-'
    let plus := signed.head? = some '+'
    let unsigned := if minus ∨ plus then signed.tail else signed
    let digits := unsigned.takeWhile Char.isDigit
    let v : Nat := Nat.ofDigits 10 (digits.map fun c => c.toNat - '0'.toNat).reverse
    leadingInt t = max (-2 ^ 31) (min (2 ^ 31 - 1) (if minus then -(v : Int) else v)) ∧
    ∀ front, t = front ++ unsigned.dropWhile Char.isDigit → ∀ rest : Text,
      (∀ c ∈ rest.head?, c.isDigit = false) →
      (¬ (minus ∨ plus) → digits = [] → ∀ c ∈ rest.head?,
        c ∉ [' ', '\t', '\n', '\x0b', '\x0c', '\r'] ∧ c ≠ '+' ∧ c ≠ '-') →
      leadingInt (front ++ rest) = leadingInt t := by
  intro signed minus plus unsigned digits v
  have hskip : (fun c => decide (c ∈ [' ', '\t', '\n', '\x0b', '\x0c', '\r'])) = isBlank := by
    funext c
    rw [Bool.eq_iff_iff, decide_eq_true_iff, isBlank_iff]
  have hsigned : signed = t.dropWhile isBlank := congrArg (t.dropWhile ·) hskip
  obtain ⟨sign, hsign, hcut, hminus, hnone⟩ := exists_sign signed
  have hrow : unsigned = digits ++ unsigned.dropWhile Char.isDigit :=
    List.takeWhile_append_dropWhile.symm
  have hblanks : ∀ c ∈ t.takeWhile isBlank, isBlank c = true := fun c hc =>
    List.mem_takeWhile_imp hc
  have hdigits : ∀ c ∈ digits, c.isDigit = true := fun c hc => List.mem_takeWhile_imp hc
  -- the four parts of the text, the last of which may be exchanged
  have hread : ∀ rest : Text, (∀ c ∈ rest.head?, c.isDigit = false) →
      (¬ (minus ∨ plus) → digits = [] → ∀ c ∈ rest.head?,
        c ∉ [' ', '\t', '\n', '\x0b', '\x0c', '\r'] ∧ c ≠ '+' ∧ c ≠ '-') →
      leadingInt (t.takeWhile isBlank ++ (sign ++ (digits ++ rest))) =
        clamp (if sign = ['-'] then -(value digits : Int) else value digits) := by
    intro rest hrest hopen
    apply leadingInt_of_parts hblanks hsign hdigits hrest
    intro hs hd c hc
    obtain ⟨hblank, hapart⟩ := hopen (hnone.mp hs) hd c hc
    rw [← isBlank_iff, Bool.not_eq_true] at hblank
    exact ⟨hblank, hapart⟩
  have hwhole :
      t = t.takeWhile isBlank ++ (sign ++ (digits ++ unsigned.dropWhile Char.isDigit)) := by
    rw [← hrow]
    calc t = t.takeWhile isBlank ++ t.dropWhile isBlank :=
          List.takeWhile_append_dropWhile.symm
      _ = t.takeWhile isBlank ++ (sign ++ unsigned) := by rw [← hsigned, ← hcut]
  have hown : leadingInt t =
      clamp (if sign = ['-'] then -(value digits : Int) else value digits) := by
    rw [hwhole]
    apply hread
    · exact head_dropWhile Char.isDigit unsigned
    · intro hfree hd c hc
      have hall : unsigned.dropWhile Char.isDigit = signed := by
        rw [hd, List.nil_append] at hrow
        rw [← hrow]
        exact if_neg hfree
      rw [hall] at hc
      refine ⟨?_, ?_, ?_⟩
      · rw [hsigned] at hc
        rw [← isBlank_iff, head_dropWhile isBlank t c hc]
        exact Bool.false_ne_true
      · rintro rfl
        exact hfree (.inr hc)
      · rintro rfl
        exact hfree (.inl hc)
  refine ⟨?_, ?_⟩
  · have hvalue : value digits = v := value_eq_ofDigits digits
    rw [hown, clamp_eq, hvalue]
    simp only [hminus, minus]
  · intro front hfront rest hrest hopen
    have hboth : front ++ unsigned.dropWhile Char.isDigit =
        t.takeWhile isBlank ++ (sign ++ digits) ++ unsigned.dropWhile Char.isDigit := by
      rw [← hfront, List.append_assoc, List.append_assoc]
      exact hwhole
    rw [List.append_cancel_right hboth, List.append_assoc, List.append_assoc,
      hread rest hrest hopen, hown]

/-- The largest number and the first one past it, on either side of zero. -/
example : leadingInt " \t+0002147483647".toList = 2147483647 ∧
    leadingInt "2147483648".toList = 2147483647 ∧
    leadingInt "-2147483648x".toList = -2147483648 ∧
    leadingInt "-2147483649".toList = -2147483648 := by decide

end Operand

end Offspring
