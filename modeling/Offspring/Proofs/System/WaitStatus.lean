import Offspring.System.WaitStatus
/-!
# The fields of a wait status

A raw status is four fields side by side: the low seven bits, the bit of a core dump, the
second byte, and all above it.  Every number is such a row (`exists_fields`), and what a
status reports is told by its fields (`decode_raw`): the second byte tells how a process
exited or what stopped it, the low bits tell what killed it, and neither looks at the rest.
-/

namespace Offspring

/-- The known signals are those from 1 to 31. -/
theorem Report.isKnownSignal_natCast (n : Nat) :
    isKnownSignal n = decide (1 ≤ n ∧ n ≤ 31) := by
  rw [Bool.eq_iff_iff]
  simp only [isKnownSignal, Bool.and_eq_true, decide_eq_true_eq]
  omega

/-- The fields of a raw status. -/
structure StatusFields where
  /-- The low seven bits. -/
  low : Fin 128
  /-- Whether a core was dumped. -/
  core : Bool
  /-- The second byte. -/
  second : Fin 256
  /-- What is left without the two low bytes. -/
  above : Int

namespace StatusFields

/-- The status that has these fields. -/
def raw (f : StatusFields) : Int :=
  f.above * 65536 + f.second.val * 256 + (if f.core then 128 else 0) + f.low.val

/-- Every number is a status with some fields. -/
theorem exists_fields (raw : Int) : ∃ f : StatusFields, f.raw = raw := by
  have hlow : (raw % 128).toNat < 128 := by omega
  have hsecond : (raw / 256 % 256).toNat < 256 := by omega
  refine ⟨⟨⟨_, hlow⟩, decide (128 ≤ raw % 256), ⟨_, hsecond⟩, raw / 65536⟩, ?_⟩
  unfold StatusFields.raw
  by_cases hcore : 128 ≤ raw % 256
  · simp only [hcore, decide_true, if_true]
    omega
  · simp only [hcore, decide_false, Bool.false_eq_true, if_false]
    omega

variable (f : StatusFields)

theorem raw_mod : f.raw % 128 = f.low.val ∧ f.raw / 256 % 256 = f.second.val := by
  have hlow := f.low.isLt
  have hsecond := f.second.isLt
  unfold raw
  split <;> omega

/-- With all low bits set, the bit of a core dump tells a resumption from a stop. -/
theorem raw_of_low_eq (hlow : f.low.val = 127) :
    (f.raw % 256 = 127 ↔ f.core = false) ∧
      (f.raw = Report.resumption ↔ f.core = true ∧ f.second.val = 255 ∧ f.above = 0) := by
  have hsecond := f.second.isLt
  unfold raw Report.resumption
  cases f.core
  · simp only [Bool.false_eq_true, if_false, false_and, iff_false, iff_true]
    omega
  · simp only [if_true, reduceCtorEq, iff_false, true_and]
    omega

/-- **What a status reports is told by its fields.** -/
theorem decode_raw :
    Report.decode f.raw =
      if f.low.val = 0 then .ok (.exited f.second.val)
      else if f.low.val < 127 then
        if f.low.val ≤ 31 then .ok (.killed f.low.val) else .error .unknownSignal
      else if f.core = false then
        if f.second.val = 0x85 then .ok .traced
        else if 1 ≤ f.second.val ∧ f.second.val ≤ 31 then .ok (.stopped f.second.val)
        else .error .unknownSignal
      else if f.second.val = 255 ∧ f.above = 0 then .ok .continued
      else .error .noStatus := by
  obtain ⟨hlow, hsecond⟩ := f.raw_mod
  have hlt := f.low.isLt
  simp only [Report.decode, hlow, hsecond, Report.isKnownSignal_natCast, Report.tracedCall]
  by_cases hzero : f.low.val = 0
  · simp [hzero]
  by_cases hkill : f.low.val < 127
  · have hpos : 1 ≤ f.low.val := by omega
    have hcast : (f.low.val : Int) < 127 := by omega
    simp [hzero, hkill, hcast, hpos]
  · have hall : f.low.val = 127 := by omega
    obtain ⟨hstop, hresumed⟩ := f.raw_of_low_eq hall
    simp only [hall, hstop, hresumed]
    cases hcore : f.core
    · by_cases htraced : f.second.val = 0x85
      · simp [htraced]
      · have hne : ¬ (f.second.val : Int) = 133 := by omega
        simp [htraced, hne]
    · simp

end StatusFields

end Offspring
