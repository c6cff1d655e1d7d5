import Mathlib.Algebra.Group.Int.Defs
import Offspring.Text.Operand
/-!
# Reading an operand in a register

The number at the head of an operand, read as a machine has it: byte by byte, into a signed
register of 64 bits.  A number that the register cannot hold and a cut inside a character are
faults, and a reading with a fault comes to nothing.  A reading of digits keeps what the register
held before each of them.
-/

namespace Offspring.Operand

/-- A number, if the register can hold it. -/
def register? (v : Int) : Option Int :=
  if -2 ^ 63 ≤ v ∧ v < 2 ^ 63 then some v else none

/-- The digit that a byte is. -/
def digit? (b : UInt8) : Option Nat :=
  if 0x30 ≤ b.toNat ∧ b.toNat ≤ 0x39 then some (b.toNat - 0x30) else none

/-- A number with one more digit at its end. -/
def shift? (v : Int) (digit : Nat) : Option Int :=
  (register? (v * 10)).bind fun tenfold => register? (tenfold + digit)

/-- How some digits were read. -/
structure Reading where
  /-- The digits read, each behind the number before it. -/
  steps : List (Int × Nat)
  /-- The number after the last of them, unless that was a fault. -/
  result : Option Int
  deriving DecidableEq, Repr

/-- Reads digits behind a number, until they end or the number is past the ceiling. -/
def readDigits (v : Int) : Bytes → Reading
  | [] => ⟨[], some v⟩
  | b :: bs =>
    match digit? b with
    | none => ⟨[], some v⟩
    | some digit =>
      match shift? v digit with
      | none => ⟨[(v, digit)], none⟩
      | some v' =>
        if v' > ceiling then ⟨[(v, digit)], some v'⟩
        else
          let later := readDigits v' bs
          ⟨(v, digit) :: later.steps, later.result⟩

/-- Whether the first byte is a minus. -/
def hasMinus (t : Text) : Bool :=
  t.encode.head? = some 0x2D

/-- Whether the first byte is a sign. -/
def hasSign (t : Text) : Bool :=
  hasMinus t || t.encode.head? = some 0x2B

/-- What comes after the sign, which is cut off as one byte. -/
def unsigned? (t : Text) : Option Text :=
  if hasSign t then t.fromByte? 1 else some t

/-- The number at the head of an operand, unless there was a fault. -/
def registerInt? (t : Text) : Option Int :=
  let signed := t.dropWhile isBlank
  (unsigned? signed).bind fun unsigned =>
    (readDigits 0 unsigned.encode).result.bind fun v =>
      (if hasMinus signed then register? (-v) else some v).map fun v =>
        if smallest ≤ v ∧ v ≤ largest then v
        else if hasMinus signed then smallest else largest

example : registerInt? " -12x".toList = some (-12) ∧
    (readDigits (2 ^ 60) [0x30]).result = none := by
  decide

end Offspring.Operand
