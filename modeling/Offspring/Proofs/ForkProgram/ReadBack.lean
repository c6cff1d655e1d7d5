import Offspring.Proofs.ForkProgram.Run
import Offspring.Proofs.Text.LeadingInt
import Offspring.Proofs.Text.Lossy
/-!
# Printed numbers are operands

The number in the line of a process is the one that its operand stands for, written in decimal
(`stdout_run`, `roleLine_side`).  A number that is written stands for itself as an operand
(`Operand.leadingInt_written`), so the line is printed again by a process whose operand is taken
from it.
-/

namespace Offspring.ForkProgram

variable {argv : List Bytes} {operand : Bytes} {script : Script} {pid : Pid}

/-- What a process prints, on either side of its fork. -/
theorem stdout_run (hone : argv.tail = [operand]) (hfork : script.nextFork.1 = .returned pid) :
    (run argv script).stdout =
      roleLine (if pid = 0 then .child else .main) (Operand.leadingInt (Utf8.lossy operand)) := by
  by_cases hpid : pid = 0
  · subst hpid
    rw [run_child hone hfork]
    rfl
  · obtain ⟨_, _, _, _, hrun⟩ := run_parent hone hfork hpid
    rw [hrun, if_neg hpid]

/-- The line of a process, by the reply to its fork. -/
theorem roleLine_side (pid : Pid) (i : Int) :
    roleLine (if pid = 0 then .child else .main) i =
      (if pid = 0 then "Child Process" else "Main Process").toList ++ ": sleeping ".toList ++
        Decimal.ofInt i ++ " seconds\n".toList := by
  by_cases hpid : pid = 0
  · rw [if_pos hpid, if_pos hpid]
    rfl
  · rw [if_neg hpid, if_neg hpid]
    rfl

/-- **Printed numbers are read back.**  Every number of 32 bits, the smallest and the largest
with it, is what its decimal digits stand for, whatever blanks come first, with a minus sign
if it is negative and with a plus sign or none if not, after any zeros, and whatever text comes
behind it that does not go on with a digit.  So a process that takes the number from the line of
another for its operand prints that number again, whichever side of its fork either is on. -/
theorem printed_number_law :
    (∀ i : Int, -2 ^ 31 ≤ i → i ≤ 2 ^ 31 - 1 → ∀ (blanks sign : Text) (zeros : Nat) (rest : Text),
      (∀ c ∈ blanks, c ∈ [' ', '\t', '\n', '\x0b', '\x0c', '\r']) →
      (if i < 0 then sign = ['-'] else sign = [] ∨ sign = ['+']) →
      (∀ c ∈ rest.head?, c.isDigit = false) →
      Operand.leadingInt (blanks ++ sign ++ List.replicate zeros '0' ++
        Nat.toDigits 10 i.natAbs ++ rest) = i) ∧
    ∀ (argv : List Bytes) (operand : Bytes) (script : Script) (pid : Pid),
      argv.tail = [operand] → script.nextFork.1 = .returned pid →
      let i := Operand.leadingInt (Utf8.lossy operand)
      let number : Text := (if i < 0 then ['-'] else []) ++ Nat.toDigits 10 i.natAbs
      let line (pid : Pid) := (if pid = 0 then "Child Process" else "Main Process").toList ++
        ": sleeping ".toList ++ number ++ " seconds\n".toList
      (run argv script).stdout = line pid ∧
      ∀ (argv' : List Bytes) (script' : Script) (pid' : Pid),
        argv'.tail = [number.encode] → script'.nextFork.1 = .returned pid' →
        (run argv' script').stdout = line pid' := by
  refine ⟨?_, ?_⟩
  · intro i hlow hhigh blanks sign zeros rest hblanks hsign hrest
    have hbounds : Operand.smallest ≤ i ∧ i ≤ Operand.largest := by
      unfold Operand.smallest Operand.largest
      omega
    have hskip : ∀ c ∈ blanks, Operand.isBlank c = true := fun c hc =>
      (Operand.isBlank_iff c).mpr (hblanks c hc)
    have hread := Operand.leadingInt_written hbounds hskip hsign zeros hrest
    rw [Decimal.ofNat_eq_toDigits] at hread
    simpa only [List.append_assoc] using hread
  · intro argv operand script pid hone hfork i number line
    have hnumber : number = Decimal.ofInt i := (Decimal.ofInt_eq_toDigits i).symm
    have hline : ∀ pid : Pid, roleLine (if pid = 0 then .child else .main) i = line pid := by
      intro pid
      rw [roleLine_side, ← hnumber]
    refine ⟨(stdout_run hone hfork).trans (hline pid), ?_⟩
    intro argv' script' pid' hagain hfork'
    have hsame : Operand.leadingInt number = i := by
      rw [hnumber]
      exact Operand.leadingInt_ofInt (Operand.leadingInt_bounds (Utf8.lossy operand))
    rw [stdout_run hagain hfork', Utf8.lossy_encode, hsame]
    exact hline pid'

/-- The smallest number, between blanks and zeros on one side and a letter on the other, and the
line that shows it. -/
theorem printed_number_smallest :
    let operand : Text := "\t -0002147483648s".toList
    let argv : List Bytes := [[0x66], operand.encode]
    let argv' : List Bytes := [[0x66], Text.encode "-2147483648".toList]
    Operand.leadingInt operand = -2147483648 ∧
    (run argv ⟨[.returned 7], [], []⟩).stdout =
      "Main Process: sleeping -2147483648 seconds\n".toList ∧
    (run argv' ⟨[.returned 0], [], []⟩).stdout =
      "Child Process: sleeping -2147483648 seconds\n".toList := by
  intro operand argv argv'
  obtain ⟨hread, hprint⟩ := printed_number_law
  have hparts : operand = ['\t', ' '] ++ ['-'] ++ List.replicate 3 '0' ++
      Nat.toDigits 10 (-2147483648 : Int).natAbs ++ ['s'] := by decide +kernel
  have hblanks : ∀ c ∈ ['\t', ' '], c ∈ [' ', '\t', '\n', '\x0b', '\x0c', '\r'] :=
    List.forall_mem_cons.mpr ⟨by decide, List.forall_mem_singleton.mpr (by decide)⟩
  have hrest : ∀ c ∈ ['s'].head?, c.isDigit = false := by
    intro c hc
    cases hc
    rfl
  have hnumber : Operand.leadingInt operand = -2147483648 := by
    rw [hparts]
    exact hread (-2147483648) (by decide) (by decide) ['\t', ' '] ['-'] 3 ['s'] hblanks
      (by decide) hrest
  obtain ⟨hfirst, hagain⟩ := hprint argv _ ⟨[.returned 7], [], []⟩ 7 rfl rfl
  rw [Utf8.lossy_encode, hnumber] at hfirst hagain
  have hnext := hagain argv' ⟨[.returned 0], [], []⟩ 0 (by decide +kernel) rfl
  exact ⟨hnumber, hfirst.trans (by decide +kernel), hnext.trans (by decide +kernel)⟩

end Offspring.ForkProgram
