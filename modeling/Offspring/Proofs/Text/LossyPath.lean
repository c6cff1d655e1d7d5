import Offspring.Proofs.Text.Octets
import Offspring.Proofs.Text.Subparts
/-!
# Paths that are read from any bytes

A byte below 0x80 belongs to no character but its own, so it breaks off any character that is
open (`State.Reached.refuse_of_ascii`) and what is read of some bytes falls apart at each of
them (`lossyFrom_append_ascii`).  Hence a path that is read as text has the pieces of its bytes,
each read by itself (`pieces_lossy`), and it has the file name of its bytes
(`fileName?_lossy`): reading makes no slash, and no piece that is empty or all dots unless its
bytes are.
-/

namespace Offspring

namespace Utf8

/-- A byte below 0x80 goes on with no character. -/
theorem State.Reached.refuse_of_ascii {held : Bytes} {value : Nat} {next : Span}
    {later : List Span} (hq : (State.inside held value next later).Reached) {b : UInt8}
    (hb : b.toNat ≤ 0x7F) : (State.inside held value next later).step b = .refuse := by
  have halone : ∀ (c : Char) (missing : Bytes),
      String.utf8EncodeChar c ≠ (held ++ [b]) ++ missing := by
    intro c missing hc
    have hmem : b ∈ String.utf8EncodeChar c := by simp [hc]
    have hlength := congrArg List.length hc
    have hheld := List.length_pos_iff.mpr hq.held_inside.1
    rw [encodeChar_of_mem hb hmem] at hlength
    simp only [List.length_append, List.length_singleton] at hlength
    omega
  cases hstep : (State.inside held value next later).step b with
  | into q' =>
      have hheld := State.held_step hstep
      cases q' with
      | start => exact absurd hheld.symm (List.append_ne_nil_of_right_ne_nil _ (by simp))
      | inside held' value' next' later' =>
          obtain ⟨_, missing, c, _, hc⟩ := (hq.step hstep).held_inside
          rw [show held' = held ++ [b] from hheld] at hc
          exact absurd hc (halone c missing)
  | char c =>
      have hc := (hq.sound.spells hstep).encodeChar_eq
      exact absurd (hc.trans (List.append_nil _).symm) (halone c [])
  | refuse => rfl

/-- **What is read falls apart at every byte below 0x80.** -/
theorem lossyFrom_append_ascii {b : UInt8} {c : Char} (hb : b.toNat ≤ 0x7F)
    (hc : opens b = .char c) (back : Bytes) (q : State) (front : Bytes) (hq : q.Reached) :
    lossyFrom q (front ++ b :: back) = lossyFrom q front ++ c :: lossyFrom .start back := by
  have hafter : lossyFrom .start (b :: back) = c :: lossyFrom .start back :=
    lossyFrom_cons_of_char (q := .start) back hc
  induction q, front using reading_induction with
  | nil q =>
      cases q with
      | start => exact hafter
      | inside held value next later =>
          rw [List.nil_append, lossyFrom_inside_of_refuse back (hq.refuse_of_ascii hb), hafter]
          rfl
  | into q a front q' ha ih =>
      rw [List.cons_append, lossyFrom_cons_of_into _ ha, lossyFrom_cons_of_into _ ha,
        ih (hq.step ha)]
  | char q a front d ha ih =>
      rw [List.cons_append, lossyFrom_cons_of_char _ ha, lossyFrom_cons_of_char _ ha,
        ih reached_start, List.cons_append]
  | refuse a front ha ih =>
      rw [List.cons_append, lossyFrom_start_of_refuse _ ha, lossyFrom_start_of_refuse _ ha,
        ih reached_start, List.cons_append]
  | afresh held value next later a front ha ih =>
      have hagain := ih reached_start
      rw [List.cons_append] at hagain ⊢
      rw [lossyFrom_inside_of_refuse _ ha, lossyFrom_inside_of_refuse _ ha, hagain,
        List.cons_append]

theorem lossy_append_slash (front back : Bytes) :
    lossy (front ++ 0x2F :: back) = lossy front ++ '/' :: lossy back :=
  lossyFrom_append_ascii (by decide) (by decide) back .start front reached_start

theorem slash_mem_of_mem_lossy {bs : Bytes} (h : '/' ∈ lossy bs) : (0x2F : UInt8) ∈ bs :=
  mem_of_mem_lossy (by decide) h

end Utf8

open Utf8

/-- **The pieces of a path are read one by one.** -/
theorem pieces_lossy (path : Bytes) :
    pieces '/' (lossy path) = (pieces 0x2F path).map lossy := by
  induction hn : path.length using Nat.strongRecOn generalizing path with
  | ind n ih =>
      by_cases hslash : (0x2F : UInt8) ∈ path
      · obtain ⟨front, back, rfl⟩ := List.append_of_mem hslash
        simp only [List.length_append, List.length_cons] at hn
        rw [lossy_append_slash, pieces_append_sep, pieces_append_sep, List.map_append,
          ih front.length (by omega) front rfl, ih back.length (by omega) back rfl]
      · rw [pieces_of_notMem hslash, pieces_of_notMem (mt slash_mem_of_mem_lossy hslash)]
        rfl

/-- A piece names something read as text just when it does as bytes. -/
theorem names_lossy (p : Bytes) : textPath.names (lossy p) = bytePath.names p := by
  have hnil : lossy p = [] ↔ p = [] := lossy_eq_iff (t := []) (by decide)
  have hdot : lossy p = ['.'] ↔ p = [0x2E] := lossy_eq_iff (t := ['.']) (by decide)
  rw [Bool.eq_iff_iff]
  simp [PathSymbols.names, bytePath, textPath, hnil, hdot]

/-- **The file name of a path that is read as text** is that of its bytes. -/
theorem fileName?_lossy (path : Bytes) :
    textPath.fileName? (lossy path) = (bytePath.fileName? path).map lossy :=
  PathSymbols.fileName?_of_map (pieces_lossy path) names_lossy
    fun _ => lossy_eq_iff (t := ['.', '.']) (by decide)

end Offspring
