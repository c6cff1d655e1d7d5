import Offspring.ForkProgram.Run
import Offspring.Proofs.Text.LossyPath
/-!
# The name that a program goes by

What a program was called as is a path of any bytes.  Its last piece that is neither empty nor a
dot is the name that the program goes by, unless that piece goes up or there is none: then it is
all of the path.  Either way the name is that of the path as it is read (`programName_cons`), and
a name is its own name (`PathSymbols.fileName?_self`), so a program that is called by the name of
another goes by that name too (`programName_encode_programName`).  Everything that a program
says of a problem is said under its name.
-/

namespace Offspring

open Utf8

/-- A program goes by the name of the path that it reads. -/
theorem programName_cons (called : Bytes) (args : List Bytes) :
    programName (called :: args) =
      (textPath.fileName? (lossy called)).getD (lossy called) := by
  rw [fileName?_lossy, programName]
  cases bytePath.fileName? called <;> rfl

/-- And by its file name, if it has one. -/
theorem programName_of_fileName? {called name : Bytes}
    (h : bytePath.fileName? called = some name) (args : List Bytes) :
    programName (called :: args) = lossy name := by
  rw [programName, h, Option.getD_some]

/-- **A name is its own name**, and so is a path that stands in for one. -/
theorem programName_encode_programName (argv args : List Bytes) :
    programName ((programName argv).encode :: args) = programName argv := by
  cases argv with
  | nil => rfl
  | cons called rest =>
      rw [programName_cons, lossy_encode, programName_cons]
      cases hname : textPath.fileName? (lossy called) with
      | none => rw [Option.getD_none, hname, Option.getD_none]
      | some name => rw [Option.getD_some, PathSymbols.fileName?_self hname, Option.getD_some]

/-- The parts of a path: its pieces that are neither empty nor a dot. -/
theorem filter_splitOn_eq (path : Bytes) :
    ((path.splitOn 0x2F).filter fun p => p ≠ [] ∧ p ≠ [0x2E]) =
      (pieces bytePath.slash path).filter bytePath.names := by
  rw [pieces_eq_splitOn]
  refine List.filter_congr fun p _ => ?_
  rw [Bool.eq_iff_iff]
  simp [PathSymbols.names, bytePath]

/-- Nothing in front of a path that ends in a slash, and nothing behind it but slashes and dots
after slashes, changes the name. -/
theorem fileName?_among {path name dir : Bytes} (h : bytePath.fileName? path = some name)
    (hdir : dir = [] ∨ dir.getLast? = some 0x2F) {trail : List Bytes}
    (htrail : ∀ p ∈ trail, p = [0x2F] ∨ p = [0x2F, 0x2E]) :
    bytePath.fileName? (dir ++ path ++ trail.flatten) = some name := by
  rw [PathSymbols.fileName?_append_trail (m := bytePath) (by decide) _ htrail]
  rcases hdir with rfl | hlast
  · exact h
  · obtain ⟨front, rfl⟩ := List.getLast?_eq_some_iff.mp hlast
    rw [List.append_assoc, List.singleton_append]
    exact PathSymbols.fileName?_under h front

/-- What is said is said under a name: it is nothing, or it comes after the name and a colon. -/
def SaidUnder (name said : Text) : Prop :=
  said = [] ∨ name ++ ": ".toList <+: said

theorem saidUnder_line (name problem : Text) : SaidUnder name (Diagnostic.line name problem) := by
  right
  rw [Diagnostic.line, List.append_assoc]
  exact List.prefix_append _ _

theorem saidUnder_tell {α : Type} (n : Notice α) (name problem cause : Text) (out : Stdout) :
    SaidUnder name (n.tell name problem cause out).stderr := by
  cases n with
  | orExit result =>
      cases result with
      | none => exact saidUnder_line name _
      | some v => exact .inl rfl
  | _ => exact saidUnder_line name _

namespace ForkProgram

theorem saidUnder_conclude (name : Text) (child : Pid) (e : WaitEnd) :
    SaidUnder name (conclude name child e).2 := by
  cases e with
  | status s =>
      rw [conclude]
      split
      · exact .inl rfl
      · exact saidUnder_line name _
  | error e => exact saidUnder_line name _
  | _ => exact .inl rfl

/-- The fork program complains under the name that it goes by. -/
theorem saidUnder_run (argv : List Bytes) (script : Script) :
    SaidUnder (programName argv) (run argv script).stderr := by
  unfold run
  dsimp only
  split
  · unfold fromFork
    dsimp only
    split
    · exact saidUnder_line _ _
    · next h _ =>
      cases h with
      | child => exact .inl rfl
      | parent child => exact saidUnder_conclude _ child _
  · exact .inl rfl

end ForkProgram

/-- **What a program goes by.**  Split what it was called as at the slashes and drop the pieces
that are empty or a dot.  If none is left, or the last one is a double dot, it goes by all of it;
otherwise by the last piece, and then its name has no slash, is not empty and is neither dot nor
double dot, and no directory in front and no slashes or dots behind change it.  Either is read
with replacements, and what a program goes by is what it would go by if it were called so.
Whatever it says of a problem begins with that and a colon. -/
theorem program_name_law :
    programName [] = [] ∧
    (∀ (called : Bytes) (args : List Bytes),
      let parts := (called.splitOn 0x2F).filter fun p => p ≠ [] ∧ p ≠ [0x2E]
      let shown := programName (called :: args)
      (parts = [] ∨ parts.getLast? = some [0x2E, 0x2E] → shown = lossy called) ∧
      ∀ name, parts.getLast? = some name → name ≠ [0x2E, 0x2E] →
        shown = lossy name ∧ '/' ∉ shown ∧ shown ≠ [] ∧ shown ≠ ['.'] ∧ shown ≠ ['.', '.'] ∧
        ∀ (dir : Bytes) (trail : List Bytes), (dir = [] ∨ dir.getLast? = some 0x2F) →
          (∀ p ∈ trail, p = [0x2F] ∨ p = [0x2F, 0x2E]) →
          ∀ args', programName ((dir ++ called ++ trail.flatten) :: args') = shown) ∧
    (∀ argv args, programName ((programName argv).encode :: args) = programName argv) ∧
    ∀ argv,
      (∀ script, SaidUnder (programName argv) (ForkProgram.run argv script).stderr) ∧
      ∀ (α : Type) (n : Notice α) (problem cause : Text) (out : Stdout),
        SaidUnder (programName argv) (n.tell (programName argv) problem cause out).stderr := by
  refine ⟨rfl, fun called args => ?_, programName_encode_programName, fun argv =>
    ⟨ForkProgram.saidUnder_run argv, fun _ n => saidUnder_tell n _⟩⟩
  intro parts shown
  have hparts : parts = (pieces bytePath.slash called).filter bytePath.names :=
    filter_splitOn_eq called
  refine ⟨fun hnone => ?_, fun name hlast hup => ?_⟩
  · have hname : bytePath.fileName? called = none := by
      rw [PathSymbols.fileName?_eq_none_iff, ← hparts, List.getLast?_eq_none_iff]
      exact hnone
    simp only [shown, programName, hname, Option.getD_none]
  · have hname : bytePath.fileName? called = some name := by
      rw [PathSymbols.fileName?_eq_some_iff, ← hparts]
      exact ⟨hlast, hup⟩
    have hshown : shown = lossy name := programName_of_fileName? hname args
    have htext : textPath.fileName? shown = some shown := by
      have hread := fileName?_lossy called
      rw [hname, Option.map_some, ← hshown] at hread
      exact PathSymbols.fileName?_self hread
    obtain ⟨hpiece, hdots⟩ := PathSymbols.fileName?_eq_some_iff.mp htext
    have hnames : textPath.names shown = true :=
      (List.mem_filter.mp (List.mem_of_getLast? hpiece)).2
    simp only [PathSymbols.names, Bool.and_eq_true, Bool.not_eq_true', List.isEmpty_eq_false_iff,
      bne_iff_ne] at hnames
    refine ⟨hshown, (PathSymbols.mem_of_fileName? htext).1, hnames.1, hnames.2, hdots, ?_⟩
    intro dir trail hdir htrail args'
    rw [programName_of_fileName? (fileName?_among hname hdir htrail), hshown]

/-- A name that is no text, between a directory that goes up and dots. -/
theorem program_name_law_ill_formed :
    let called : Bytes := [0x61, 0x2F, 0x66, 0xFF]
    let dir : Bytes := [0x2E, 0x2E, 0x2F]
    let trail : List Bytes := [[0x2F, 0x2E], [0x2F]]
    programName [called] = ['f', replacement] ∧
    programName [dir ++ called ++ trail.flatten] = ['f', replacement] ∧
    programName [[0x66, 0xEF, 0xBF, 0xBD]] = ['f', replacement] ∧
    programName [[0xFF, 0x2F, 0x2E, 0x2E]] = [replacement, '/', '.', '.'] := by
  intro called dir trail
  obtain ⟨_, hcalled, hagain, _⟩ := program_name_law
  obtain ⟨hshown, _, _, _, _, hamong⟩ :=
    (hcalled called []).2 [0x66, 0xFF] (by decide) (by decide)
  have hread : programName [called] = ['f', replacement] := hshown.trans (by decide)
  have hsame := hamong dir trail (.inr (by decide)) (by decide) []
  have hnamed := hagain [called] []
  rw [hread] at hsame hnamed
  refine ⟨hread, hsame, ?_, ?_⟩
  · rw [← hnamed]
    exact congrArg (fun bs => programName [bs]) (by decide)
  · exact ((hcalled [0xFF, 0x2F, 0x2E, 0x2E] []).1 (.inr (by decide))).trans (by decide)

end Offspring
