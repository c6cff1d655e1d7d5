import Offspring.Proofs.Lists
import Offspring.Proofs.Text.Lossy
import Offspring.Proofs.Text.Operand
import Offspring.Proofs.Text.Path
import Offspring.Runner.Bookings
import Offspring.Runner.Launch
/-!
# Logs of different runners are different files

Two things keep logs apart.  Numbers are given in the order in which runners are asked for,
whatever becomes of them (`Bookings.Sound.run`), so two runners have different numbers.  And the
name of a log can be read again: its first part is the same for all logs of a process, the
digits of the number end at the next dot, and all that follows but the ending is the command
(`logName_inj`).

A command is a file name, so it has no slash (`slash_notMem_of_commandName?`), and the name
of the log is the last piece of its path (`Runner.fileName?_logPath`).  Hence the directories
play no part: logs of different runners differ also where the runners share one.
-/

namespace Offspring

/-- The name of a log is read at the dot after the runner. -/
theorem logNameOf_inj {process runner runner' command command' : Text} (h : '.' ∉ runner)
    (h' : '.' ∉ runner')
    (hname : logNameOf process runner command = logNameOf process runner' command') :
    runner = runner' ∧ command = command' := by
  unfold logNameOf at hname
  generalize "fixture.".toList = front, ".out".toList = ending at hname
  have htail : runner ++ '.' :: (command ++ ending) = runner' ++ '.' :: (command' ++ ending) := by
    simpa only [List.append_assoc, List.append_cancel_left_eq, List.cons_append,
      List.nil_append, List.cons.injEq, true_and] using hname
  have hpieces := congrArg (pieces '.') htail
  rw [pieces_append_sep, pieces_append_sep, pieces_of_notMem h, pieces_of_notMem h'] at hpieces
  have hrunner : runner = runner' := (List.cons.inj hpieces).1
  rw [hrunner, List.append_cancel_left_eq, List.cons.injEq, List.append_cancel_right_eq]
    at htail
  exact ⟨hrunner, htail.2⟩

/-- The name of a log shows the number of its runner and its command. -/
theorem logName_inj {process i j : Nat} {command command' : Text}
    (h : logName process i command = logName process j command') :
    i = j ∧ command = command' := by
  have hdot : ∀ n, '.' ∉ Decimal.ofNat n := Decimal.notMem_ofNat (by decide)
  obtain ⟨hnumber, hcommand⟩ := logNameOf_inj (hdot i) (hdot j) h
  exact ⟨Decimal.ofNat_injective hnumber, hcommand⟩

theorem slash_notMem_logNameOf {process runner command : Text} (hp : '/' ∉ process)
    (hr : '/' ∉ runner) (hc : '/' ∉ command) : '/' ∉ logNameOf process runner command := by
  have hfront : '/' ∉ "fixture.".toList := by decide
  have hdot : '/' ∉ ['.'] := by decide
  have hending : '/' ∉ ".out".toList := by decide
  unfold logNameOf
  generalize "fixture.".toList = front, ".out".toList = ending at hfront hending ⊢
  simp only [List.mem_append, hfront, hp, hdot, hr, hc, hending, or_self, not_false_iff]

theorem slash_notMem_logName (process runner : Nat) {command : Text} (hc : '/' ∉ command) :
    '/' ∉ logName process runner command :=
  slash_notMem_logNameOf (Decimal.notMem_ofNat (by decide) process)
    (Decimal.notMem_ofNat (by decide) runner) hc

/-- A command is one piece of a path. -/
theorem slash_notMem_of_commandName? {program : Bytes} {command : Text}
    (h : commandName? program = some command) : '/' ∉ command := by
  obtain ⟨name, hname, rfl⟩ := Option.map_eq_some_iff.mp h
  intro hslash
  have hbyte : (0x2F : UInt8) ∈ name := Utf8.mem_of_mem_lossy (by decide) hslash
  exact (PathSymbols.mem_of_fileName? hname).1 hbyte

/-- The name of a log is the file name of its path. -/
theorem Runner.fileName?_logPath (r : Runner) (process : Nat) {command : Text}
    (h : '/' ∉ command) :
    textPath.fileName? (r.logPath process command) = some (logName process r.id command) := by
  have hhead : (logName process r.id command).head? = some 'f' := rfl
  obtain ⟨hnames, hup⟩ := PathSymbols.names_of_head? (m := textPath) (by decide) hhead
  exact PathSymbols.fileName?_push (slash_notMem_logName process r.id h) hnames hup r.dir

/-- The log of a program has a name of its own: it shows the number of the runner and the
command. -/
theorem Runner.logOf?_cases {r : Runner} {process : Nat} {program : Bytes} {log : Text}
    (h : r.logOf? process program = some log) :
    ∃ command, commandName? program = some command ∧ log = r.logPath process command ∧
      textPath.fileName? log = some (logName process r.id command) := by
  obtain ⟨command, hcommand, rfl⟩ := Option.map_eq_some_iff.mp h
  exact ⟨command, hcommand, rfl,
    r.fileName?_logPath process (slash_notMem_of_commandName? hcommand)⟩

/-- Logs with one file name have one number and one command. -/
theorem Runner.inj_of_fileName?_logOf? {r r' : Runner} {process : Nat}
    {program program' : Bytes} {log log' : Text} (h : r.logOf? process program = some log)
    (h' : r'.logOf? process program' = some log')
    (hname : textPath.fileName? log = textPath.fileName? log') :
    r.id = r'.id ∧ commandName? program = commandName? program' := by
  obtain ⟨command, hcommand, -, hlog⟩ := Runner.logOf?_cases h
  obtain ⟨command', hcommand', -, hlog'⟩ := Runner.logOf?_cases h'
  rw [hlog, hlog', Option.some.injEq] at hname
  obtain ⟨hid, rfl⟩ := logName_inj hname
  exact ⟨hid, hcommand.trans hcommand'.symm⟩

/-- A start that makes a log makes it where the runner has the log of the program. -/
theorem Runner.logOf?_of_launch {α : Type} {r : Runner} {h : Host α} {program log : Text}
    {args : List Text} (hlog : (r.launch h program args).log? = some log) :
    r.logOf? h.pid program.encode = some (textPath.push r.dir log) := by
  unfold Runner.launch at hlog
  unfold Runner.logOf?
  cases hcommand : commandName? program.encode with
  | none => rw [hcommand] at hlog; cases hlog
  | some command =>
      rw [hcommand] at hlog
      have hname : logName h.pid r.id command = log := by
        dsimp only at hlog
        split at hlog
        · cases hlog
        · split at hlog <;> exact Option.some.inj hlog
      rw [← hname]
      rfl

namespace Bookings

/-- The runners that were asked for, numbered from zero on. -/
def numbered (dirs : List Text) : List Runner :=
  dirs.mapIdx fun i dir => ⟨i % Runners.numbers, dir⟩

/-- What holds after bookings for some directories: the runners are these, the next number
follows, and no booking was answered with another runner. -/
structure Sound (b : Bookings) (dirs : List Text) : Prop where
  next : b.runners.next = dirs.length % Runners.numbers
  booked : b.booked.map (·.runner) = numbered dirs
  answered : ∀ k ∈ b.booked, ∀ r, k.obtained? = some r → r = k.runner

theorem numbered_append (dirs : List Text) (dir : Text) :
    numbered (dirs ++ [dir]) = numbered dirs ++ [⟨dirs.length % Runners.numbers, dir⟩] := by
  simp [numbered, List.mapIdx_append]

theorem sound_start (files : Files) : (start files).Sound [] :=
  ⟨rfl, rfl, nofun⟩

theorem Sound.book {b : Bookings} {dirs : List Text} (h : b.Sound dirs) (s : Site)
    (pkg module test : Text) :
    (b.book s pkg module test).Sound (dirs ++ [s.workspace pkg module test]) := by
  refine ⟨?_, ?_, ?_⟩
  · simp only [Bookings.book, Runners.take, h.next, List.length_append, List.length_singleton,
      Nat.mod_add_mod]
  · simp only [Bookings.book, Runners.take, h.next, List.map_append, h.booked,
      numbered_append, List.map_cons, List.map_nil]
  · intro k hk r hr
    simp only [Bookings.book, List.mem_append, List.mem_singleton] at hk
    rcases hk with hk | rfl
    · exact h.answered k hk r hr
    · cases hr

/-- Making a directory gives the runner that has it, or none. -/
theorem prepare_runners (r : Runners) (runner : Runner) :
    (∀ r', (r.prepare runner).1 = .ok r' → r' = runner) ∧
      (r.prepare runner).2.next = r.next := by
  unfold Runners.prepare
  split
  · exact ⟨nofun, rfl⟩
  · exact ⟨fun r' hr => (Except.ok.inj hr).symm, rfl⟩

theorem Sound.prepare {b : Bookings} {dirs : List Text} (h : b.Sound dirs) (place : Nat) :
    (b.prepare place).Sound dirs := by
  unfold Bookings.prepare
  split
  · next runner hplace =>
    obtain ⟨hanswer, hnext⟩ := prepare_runners b.runners runner
    have hsame : (b.booked.set place ⟨runner, some (b.runners.prepare runner).1⟩).map (·.runner) =
        b.booked.map (·.runner) := map_set_of_eq hplace rfl
    refine ⟨hnext.trans h.next, hsame.trans h.booked, ?_⟩
    intro k hk r hr
    rcases List.mem_or_eq_of_mem_set hk with hk | rfl
    · exact h.answered k hk r hr
    · unfold Booking.obtained? at hr
      split at hr
      · next r' hr' =>
        cases hr
        exact hanswer _ (Option.some.inj hr')
      · cases hr
  · exact h

theorem Sound.step {b : Bookings} {dirs : List Text} (h : b.Sound dirs) (s : Site)
    (x : BookingStep) : (b.step s x).Sound (dirs ++ asked s [x]) := by
  cases x with
  | book pkg module test => exact h.book s pkg module test
  | prepare place =>
      rw [show asked s [.prepare place] = [] from rfl, List.append_nil]
      exact h.prepare place
  | change files =>
      rw [show asked s [.change files] = [] from rfl, List.append_nil]
      exact ⟨h.next, h.booked, h.answered⟩

/-- After any steps the runners are those that were asked for, in order. -/
theorem Sound.run {b : Bookings} {dirs : List Text} (h : b.Sound dirs) (s : Site)
    (steps : List BookingStep) : (b.run s steps).Sound (dirs ++ asked s steps) := by
  induction steps generalizing b dirs with
  | nil => simpa [asked, Bookings.run] using h
  | cons x steps ih =>
      have hlater := ih (h.step s x)
      rw [List.append_assoc, asked, asked, ← List.filterMap_append] at hlater
      exact hlater

/-- A runner that was obtained is the one that was booked. -/
theorem Sound.runner_of_obtained {b : Bookings} {dirs : List Text} (h : b.Sound dirs)
    {place : Nat} {r : Runner} (hr : b.obtained? place = some r) :
    b.booked[place]?.map (·.runner) = some r := by
  obtain ⟨k, hk, hobtained⟩ := Option.bind_eq_some_iff.mp hr
  rw [hk, Option.map_some, h.answered k (List.mem_of_getElem? hk) r hobtained]

/-- While there are numbers enough, the number of a runner is its place. -/
theorem numbered_of_lt {dirs : List Text} (hfew : dirs.length < Runners.numbers) :
    numbered dirs = dirs.mapIdx Runner.mk := by
  refine List.mapIdx_eq_mapIdx_iff.mpr fun i hi => ?_
  rw [Nat.mod_eq_of_lt (Nat.lt_trans hi hfew)]

/-- And a runner that was obtained has the number of its place. -/
theorem Sound.id_of_obtained {b : Bookings} {dirs : List Text} (h : b.Sound dirs)
    (hfew : dirs.length < Runners.numbers) {place : Nat} {r : Runner}
    (hr : b.obtained? place = some r) : r.id = place := by
  have hplace := h.runner_of_obtained hr
  rw [← List.getElem?_map, h.booked, numbered_of_lt hfew, List.getElem?_mapIdx] at hplace
  obtain ⟨dir, -, hdir⟩ := Option.map_eq_some_iff.mp hplace
  rw [← hdir]

/-- The numbers grow in the order in which runners were asked for. -/
theorem Sound.pairwise_id {b : Bookings} {dirs : List Text} (h : b.Sound dirs)
    (hfew : dirs.length < Runners.numbers) :
    (b.booked.map (·.runner.id)).Pairwise (· < ·) := by
  have hids : b.booked.map (·.runner.id) = List.range dirs.length := by
    calc b.booked.map (·.runner.id) = (b.booked.map (·.runner)).map (·.id) := by
          rw [List.map_map]; rfl
      _ = (dirs.mapIdx Runner.mk).map (·.id) := by rw [h.booked, numbered_of_lt hfew]
      _ = List.range dirs.length := by
          refine List.ext_getElem? fun i => ?_
          rw [List.getElem?_map, List.getElem?_mapIdx]
          rcases Nat.lt_or_ge i dirs.length with hi | hi
          · simp [hi]
          · simp [hi]
  rw [hids]
  exact List.pairwise_lt_range

/-- Asking for a runner is a booking whose directory is made at once. -/
theorem prepare_book (b : Bookings) (s : Site) (pkg module test : Text) :
    (b.book s pkg module test).prepare b.booked.length =
      ⟨(b.runners.create s pkg module test).2,
        b.booked ++ [⟨⟨b.runners.next, s.workspace pkg module test⟩,
          some (b.runners.create s pkg module test).1⟩]⟩ := by
  simp [Bookings.prepare, Bookings.book, Runners.create, Runners.take]

/-- Tests of one module that ask one after the other, the first at a place. -/
def inTurn (pkg module : Text) (place : Nat) : List Text → List BookingStep
  | [] => []
  | test :: tests =>
    .book pkg module test :: .prepare place :: inTurn pkg module (place + 1) tests

/-- Tests that ask one after the other get what `Runners.createAll` gives them. -/
theorem run_inTurn (b : Bookings) (s : Site) (pkg module : Text) (tests : List Text) :
    (b.run s (inTurn pkg module b.booked.length tests)).runners =
        (b.runners.createAll s pkg module tests).2 ∧
      (b.run s (inTurn pkg module b.booked.length tests)).booked.map (·.answer?) =
        b.booked.map (·.answer?) ++ (b.runners.createAll s pkg module tests).1.map some := by
  induction tests generalizing b with
  | nil => simp [inTurn, Bookings.run, Runners.createAll]
  | cons test tests ih =>
      have hrun : b.run s (inTurn pkg module b.booked.length (test :: tests)) =
          ((b.book s pkg module test).prepare b.booked.length).run s
            (inTurn pkg module (b.booked.length + 1) tests) := rfl
      obtain ⟨b', hb'⟩ : ∃ b', b' = (b.book s pkg module test).prepare b.booked.length :=
        ⟨_, rfl⟩
      rw [hrun, ← hb']
      rw [prepare_book] at hb'
      have hlength : b'.booked.length = b.booked.length + 1 := by simp [hb']
      have hrunners : b'.runners = (b.runners.create s pkg module test).2 := by rw [hb']
      have hanswers : b'.booked.map (·.answer?) =
          b.booked.map (·.answer?) ++ [some (b.runners.create s pkg module test).1] := by
        simp [hb']
      have hrest := ih b'
      rw [hlength, hrunners, hanswers, List.append_assoc] at hrest
      exact hrest

end Bookings

/-- **Logs are never shared.**  However bookings, directories and other changes of the files
follow each other, the runners booked are those asked for, numbered in that order whether or
not their directories could be made, and nobody obtains another runner than the one booked.
Two programs started through runners that were obtained have the same log exactly when it is
one runner and the programs have one name; and where they differ, their logs differ by file
name already, so a directory that runners share makes no difference. -/
theorem logs_apart (s : Site) (files : Files) (steps : List BookingStep)
    (hfew : (Bookings.asked s steps).length < Runners.numbers) :
    let b := (Bookings.start files).run s steps
    b.booked.map (·.runner) = (Bookings.asked s steps).mapIdx Runner.mk ∧
      (b.booked.map (·.runner.id)).Pairwise (· < ·) ∧
      (∀ place r, b.obtained? place = some r → b.booked[place]?.map (·.runner) = some r) ∧
      (∀ i j r r', b.obtained? i = some r → b.obtained? j = some r' →
        ∀ process program program' log log', r.logOf? process program = some log →
          r'.logOf? process program' = some log' →
            (log = log' ↔ i = j ∧ commandName? program = commandName? program') ∧
            (textPath.fileName? log = textPath.fileName? log' ↔
              i = j ∧ commandName? program = commandName? program')) ∧
      ∀ (α : Type) (r : Runner) (h : Host α) (program : Text) (args : List Text) (log : Text),
        (r.launch h program args).log? = some log →
          r.logOf? h.pid program.encode = some (textPath.push r.dir log) := by
  intro b
  have hb : b.Sound (Bookings.asked s steps) := (Bookings.sound_start files).run s steps
  refine ⟨hb.booked.trans (Bookings.numbered_of_lt hfew), hb.pairwise_id hfew,
    fun place r hr => hb.runner_of_obtained hr, ?_,
    fun α r h program args log hlog => Runner.logOf?_of_launch hlog⟩
  intro i j r r' hr hr' process program program' log log' hlog hlog'
  -- One runner and one name give one log, and logs of one file name come from these only.
  have hsame : i = j ∧ commandName? program = commandName? program' → log = log' := by
    rintro ⟨rfl, hcommand⟩
    cases Option.some.inj (hr.symm.trans hr')
    rw [Runner.logOf?, hcommand] at hlog
    exact Option.some.inj (hlog.symm.trans hlog')
  have hapart : textPath.fileName? log = textPath.fileName? log' →
      i = j ∧ commandName? program = commandName? program' := by
    intro hname
    obtain ⟨hid, hcommand⟩ := Runner.inj_of_fileName?_logOf? hlog hlog' hname
    rw [hb.id_of_obtained hfew hr, hb.id_of_obtained hfew hr'] at hid
    exact ⟨hid, hcommand⟩
  exact ⟨⟨fun h => hapart (congrArg _ h), hsame⟩, ⟨hapart, fun h => congrArg _ (hsame h)⟩⟩

/-- Two runners share a directory and start `sh` and `2.sh`, after a third asked in vain. -/
theorem logs_apart_in_one_directory :
    let s : Site := ⟨"/p".toList, "debug".toList⟩
    let steps : List BookingStep := [.book ['a'] ['m'] ['t'], .book ['a'] ['m'] ['t'],
      .book ['a'] ['m'] [Char.ofNat 0], .prepare 2, .prepare 1, .prepare 0]
    let b := (Bookings.start ⟨.empty⟩).run s steps
    let r : Runner := ⟨0, "/p/target/fixture/debug/a/m/t".toList⟩
    let r' : Runner := ⟨1, "/p/target/fixture/debug/a/m/t".toList⟩
    (Bookings.asked s steps).length < Runners.numbers ∧ b.obtained? 0 = some r ∧
      b.obtained? 1 = some r' ∧ b.obtained? 2 = none ∧
      ∃ log log', r.logOf? 7 [0x73, 0x68] = some log ∧
        r'.logOf? 7 [0x32, 0x2E, 0x73, 0x68] = some log' ∧
        textPath.fileName? log ≠ textPath.fileName? log' := by
  intro s steps b r r'
  have hfew : (Bookings.asked s steps).length < Runners.numbers := by decide
  have hr : b.obtained? 0 = some r := by decide +kernel
  have hr' : b.obtained? 1 = some r' := by decide +kernel
  have hnone : b.obtained? 2 = none := by decide +kernel
  refine ⟨hfew, hr, hr', hnone, _, _, rfl, rfl, fun hsame => ?_⟩
  have hapart := ((logs_apart s ⟨.empty⟩ steps hfew).2.2.2.1 0 1 r r' hr hr' 7
    [0x73, 0x68] [0x32, 0x2E, 0x73, 0x68] _ _ rfl rfl).2
  cases (hapart.mp hsame).1

end Offspring
