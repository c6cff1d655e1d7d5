import Offspring.Proofs.Runner.Logs
import Offspring.Proofs.System.Files
import Offspring.Proofs.Text.Octets
import Offspring.Runner.Workshop
/-!
# Which failure a start reports

A start asks three things in turn: whether the path of the program names a file, whether the
log can have its name, and whether the program is found and fit to run.  As long as the directory
of the runner has room for it, a log is refused for its name only (`Runner.openLog_of_refused`,
`Runner.exists_openLog`).  So the first thing that is wrong is reported, whatever else is wrong
(`launching_law`): before the log there is nothing new, after it there is an empty log, and a
program runs only if its start was reported.
-/

namespace Offspring

theorem hasNul_iff {t : Text} : t.hasNul = true ↔ '\x00' ∈ t := by
  simp [Text.hasNul]

/-- What a program is called in the name of its log is the file name of its path. -/
theorem commandName?_encode (program : Text) :
    commandName? program.encode = textPath.fileName? program := by
  have hread : Utf8.lossy ∘ Text.encode = id := funext Utf8.lossy_encode
  rw [commandName?, fileName?_encode, Option.map_map, hread, Option.map_id, id]

/-- The parts of a path: its pieces that are neither empty nor a dot. -/
def namedParts (path : Text) : List Text :=
  (pieces '/' path).filter fun p => p ≠ [] ∧ p ≠ ['.']

theorem namedParts_eq (path : Text) :
    namedParts path = (pieces textPath.slash path).filter textPath.names := by
  refine List.filter_congr fun p _ => ?_
  rw [Bool.eq_iff_iff]
  simp [PathSymbols.names, textPath]

/-- A program has no name without a last part, or when that goes up. -/
theorem commandName?_eq_none_iff {program : Text} :
    commandName? program.encode = none ↔
      (namedParts program).getLast? = none ∨ (namedParts program).getLast? = some ['.', '.'] := by
  rw [commandName?_encode, PathSymbols.fileName?_eq_none_iff, ← namedParts_eq]
  rfl

theorem commandName?_eq_some_iff {program command : Text} :
    commandName? program.encode = some command ↔
      (namedParts program).getLast? = some command ∧ command ≠ ['.', '.'] := by
  rw [commandName?_encode, PathSymbols.fileName?_eq_some_iff, ← namedParts_eq]
  rfl

/-- If there is no NUL in the name of a program, one in its path is in a part before. -/
theorem nul_mem_iff_of_commandName? {program command : Text}
    (h : commandName? program.encode = some command) (hplain : '\x00' ∉ command) :
    '\x00' ∈ program ↔ ∃ part ∈ (namedParts program).dropLast, '\x00' ∈ part := by
  have hmem : '\x00' ∈ program ↔ ∃ part ∈ namedParts program, '\x00' ∈ part := by
    rw [namedParts_eq]
    exact PathSymbols.mem_iff_exists_names (by decide) (by decide)
  obtain ⟨front, hfront⟩ := List.getLast?_eq_some_iff.mp (commandName?_eq_some_iff.mp h).1
  rw [hmem, hfront, List.dropLast_concat]
  simp [hplain]

/-- The name of a log can be the name of a file, whatever the command. -/
theorem isName_logName (pid id : Nat) {command : Text} (h : '/' ∉ command) :
    Files.IsName (Octets.ofText (logName pid id command)) := by
  have hhead : (Octets.ofText (logName pid id command)).head? = some 'f' := rfl
  obtain ⟨hnames, hup⟩ := PathSymbols.names_of_head? (m := textPath) (by decide) hhead
  exact ⟨mt Octets.slash_mem_ofText (slash_notMem_logName pid id h), hnames, hup⟩

/-- The directory of a runner is there and has room for a log: it has no NUL and can be written
to, the name of the log is free in it or a file's, and the path is short enough if the name
is. -/
structure Runner.HasRoom (r : Runner) (files : Files) (log : Text) : Prop where
  noNul : '\x00' ∉ r.dir
  folder : files.HasRoom (Octets.ofText r.dir) (Octets.ofText log)
  fits : log.size ≤ nameLimit → Text.size (textPath.push r.dir log) ≤ pathLimit

/-- What a log is refused for, told from its name. -/
theorem logError?_eq_none_iff {name : Text} :
    logError? name = none ↔ '\x00' ∉ name ∧ name.size ≤ nameLimit := by
  unfold logError?
  rw [← hasNul_iff]
  split
  · next h => simp [h]
  · next h => simp [h]

theorem Runner.ofText_logPath (r : Runner) (pid : Nat) {command : Text} (hslash : '/' ∉ command) :
    Octets.ofText (r.logPath pid command) =
      textPath.push (Octets.ofText r.dir) (Octets.ofText (logName pid r.id command)) :=
  Octets.ofText_push (slash_notMem_logName pid r.id hslash) r.dir

theorem Runner.hasNul_logPath {r : Runner} (hdir : '\x00' ∉ r.dir) (pid : Nat) {command : Text}
    (hslash : '/' ∉ command) :
    (r.logPath pid command).hasNul = (logName pid r.id command).hasNul := by
  have hrelative : textPath.isAbsolute (logName pid r.id command) = false :=
    PathSymbols.isAbsolute_of_notMem (slash_notMem_logName pid r.id hslash)
  have hmem : '\x00' ∈ r.logPath pid command ↔
      '\x00' ∈ r.dir ∨ '\x00' ∈ logName pid r.id command :=
    PathSymbols.mem_push_iff hrelative (by decide)
  rw [Bool.eq_iff_iff, hasNul_iff, hasNul_iff, hmem, or_iff_right hdir]

section OpenLog

variable {r : Runner} {files : Files} {pid : Nat} {command : Text}

/-- **A log is refused for its name**, with the error that the name shows. -/
theorem Runner.openLog_of_refused (hslash : '/' ∉ command)
    (hroom : r.HasRoom files (logName pid r.id command)) {e : NameError}
    (hlog : logError? (logName pid r.id command) = some e) :
    r.openLog pid command files = .error e := by
  have hname := isName_logName pid r.id hslash
  have hsize := Octets.length_ofText (logName pid r.id command)
  unfold openLog
  dsimp only
  rw [hasNul_logPath hroom.noNul pid hslash, r.ofText_logPath pid hslash]
  unfold logError? at hlog
  split at hlog
  · next hnul =>
    rw [if_pos hnul, Option.some.inj hlog]
  · next hnul =>
    split at hlog
    · next hlong =>
      obtain ⟨es, hdir, -⟩ := hroom.folder
      rw [← hsize] at hlong
      rw [if_neg hnul, Files.create_of_tooLong hname hdir hlong, ← Option.some.inj hlog]
    · cases hlog

/-- **And for nothing else**: otherwise it is there and empty afterwards. -/
theorem Runner.exists_openLog (hslash : '/' ∉ command)
    (hroom : r.HasRoom files (logName pid r.id command))
    (hlog : logError? (logName pid r.id command) = none) :
    ∃ files', r.openLog pid command files = .ok files' ∧
      files'.EmptyAt (Octets.ofText (r.logPath pid command)) := by
  have hname := isName_logName pid r.id hslash
  obtain ⟨hnul, hshort⟩ := logError?_eq_none_iff.mp hlog
  have hlength : (Octets.ofText (r.logPath pid command)).length ≤ pathLimit := by
    rw [Octets.length_ofText]
    exact hroom.fits hshort
  rw [← Octets.length_ofText] at hshort
  rw [r.ofText_logPath pid hslash] at hlength ⊢
  obtain ⟨files', hcreate, hempty⟩ := Files.exists_create hname hshort hlength hroom.folder
  refine ⟨files', ?_, hempty⟩
  have hplain : ¬ (r.logPath pid command).hasNul = true := by
    rw [hasNul_logPath hroom.noNul pid hslash, hasNul_iff]
    exact hnul
  unfold openLog
  dsimp only
  rw [if_neg hplain, r.ofText_logPath pid hslash, hcreate]

end OpenLog

/-- A program with a NUL in its path or in an argument is not looked for. -/
theorem Host.start_of_nul {α : Type} {h : Host α} {program : Text} {args : List Text}
    (hnul : '\x00' ∈ program ∨ ∃ a ∈ args, '\x00' ∈ a) : h.start program args = .error .nul := by
  have hbad : (program.hasNul || args.any Text.hasNul) = true := by
    simpa [hasNul_iff] using hnul
  rw [start, if_pos hbad]

theorem Host.start_of_plain {α : Type} {h : Host α} {program : Text} {args : List Text}
    (hplain : ¬ ('\x00' ∈ program ∨ ∃ a ∈ args, '\x00' ∈ a)) :
    h.start program args = (h.find program args).mapError .file := by
  have hgood : ¬ (program.hasNul || args.any Text.hasNul) = true := by
    simpa [hasNul_iff] using hplain
  rw [start, if_neg hgood]
  cases h.find program args <;> rfl

/-- A result that is a failure with a message. -/
def Reports {α : Type} (result : Except Failure α) (message : String) : Prop :=
  ∃ f, result = .error f ∧ f.message = message.toList

/-- What is reported shows at which of the three stages a start failed. -/
theorem reports_iff {α : Type} (result : Except Failure α) :
    (Reports result "program has no file name" ↔ result = .error .noFileName) ∧
      (Reports result "open logfile failed" ↔ ∃ e, result = .error (.logfile e)) ∧
      (Reports result "spawn command failed" ↔ ∃ e, result = .error (.start e)) := by
  refine ⟨⟨?_, ?_⟩, ⟨?_, ?_⟩, ⟨?_, ?_⟩⟩
  · rintro ⟨f, rfl, hf⟩
    cases f <;> first | rfl | exact absurd hf (of_decide_eq_false rfl)
  · rintro rfl
    exact ⟨_, rfl, rfl⟩
  · rintro ⟨f, rfl, hf⟩
    cases f <;> first | exact ⟨_, rfl⟩ | exact absurd hf (of_decide_eq_false rfl)
  · rintro ⟨e, rfl⟩
    exact ⟨_, rfl, rfl⟩
  · rintro ⟨f, rfl, hf⟩
    cases f <;> first | exact ⟨_, rfl⟩ | exact absurd hf (of_decide_eq_false rfl)
  · rintro ⟨e, rfl⟩
    exact ⟨_, rfl, rfl⟩

theorem mem_logName (pid id : Nat) {command : Text} {c : Char} (h : c ∈ command) :
    c ∈ logName pid id command := by
  unfold logName logNameOf
  generalize "fixture.".toList = front, ".out".toList = ending
  simp [h]

/-- The names alone decide what a start gives. -/
theorem Runner.result_launch {α : Type} (r : Runner) (h : Host α) (program : Text)
    (args : List Text) :
    (r.launch h program args).result =
      match commandName? program.encode with
      | none => .error .noFileName
      | some command =>
        match logError? (logName h.pid r.id command) with
        | some e => .error (.logfile e)
        | none => (h.start program args).mapError .start := by
  unfold launch
  cases commandName? program.encode with
  | none => rfl
  | some command =>
      dsimp only
      cases logError? (logName h.pid r.id command) with
      | some e => rfl
      | none => cases h.start program args <;> rfl

namespace Workshop

variable {α : Type} {w : Workshop α} {r : Runner} {pid : Nat}
  {find : Files → Text → List Text → Except FileError α} {program command : Text}
  {args : List Text}

theorem launch_of_unnamed (h : commandName? program.encode = none) :
    w.launch r pid find program args = (.error .noFileName, w) := by
  rw [launch, h]

/-- A log that is refused leaves all as it was. -/
theorem launch_of_unlogged (h : commandName? program.encode = some command) {e : NameError}
    (hlog : logError? (logName pid r.id command) = some e)
    (hroom : r.HasRoom w.files (logName pid r.id command)) :
    w.launch r pid find program args = (.error (.logfile e), w) := by
  have hopen : r.openLog pid command w.files = .error e :=
    Runner.openLog_of_refused (slash_notMem_of_commandName? h) hroom hlog
  rw [launch, h]
  dsimp only
  rw [hopen]

/-- After the log was made, the program is looked for among the files with the log. -/
theorem launch_of_logged (find : Files → Text → List Text → Except FileError α)
    (args : List Text) (h : commandName? program.encode = some command)
    (hlog : logError? (logName pid r.id command) = none)
    (hroom : r.HasRoom w.files (logName pid r.id command)) :
    ∃ files : Files, files.EmptyAt (Octets.ofText (r.logPath pid command)) ∧
      w.launch r pid find program args =
        match Host.start ⟨pid, find files⟩ program args with
        | .error e => (.error (.start e), { w with files })
        | .ok p => (.ok p, ⟨files, w.started ++ [p]⟩) := by
  obtain ⟨files, hfiles, hempty⟩ :=
    Runner.exists_openLog (slash_notMem_of_commandName? h) hroom hlog
  refine ⟨files, hempty, ?_⟩
  cases hstart : Host.start ⟨pid, find files⟩ program args with
  | error e => simp only [launch, h, hfiles, hstart]
  | ok p => simp only [launch, h, hfiles, hstart]

end Workshop

/-- **The first thing that is wrong is reported.**  A path without a last part, or with one that
goes up, names no file.  Otherwise the log is refused just when its name holds a NUL or takes
more than 255 bytes.  Neither changes anything.  In all other cases the log is there and empty,
and the start fails just when there is a NUL before the last part or in an argument, or the
program is not found or not fit to run among the files with the log.  A program runs if its start
was reported, and none does if a failure was.  So the names alone show how far a start comes. -/
theorem launching_law {α : Type} (w : Workshop α) (r : Runner) (pid : Nat)
    (find : Files → Text → List Text → Except FileError α) (program : Text) (args : List Text)
    (hroom : ∀ command, commandName? program.encode = some command →
      r.HasRoom w.files (logName pid r.id command)) :
    let parts := namedParts program
    let unnamed := parts.getLast? = none ∨ parts.getLast? = some ['.', '.']
    let unlogged := ∃ command, parts.getLast? = some command ∧ command ≠ ['.', '.'] ∧
      ('\x00' ∈ logName pid r.id command ∨ 255 < (logName pid r.id command).size)
    let nul := (∃ part ∈ parts.dropLast, '\x00' ∈ part) ∨ ∃ a ∈ args, '\x00' ∈ a
    let result := (w.launch r pid find program args).1
    let after := (w.launch r pid find program args).2
    (Reports result "program has no file name" ↔ unnamed) ∧
    (Reports result "open logfile failed" ↔ ¬ unnamed ∧ unlogged) ∧
    (Reports result "spawn command failed" ↔ ¬ unnamed ∧ ¬ unlogged ∧
      (nul ∨ ∃ e, find after.files program args = .error e)) ∧
    (∀ p, result = .ok p ↔ ¬ unnamed ∧ ¬ unlogged ∧ ¬ nul ∧
      find after.files program args = .ok p) ∧
    (unnamed ∨ unlogged → after = w) ∧
    (¬ unnamed → ¬ unlogged → ∃ command, parts.getLast? = some command ∧
      after.files.EmptyAt (Octets.ofText (r.logPath pid command))) ∧
    (∀ p, result = .ok p → after.started = w.started ++ [p]) ∧
    (∀ f, result = .error f → after.started = w.started) ∧
    (r.launch ⟨pid, find after.files⟩ program args).result = result := by
  intro parts unnamed unlogged nul result after
  obtain ⟨hreportName, hreportLog, hreportStart⟩ := reports_iff result
  rw [hreportName, hreportLog, hreportStart, Runner.result_launch]
  cases hcommand : commandName? program.encode with
  | none =>
      have hunnamed : unnamed := commandName?_eq_none_iff.mp hcommand
      have hlaunch : w.launch r pid find program args = (.error .noFileName, w) :=
        Workshop.launch_of_unnamed hcommand
      have hresult : result = .error .noFileName := congrArg Prod.fst hlaunch
      have hafter : after = w := congrArg Prod.snd hlaunch
      simp [hunnamed, hresult, hafter]
  | some command =>
      obtain ⟨hlast, hup⟩ : parts.getLast? = some command ∧ command ≠ ['.', '.'] :=
        commandName?_eq_some_iff.mp hcommand
      have hnamed : ¬ unnamed := by
        intro h
        rw [commandName?_eq_none_iff.mpr h] at hcommand
        cases hcommand
      have hunlogged : unlogged ↔ ¬ logError? (logName pid r.id command) = none := by
        rw [logError?_eq_none_iff, not_and_or, not_not, Nat.not_le]
        constructor
        · rintro ⟨command', hlast', -, hbad⟩
          cases Option.some.inj (hlast'.symm.trans hlast)
          exact hbad
        · intro hbad
          exact ⟨command, hlast, hup, hbad⟩
      cases hlog : logError? (logName pid r.id command) with
      | some e =>
          rw [hlog] at hunlogged
          have hrefused : unlogged := hunlogged.mpr nofun
          have hlaunch : w.launch r pid find program args = (.error (.logfile e), w) :=
            Workshop.launch_of_unlogged hcommand hlog (hroom command hcommand)
          have hresult : result = .error (.logfile e) := congrArg Prod.fst hlaunch
          have hafter : after = w := congrArg Prod.snd hlaunch
          simp [hnamed, hrefused, hresult, hafter, hlog]
      | none =>
          have hlogged : ¬ unlogged := fun h => hunlogged.mp h hlog
          have hplain : '\x00' ∉ command := fun h =>
            (logError?_eq_none_iff.mp hlog).1 (mem_logName pid r.id h)
          have hnul : nul ↔ '\x00' ∈ program ∨ ∃ a ∈ args, '\x00' ∈ a :=
            or_congr_left (nul_mem_iff_of_commandName? hcommand hplain).symm
          obtain ⟨files, hempty, hlaunch⟩ :=
            Workshop.launch_of_logged find args hcommand hlog (hroom command hcommand)
          by_cases hbad : nul
          · have hstart : Host.start ⟨pid, find files⟩ program args = .error .nul :=
              Host.start_of_nul (hnul.mp hbad)
            rw [hstart] at hlaunch
            have hresult : result = .error (.start .nul) := congrArg Prod.fst hlaunch
            have hafter : after = { w with files } := congrArg Prod.snd hlaunch
            simp [hnamed, hlogged, hbad, hresult, hafter, hlast, hempty, hlog, hstart,
              Except.mapError]
          · have hstart : Host.start ⟨pid, find files⟩ program args =
                (find files program args).mapError .file :=
              Host.start_of_plain (mt hnul.mpr hbad)
            rw [hstart] at hlaunch
            cases hfind : find files program args with
            | error e =>
                rw [hfind] at hlaunch hstart
                have hresult : result = .error (.start (.file e)) := congrArg Prod.fst hlaunch
                have hafter : after = { w with files } := congrArg Prod.snd hlaunch
                simp [hnamed, hlogged, hbad, hresult, hafter, hlast, hempty, hlog, hfind, hstart,
                  Except.mapError]
            | ok p =>
                rw [hfind] at hlaunch hstart
                have hresult : result = .ok p := congrArg Prod.fst hlaunch
                have hafter : after = ⟨files, w.started ++ [p]⟩ := congrArg Prod.snd hlaunch
                simp [hnamed, hlogged, hbad, hresult, hafter, hlast, hempty, hlog, hfind, hstart,
                  Except.mapError]

/-- A directory behind a link, in which the log of an earlier start is not empty, and a program
that is not there. -/
theorem launching_law_missing_program :
    let log := Octets.of "fixture.7.0.sh.out"
    let w : Workshop Nat := ⟨⟨.folder false
      [(Octets.of "w", .folder false [(log, .file (Octets.of "old") false)]),
        (Octets.of "l", .link (Octets.of "w"))]⟩, []⟩
    let r : Runner := ⟨0, "/l".toList⟩
    let find : Files → Text → List Text → Except FileError Nat := fun _ program _ =>
      if program = "sh".toList then .ok 1 else .error .missing
    let launch := w.launch r 7 find "bin/sh".toList []
    (∀ command, commandName? (Text.encode "bin/sh".toList) = some command →
      r.HasRoom w.files (logName 7 r.id command)) ∧
    Reports launch.1 "spawn command failed" ∧
    launch.2.files.EmptyAt (Octets.of "/l/fixture.7.0.sh.out") ∧ launch.2.started = [] := by
  intro log w r find launch
  have hroom : ∀ command, commandName? (Text.encode "bin/sh".toList) = some command →
      r.HasRoom w.files (logName 7 r.id command) := by
    intro command hcommand
    have hname : commandName? (Text.encode "bin/sh".toList) = some "sh".toList := by decide
    cases Option.some.inj (hname.symm.trans hcommand)
    have hlog : Octets.ofText (logName 7 0 "sh".toList) = log := by decide +kernel
    refine ⟨by decide, ⟨_, rfl, ?_⟩, fun _ => by decide +kernel⟩
    intro e he
    rw [hlog] at he
    exact ⟨Octets.of "old", false, (Option.some.inj he).symm⟩
  have hlaw := launching_law w r 7 find "bin/sh".toList [] hroom
  have hlast : (namedParts "bin/sh".toList).getLast? = some "sh".toList := by decide
  have hnamed : ¬ ((namedParts "bin/sh".toList).getLast? = none ∨
      (namedParts "bin/sh".toList).getLast? = some ['.', '.']) := by decide
  have hlogged : ¬ ∃ command, (namedParts "bin/sh".toList).getLast? = some command ∧
      command ≠ ['.', '.'] ∧
      ('\x00' ∈ logName 7 r.id command ∨ 255 < (logName 7 r.id command).size) := by
    rintro ⟨command, hcommand, -, hbad⟩
    cases Option.some.inj (hlast.symm.trans hcommand)
    have hgood : ¬ ('\x00' ∈ logName 7 0 "sh".toList ∨
        255 < (logName 7 0 "sh".toList).size) := by decide +kernel
    exact hgood hbad
  have hreport : Reports launch.1 "spawn command failed" :=
    hlaw.2.2.1.mpr ⟨hnamed, hlogged, .inr ⟨.missing, rfl⟩⟩
  obtain ⟨command, hcommand, hempty⟩ := hlaw.2.2.2.2.2.1 hnamed hlogged
  cases Option.some.inj (hlast.symm.trans hcommand)
  have hpath : Octets.ofText (r.logPath 7 "sh".toList) =
      Octets.of "/l/fixture.7.0.sh.out" := by decide +kernel
  obtain ⟨f, hresult, hmessage⟩ := hreport
  exact ⟨hroom, ⟨f, hresult, hmessage⟩, hpath ▸ hempty, hlaw.2.2.2.2.2.2.2.1 f hresult⟩

end Offspring
