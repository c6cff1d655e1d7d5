import Offspring.Command.Utility.Basic
import Offspring.Shell.Lookup
/-!
# Running commands

A command changes the shell that runs it.  Commands that run apart, such as the parts of
a pipeline, are run by a shell of their own in another process, of which only what it did
to the world is kept.  Everything is defined for commands whose parts are run by `exec`,
and the knot is tied at the end with a bound on how deep commands may be.
-/

namespace Offspring.Shell

/-- How a command is run. -/
structure How where
  /-- The shell ends after it. -/
  last : Bool
  /-- It does not matter whether it fails. -/
  tested : Bool
  deriving DecidableEq, Repr

namespace How

/-- With more commands to come. -/
def plain : How := ⟨false, false⟩

/-- As a condition. -/
def condition : How := ⟨false, true⟩

/-- As the last one of a shell. -/
def final : How := ⟨true, false⟩

/-- With more commands to come, and as much tested. -/
def within (h : How) : How := { h with last := false }

end How

/-- What a process does when it becomes the program of a path with arguments. -/
abbrev Become := Octets → List Octets → Proc → Except FileError Proc

/-- What runs a command in a shell. -/
abbrev Run := How → Command → State → State

namespace Exec

/-- How a redirection is to be done. -/
inductive Move where
  | open' (path : Octets) (a : Access) (force : Bool)
  | copy (t : Octets)
  | document (t : Octets)

/-- Puts descriptors back where they led, and lets go of what was kept for that. -/
def restore (old : List (Nat × Option Stream)) (s : State) : State :=
  let p := old.foldl (fun p x => p.setFd x.1 x.2) s.proc
  { s with proc := { p with kept := p.kept.drop (old.filterMap Prod.snd).length }.release }

/-- Makes a descriptor lead elsewhere; where it led before is kept if `keeps`, once. -/
def move (keeps : Bool) (fd : Nat) (stream : Option Stream) (old : List (Nat × Option Stream))
    (s : State) : List (Nat × Option Stream) × State :=
  if !keeps || old.any fun x => x.1 = fd then (old, { s with proc := s.proc.setFd fd stream })
  else
    let was := s.proc.stream? fd
    let p := match was with
      | some w => { s.proc with kept := w :: s.proc.kept }
      | none => s.proc
    ((fd, was) :: old, { s with proc := p.setFd fd stream })

/-- The reading end of a text. -/
def document (t : Octets) (p : Proc) : Stream × Proc :=
  let (n, w) := p.world.fresh
  let chunks := if t.isEmpty then [] else [(p.clock, t)]
  (.conduit (.pipe n), { p with world := w.setSource n ⟨chunks, 0, some p.clock⟩ })

/-- Does a redirection. -/
def redirectOne (keeps : Bool) (old : List (Nat × Option Stream)) (fd : Nat) (m : Move)
    (s : State) : List (Nat × Option Stream) × State :=
  match m with
  | .document t =>
    let (stream, p) := document t s.proc
    move keeps fd (some stream) old { s with proc := p }
  | .copy t =>
    if t = ['-'] then move keeps fd none old s
    else
      match t with
      | [c] =>
        if !c.isDigit then (old, s.fail (Octets.of "Syntax error: Bad fd number"))
        else
          match s.proc.stream? (Decimal.digitValue c) with
          | some x => if Decimal.digitValue c = fd then (old, s) else move keeps fd (some x) old s
          | none => (old, s.fail (t ++ Octets.of ": Bad file descriptor"))
      | _ => (old, s.fail (Octets.of "Syntax error: Bad fd number"))
  | .open' path a force =>
    let taken :=
      a = .write && !force && s.has 'C' &&
        (match s.proc.world.files.lookup s.proc.cwd path with
        | .ok (.file _ _) => true
        | _ => false)
    let wrong (e : FileError) : State :=
      s.fail (Octets.of (if a = .read then "cannot open " else "cannot create ") ++ path ++
        Octets.of (": " ++ Lookup.openMessage (a != .read) e))
    if taken then (old, wrong .present)
    else
      match s.proc.open' path a with
      | .error e => (old, wrong e)
      | .ok (stream, p) => move keeps fd (some stream) old { s with proc := p }

/-- Does redirections in order, up to one that fails. -/
def redirect (keeps : Bool) (ms : List (Nat × Move)) (s : State) :
    List (Nat × Option Stream) × State :=
  ms.foldl (fun r m => if r.2.goes then redirectOne keeps r.1 m.1 m.2 r.2 else r) ([], s)

/-- Deals with a mistake that does not end the shell: whether there was one. -/
def settle (s : State) : Bool × State :=
  match s.raised with
  | some .error => (true, { s with raised := none, status := 2 })
  | _ => (false, s)

section parts

variable (become : Become) (exec : Run)

/-- Runs the lines of a script, of which some may have been run; the last command is the
last one of the shell if it is so for the script.  Every round takes a line. -/
def lines (how : How) : Nat → Bool → Reading → State → State
  | 0, _, _, s => s
  | n + 1, begun, r, s =>
    if !s.goesOn then s
    else
      match Reading.nextLine r with
      | .error m => { s with line := m.line }.fail m.message
      | .ok (.finished, _) => if begun then s else s.done 0
      | .ok (.commands c, r) =>
        let s := { s with texts := r.texts ++ s.texts, nextText := r.nextText }
        let r := { r with texts := [] }
        match c with
        | none => lines how n begun r s
        | some c => lines how n true r (exec (if r.isFinished then how else how.within) c s)

/-- Runs a script; without commands its status is zero. -/
def script (how : How) (t : Octets) (s : State) : State :=
  lines exec how (t.length + 2) false (Reading.start t s.nextText) s

/-- Does what is to be done on the signals that have come. -/
def heed (s : State) : State :=
  if s.proc.pending.isEmpty || !s.goesOn then s
  else
    let signals := (s.proc.pending.eraseDups).mergeSort fun a b => decide (a ≤ b)
    let before := s.saved
    let status := before.getD s.status
    let s := { s with saved := some status, proc := { s.proc with pending := [] } }
    let s := signals.foldl (fun s n =>
      if !s.goes then s
      else if s.skip != .nothing then
        { s with proc := { s.proc with pending := s.proc.pending ++ [n] } }
      else
        match s.traps.find? fun t => t.1 = n with
        | none => s
        | some (_, t) =>
          let s := script exec .plain t s
          if s.skip = .function then s else { s with status := if s.goes then status else s.status })
      s
    if s.goes then { s with saved := before } else s

/-- Ends a shell: does what is to be done at the end, writes what was kept, and ends the
process. -/
def leave (s : State) : State :=
  if !s.proc.runs then s
  else
    let status := match s.raised, s.saved with
      | some .exit, some n => n
      | _, _ => s.status
    let s := { s with raised := none, skip := .nothing, status := status }
    let s :=
      match s.traps.find? fun t => t.1 = 0 with
      | none => { s with saved := some status }
      | some (_, t) =>
        script exec .plain t
          { s with
            saved := some status
            builtin := []
            traps := s.traps.filter fun t => t.1 != 0 }
    let s := { s with raised := none }.flush
    s.finish (.exit (s.saved.getD status))

/-- What another shell does that starts as this one; the end of its process is known. -/
def apart (s : State) (run : State → State) : State :=
  leave exec (run s.fork)

/-- What another shell does, told with half of the budget, so that others can be told even
if there is no end to it. -/
def apartInHalf (s : State) (run : State → State) : State :=
  let limit (n : Nat) (s : State) : State :=
    { s with proc := { s.proc with world := { s.proc.world with budget := n } } }
  let own := s.proc.world.budget
  let half := own / 2
  let child := apart exec (limit half s) run
  limit (own - (half - child.proc.world.budget)) child

/-- Runs a command for what it writes. -/
def output (c : Option Command) (s : State) : Octets × State :=
  match c with
  | none => ([], { s with inner := 0 })
  | some c =>
    let (n, w) := s.proc.world.fresh
    let s := { s with proc := { s.proc with world := w } }
    let child := apart exec s fun t =>
      exec .final c { t with proc := t.proc.setFd 1 (some (.conduit (.pipe n))) }
    let p := s.proc.after child.proc
    let w := p.world.conclude n
    let source := w.source n
    let s := { s with proc := { p with world := w }.until' source.closes }
    let s := Builtin.awaitAll [child.proc.pid] s
    (source.chunks.flatMap Prod.snd,
      { s with inner := Builtin.jobStatus ⟨[child.proc.pid]⟩ s })

/-- The words of redirections, expanded. -/
def moves : List Redirect → State → List (Nat × Move) × State
  | [], s => ([], s)
  | .mk fd target :: rest, s =>
    let text (w : Word) : Octets × State := single (output exec) w s
    let (m, s) : Move × State :=
      match target with
      | .write force w => let (t, s) := text w; (.open' t .write force, s)
      | .append w => let (t, s) := text w; (.open' t .append false, s)
      | .read w => let (t, s) := text w; (.open' t .read false, s)
      | .readWrite w => let (t, s) := text w; (.open' t .both false, s)
      | .copy w => let (t, s) := text w; (.copy t, s)
      | .here n =>
        match s.texts.find? fun x => x.1 = n with
        | some (_, w) => let (t, s) := Shell.document (output exec) w s; (.document t, s)
        | none => (.document [], s)
    if !s.goes then ([], s)
    else
      let (ms, s) := moves rest s
      ((fd, m) :: ms, s)

/-- Runs something with redirections, which are taken back then. -/
def withMoves (rs : List Redirect) (run : State → State) (s : State) : State :=
  let (ms, s) := moves exec rs s
  if !s.goes then s
  else
    let (old, s) := redirect true ms s
    let (failed, s) := settle s
    if !s.goes then s
    else restore old (if failed then s else run s)

/-- What a process does that becomes a program: its state at the end, or why it cannot. -/
def becoming (args : List Octets) (s : State) : Except FileError Proc :=
  let name := args.headD []
  let p := { s.proc with environment := s.environment }
  if Lookup.isPath name then become name args p
  else
    let rec try' (e : FileError) : List Octets → Except FileError Proc
      | [] => .error e
      | path :: rest =>
        match become path args p with
        | .ok p => .ok p
        | .error .missing => try' e rest
        | .error .notFolder => try' e rest
        | .error e => try' e rest
    try' .missing (Lookup.candidates (Lookup.folders s) name)

/-- Becomes a program, or says why not and ends. -/
def becomes (args : List Octets) (s : State) : State :=
  match becoming become args s with
  | .ok p => { s with proc := p }
  | .error e =>
    let s := s.warn (args.headD [] ++ Octets.of (": " ++ Lookup.message e))
    { s with status := Lookup.status e, raised := some .finish }

/-- Runs a program. -/
def program (how : How) (args : List Octets) (s : State) : State :=
  if how.last && s.traps.isEmpty then becomes become args s
  else
    let child := becomes become args { s with proc := s.proc.child, jobs := [] }
    let child :=
      if child.proc.runs then child.finish (.exit child.status) else child
    let s := Builtin.awaitAll [child.proc.pid] (s.after child)
    if s.proc.runs then s.done (Builtin.jobStatus ⟨[child.proc.pid]⟩ s) else s

/-- How many functions may be at work at a time. -/
def functionLimit : Nat := 1000

/-- Runs a function with arguments. -/
def function (how : How) (body : Command) (args : List Octets) (s : State) : State :=
  if functionLimit ≤ s.depth then
    s.fail (Octets.of "Maximum function recursion depth (" ++ Decimal.ofNat functionLimit ++
      Octets.of ") reached")
  else
    let t := exec ⟨false, how.tested⟩ body
      { s with params := args, depth := s.depth + 1, loops := 0, optionAt := 0 }
    { t with
      params := s.params
      depth := s.depth
      loops := s.loops
      optionAt := s.optionAt
      skip := if t.skip = .function then .nothing else t.skip }

/-- Runs a file as a script of this shell. -/
def dot (path : Octets) (s : State) : State :=
  let files := s.proc.world.files
  let found : Option Octets :=
    if Lookup.isPath path then some path
    else
      (Lookup.candidates (Lookup.folders s) path).find? fun c =>
        match files.lookup s.proc.cwd c with
        | .ok (.file _ _) => true
        | _ => false
  match found with
  | none => s.fail (path ++ Octets.of ": not found")
  | some full =>
    match s.proc.readFile full with
    | .error .folder => s.done 0
    | .error e =>
      s.fail (Octets.of "cannot open " ++ full ++ Octets.of (": " ++ Lookup.openMessage false e))
    | .ok (t, p) =>
      let s := script exec .plain t { s with proc := p, builtin := full }
      { s with skip := if s.skip = .function then .nothing else s.skip }

/-- Tells what names stand for. -/
def describeAll (names : List Octets) (s : State) : State :=
  names.foldl (fun s name =>
    match Lookup.describe false name s with
    | (some t, s) => s.keep (t ++ ['\n'])
    | (none, s) => (s.keep (name ++ Octets.of ": not found\n")).done 127) (s.done 0)

/-- Runs what the shell does itself. -/
def own (how : How) (o : Lookup.Own) (args : List Octets) (s : State) : State :=
  match o with
  | .builtin run => run args s
  | .eval => script exec how.within (Octets.join [' '] args) s
  | .dot =>
    match args with
    | [] => s.done 0
    | path :: _ => dot exec path s
  | .exec =>
    match if args.head? = some ['-', '-'] then args.tail else args with
    | [] => s.done 0
    | args => becomes become args s
  | .type => describeAll args s
  | .command =>
    match args with
    | ['-', 'v'] :: name :: _ =>
      match Lookup.describe true name s with
      | (some t, s) => (s.keep (t ++ ['\n'])).done 0
      | (none, s) => s.done 127
    | ['-', 'V'] :: name :: _ => describeAll [name] s
    | _ => s.done 0
  | .hash =>
    args.foldl (fun s name =>
      if name.head? = some '-' || Lookup.isPath name then s
      else
        match Lookup.search s.proc.world.files s.proc.cwd (Lookup.folders s) name with
        | .ok _ => { s with found := name :: s.found }
        | .error e => (s.warn (name ++ Octets.of (": " ++ Lookup.message e))).done 1) (s.done 0)

/-- Runs what the shell does itself under a name, writes what it keeps, and deals with its
mistakes if they do not end the shell. -/
def builtin (how : How) (special : Bool) (o : Lookup.Own) (name : Octets)
    (args : List Octets) (s : State) : State :=
  let before := s.builtin
  let s := own become exec how o args { s with builtin := name }
  let s := if s.goes then s.flush else s
  let s := { s with builtin := before }
  if special then s
  else
    match s.raised with
    | some .error => { s with raised := none }
    | _ => s

/-- The name that counts among the words of a command so far. -/
def headOf (ws : List Octets) : Option Octets :=
  if ws.head? = some (Octets.of "command") then
    ws.find? fun w => w != Octets.of "command" && w.head? != some '-'
  else ws.head?

/-- Whether assignments among the arguments of a command are expanded as such. -/
def takesAssignments (words : List Octets) (s : State) : Bool :=
  match headOf words with
  | none => false
  | some w =>
    (w = Octets.of "export" || w = Octets.of "readonly" || w = Octets.of "local") &&
      !s.functions.any fun f => f.1 = w

/-- The words of a command, expanded. -/
def commandWords : List Word → List Octets → State → List Octets × State
  | [], done, s => (done, s)
  | w :: rest, done, s =>
    if !s.goes then (done, s)
    else
      match takesAssignments done s, assignment? w with
      | true, some (name, value) =>
        let (t, s) := assignedText (output exec) value s
        commandWords rest (done ++ [name ++ '=' :: t]) s
      | _, _ =>
        let (ts, s) := fields (output exec) w s
        commandWords rest (done ++ ts) s

/-- What a command is. -/
inductive Kind where
  /-- There are only assignments and redirections. -/
  | nothing
  | function (body : Command)
  | own (o : Lookup.Own)
  | program

/-- A command that is found: what it is, whether its mistakes end the shell, whether it can
change variables for good, and its words. -/
structure Found where
  kind : Kind
  special : Bool
  words : List Octets

/-- Finds what words stand for; at most so many of them ask for no function. -/
def find (s : State) : Nat → Bool → Option Bool → List Octets → Found
  | 0, _, special, ws => ⟨.nothing, special.getD false, ws⟩
  | _ + 1, _, special, [] => ⟨.nothing, special.getD false, []⟩
  | n + 1, functions, special, w :: rest =>
    match if functions then s.functions.find? fun f => f.1 = w else none with
    | some f => ⟨.function f.2, special.getD false, w :: rest⟩
    | none =>
      match Lookup.own? w with
      | none => ⟨.program, special.getD false, w :: rest⟩
      | some o =>
        let special := some (special.getD (Lookup.isSpecial w))
        match o with
        | .command =>
          let options := rest.takeWhile fun a => a.head? = some '-' && 1 < a.length
          let asked := options.any fun a => a != ['-', 'p'] && a != ['-', '-']
          let rest' := rest.drop options.length
          if asked || rest'.isEmpty then ⟨.own o, special.getD false, w :: rest⟩
          else find s n false special rest'
        | o => ⟨.own o, special.getD false, w :: rest⟩

/-- Shows a command before it is run. -/
def trace (old : List (Nat × Option Stream)) (assigned words : List Octets) (s : State) :
    State :=
  if !s.has 'x' then s
  else
    let t := (s.get? (Octets.of "PS4")).getD [] ++ Octets.join [' '] (assigned ++ words) ++
      ['\n']
    match old.find? fun x => x.1 = 2 with
    | some (_, was) =>
      -- The command has moved standard error; this goes to where it led.
      let fd := 1000001
      let (_, s) := { s with proc := s.proc.setFd fd was }.write fd t
      { s with proc := s.proc.setFd fd none }
    | none => (s.write 2 t).2

/-- Expands and makes assignments: as variables of a frame of their own, or for good. -/
def assign (framed exported : Bool) : List (Octets × Word) → State → List Octets × State
  | [], s => ([], s)
  | (name, w) :: rest, s =>
    let (t, s) := assignedText (output exec) w s
    if !s.goes then ([], s)
    else
      let a := name ++ '=' :: t
      let s :=
        if framed then Builtin.makeLocal a true s
        else if exported then Builtin.setExported s name t
        else s.set name t
      if !s.goes then ([], s)
      else
        let (as, s) := assign framed exported rest s
        (a :: as, s)

/-- Runs a command that was found. -/
def runFound (how : How) (f : Found) (s : State) : State :=
  let args := f.words.tail
  match f.kind with
  | .nothing => s.done s.inner
  | .function body => function exec how body args s
  | .own o => builtin become exec how f.special o (f.words.headD []) args s
  | .program =>
    let name := f.words.headD []
    if Lookup.isPath name then program become how f.words s
    else
      match Lookup.search s.proc.world.files s.proc.cwd (Lookup.folders s) name with
      | .error e =>
        let s := (s.warn (name ++ Octets.of (": " ++ Lookup.message e))).done 127
        if f.special && s.goes then { s with raised := some .error } else s
      | .ok _ => program become how f.words { s with found := name :: s.found }

/-- Runs a simple command. -/
def simple (how : How) (line : Nat) (assigned : List (Octets × Word)) (words : List Word)
    (rs : List Redirect) (s : State) : State :=
  let s := { s with line := line, inner := 0, proc := s.proc.spend }
  let (ws, s) := commandWords exec words [] s
  if !s.goes then s
  else
    let f := find s 8 true none ws
    let framed := !ws.isEmpty && !f.special
    let keepsMoves := match f.kind with
      | .own .exec => true
      | _ => false
    let (ms, s) := moves exec rs s
    if !s.goes then s
    else
      let (old, s) := redirect true ms s
      let (failed, s) := settle s
      if failed then
        let s := restore old s
        if f.special then { s with raised := some .error } else s
      else if !s.goes then s
      else
        let frames := s.locals
        let s := if framed then { s with locals := [] :: s.locals } else s
        let (as, s) := assign exec framed (keepsMoves && 1 < f.words.length) assigned s
        let s := if s.goes then trace old as ws s else s
        let s := if s.goes then runFound become exec how f s else s
        let s := if framed then Builtin.restoreLocals s else s
        let s := if framed then { s with locals := frames } else s
        if keepsMoves then
          { s with proc := { s.proc with
            kept := s.proc.kept.drop (old.filterMap Prod.snd).length }.release }
        else if s.proc.runs then restore old s
        else s

/-- What a shell in the background starts with. -/
def behind (isFirst : Bool) (s : State) : State :=
  let p := s.proc
  let p := if isFirst then p.setFd 0 (some (.device .null)) else p
  { s with proc := { p with ignores := 2 :: 3 :: p.ignores, clock := p.clock + 1 } }

/-- Runs a command apart, and waits for its end or not. -/
def subshell (how : How) (line : Nat) (c : Command) (rs : List Redirect) (background : Bool)
    (s : State) : State :=
  let s := { s with line := line }
  let (ms, s) := moves exec rs s
  if !s.goes then s
  else
    let body (s : State) : State :=
      let (_, s) := redirect false ms s
      if s.goes then exec ⟨true, how.tested && !background⟩ c s else s
    if background then
      let child := apartInHalf exec s fun t => body (behind true t)
      let pid := child.proc.pid
      { s.after child with last := some pid, jobs := s.jobs ++ [⟨[pid]⟩], status := 0 }
    else if how.last && s.traps.isEmpty then body s
    else
      let child := apart exec s body
      let s := Builtin.awaitAll [child.proc.pid] (s.after child)
      if s.proc.runs then s.done (Builtin.jobStatus ⟨[child.proc.pid]⟩ s) else s

/-- Runs the stages of a pipeline; `input` is the pipe that the first of them reads.  The
pids come last first. -/
def stages (how : How) (background : Bool) : Bool → Option Nat → List Command → List Nat →
    State → List Nat × State
  | _, _, [], pids, s => (pids, s)
  | isFirst, input, c :: rest, pids, s =>
    let (n, w) := s.proc.world.fresh
    let s := { s with proc := { s.proc with world := w } }
    let hasNext := !rest.isEmpty
    let child := apartInHalf exec s fun t =>
      let t := if background then behind (isFirst) t else t
      let p := t.proc
      let p := match input with
        | some m => p.setFd 0 (some (.conduit (.pipe m)))
        | none => p
      let p := if hasNext then p.setFd 1 (some (.conduit (.pipe n))) else p
      exec ⟨true, how.tested⟩ c { t with proc := p }
    let s := s.after child
    let w := s.proc.world.conclude n
    let w := match input, child.proc.ended? with
      | some m, some (t, _) => w.abandon m t
      | _, _ => w
    stages how background false (some n) rest (child.proc.pid :: pids)
      { s with proc := { s.proc with world := w } }

/-- Runs a pipeline. -/
def pipeline (how : How) (cs : List Command) (background : Bool) (s : State) : State :=
  if background then
    let (pids, s) := stages exec how true true none cs [] s
    { s with last := pids.head?, jobs := s.jobs ++ [⟨pids.reverse⟩], status := 0 }
  else
    let (pids, s) := stages exec how false true none cs [] s
    let s := Builtin.awaitAll pids.reverse s
    if s.proc.runs then s.done (Builtin.jobStatus ⟨pids.reverse⟩ s) else s

/-- What is skipped after a round of a loop: what is left to skip, and whether the loop is
left. -/
def afterRound (s : State) : Bool × State :=
  match s.skip with
  | .nothing => (false, s)
  | .function => (true, s)
  | .loops n => (true, { s with skip := if n ≤ 1 then .nothing else .loops (n - 1) })
  | .round n => if n ≤ 1 then (false, { s with skip := .nothing })
    else (true, { s with skip := .round (n - 1) })

/-- Runs a body as long as a test allows, at most so many rounds. -/
def loop (how : How) (stopsAt : Bool) (test body : Command) : Nat → Nat → State → State
  | 0, _, s => { s with proc := s.proc.stick }
  | n + 1, status, s =>
    let s := exec .condition test s
    if !s.goes then s
    else
      let wasFunction := s.skip = .function
      let skipped := s.skip != .nothing
      let tested := s.status
      let (leaves, s) := afterRound s
      if leaves then s.done (if wasFunction then tested else status)
      else if skipped then loop how stopsAt test body n status s
      else if (tested = 0) = stopsAt then s.done status
      else
        let s := exec how.within body s
        if !s.goes then s
        else
          let status := s.status
          let (leaves, s) := afterRound s
          if leaves then s.done status else loop how stopsAt test body n status s

/-- Runs a body for each of some values. -/
def each (how : How) (name : Octets) (body : Command) : List Octets → State → State
  | [], s => s
  | t :: rest, s =>
    let s := s.set name t
    if !s.goes then s
    else
      let s := exec how.within body s
      if !s.goes then s
      else
        let (leaves, s) := afterRound s
        if leaves then s else each how name body rest s

/-- Whether one of some patterns fits a text. -/
def fitsAny (t : Octets) : List Word → State → Bool × State
  | [], s => (false, s)
  | w :: rest, s =>
    let (p, s) := pattern (output exec) w s
    if !s.goes then (false, s)
    else if Pattern.fits p t then (true, s)
    else fitsAny t rest s

/-- Runs the command of the first clause that fits a text. -/
def choose (how : How) (t : Octets) : List (List Word × Option Command) → State → State
  | [], s => s.done 0
  | (ws, c) :: rest, s =>
    let (fits, s) := fitsAny exec t ws s
    if !s.goes then s
    else if fits then
      match c with
      | some c => exec how c s
      | none => s.done 0
    else choose how t rest s

/-- How a command ends: the shell ends if it fails and that matters, or if it was the last
one. -/
def conclude (how : How) (checks : Bool) (s : State) : State :=
  let s := heed exec s
  if !s.goes then s
  else if s.has 'e' && checks && !how.tested && s.status != 0 then
    { s with raised := some .finish }
  else if how.last then { s with raised := some .finish }
  else s

/-- Runs a command whose parts are run by `exec`. -/
def step (how : How) (c : Command) (s : State) : State :=
  if !s.goes || s.has 'n' then s
  else
    let s := heed exec s
    if !s.goes then s
    else
      match c with
      | .simple line assigned words rs =>
        conclude exec how true (simple become exec how line assigned words rs s)
      | .pipeline cs background => conclude exec how true (pipeline exec how cs background s)
      | .subshell line c rs => conclude exec how true (subshell exec how line c rs false s)
      | .background line c rs => conclude exec how true (subshell exec how line c rs true s)
      | .redirected line c rs =>
        conclude exec how false
          (withMoves exec rs (exec how.within c) { s with line := line })
      | .both a b =>
        let s := exec .condition a s
        if s.goesOn && s.status = 0 then exec how b s else conclude exec how false s
      | .either a b =>
        let s := exec .condition a s
        if s.goesOn && s.status != 0 then exec how b s else conclude exec how false s
      | .sequence a b =>
        let s := exec how.within a s
        if s.goesOn then exec how b s else conclude exec how false s
      | .negation c =>
        let s := exec .condition c s
        conclude exec how false (if s.goes then s.done (if s.status = 0 then 1 else 0) else s)
      | .conditional test yes no =>
        let s := exec .condition test s
        if !s.goesOn then conclude exec how false s
        else if s.status = 0 then exec how yes s
        else
          match no with
          | some c => exec how c s
          | none => conclude exec how false (s.done 0)
      | .loop stopsAt test body =>
        let s := loop exec how stopsAt test body (s.proc.world.budget + 2) 0
          { s with loops := s.loops + 1 }
        conclude exec how false { s with loops := s.loops - 1 }
      | .each line name words body =>
        let (ts, s) := allFields (output exec) words { s with line := line }
        if !s.goes then s
        else
          let t := each exec how name body ts { s with loops := s.loops + 1 }
          let t := if ts.isEmpty then t.done 0 else t
          conclude exec how false { t with loops := s.loops }
      | .choice line w clauses =>
        let (t, s) := single (output exec) w { s with line := line }
        if !s.goes then s else conclude exec how false (choose exec how t clauses s)
      | .function _ name body =>
        let functions := (name, body) :: s.functions.filter fun f => f.1 != name
        conclude exec how false ({ s with functions := functions }.done 0)

end parts

/-- How deep commands may be. -/
def deepest : Nat := 12000

/-- Runs a command at most so many levels deep; a shell that gets deeper is killed. -/
def run (become : Become) : Nat → Run
  | 0, _, _, s => s.finish (.signal 11)
  | n + 1, how, c, s => step become (run become n) how c s

/-- Runs a command. -/
def command (become : Become) : Run :=
  run become deepest

end Exec

end Offspring.Shell
