import Offspring.Command.Condition
import Offspring.Command.Format
import Offspring.Shell.Expansion
/-!
# Commands that the shell does itself

These work on the shell: its parameters, folder, options, traps and jobs.  What they
write is kept until they are done.
-/

namespace Offspring.Shell

/-- A command that the shell does itself, with its arguments. -/
abbrev Builtin := List Octets → State → State

namespace State

/-- The command has a status. -/
def done (s : State) (status : Nat) : State :=
  { s with status := status }

/-- Keeps a text until it is written. -/
def keep (s : State) (t : Octets) : State :=
  { s with out := s.out ++ t }

/-- Writes what was kept, and tells when that fails. -/
def flush (s : State) : State :=
  if s.out.isEmpty then s
  else
    let (r, s') := { s with out := [] }.write 1 s.out
    match r with
    | .fully => s'
    | _ =>
      if s'.proc.runs then (s'.warn (s.builtin ++ Octets.of ": I/O error")).done 1 else s'

end State

namespace Builtin

/-- The options of a command, up to the first argument that is none; a colon stands after
those that take a value. -/
def options (known : String) : List Octets → Except Octets (List (Char × Octets) × List Octets)
  | [] => .ok ([], [])
  | a :: rest =>
    match a with
    | ['-', '-'] => .ok ([], rest)
    | '-' :: c :: t =>
      match letters (c :: t) with
      | .error e => .error e
      | .ok (os, none) =>
        match options known rest with
        | .error e => .error e
        | .ok (more, left) => .ok (os ++ more, left)
      | .ok (os, some c) =>
        match rest with
        | [] => .error (Octets.of "No arg for -" ++ c :: Octets.of " option")
        | v :: rest =>
          match options known rest with
          | .error e => .error e
          | .ok (more, left) => .ok (os ++ (c, v) :: more, left)
    | _ => .ok ([], a :: rest)
where
  /-- The options of one argument, and one that takes its value from the next. -/
  letters : Octets → Except Octets (List (Char × Octets) × Option Char)
    | [] => .ok ([], none)
    | c :: t =>
      let form := known.toList.dropWhile fun d => d != c
      match form with
      | _ :: ':' :: _ => if t.isEmpty then .ok ([], some c) else .ok ([(c, t)], none)
      | _ :: _ =>
        if c = ':' then .error (Octets.of "Illegal option -" ++ [c])
        else
          match letters t with
          | .error e => .error e
          | .ok (os, left) => .ok ((c, []) :: os, left)
      | [] => .error (Octets.of "Illegal option -" ++ [c])

/-- Goes on with the options and the other arguments, or tells which option is wrong. -/
def withOptions (known : String) (run : List (Char × Octets) → Builtin) : Builtin :=
  fun args s =>
    match options known args with
    | .error e => s.fail e
    | .ok (os, rest) => run os rest s

/-- The number that an argument is: digits only. -/
def number? (t : Octets) : Option Nat :=
  if !t.isEmpty && t.all Char.isDigit && Decimal.value t ≤ 2147483647 then
    some (Decimal.value t)
  else none

/-- The number that an argument is, between blanks and perhaps with a plus sign. -/
def count? (t : Octets) : Option Nat :=
  let t := ((t.dropWhile Whole.isBlank).reverse.dropWhile Whole.isBlank).reverse
  match t with
  | '+' :: u => number? u
  | ['-', '0'] => some 0
  | t => number? t

/-- Goes on with the number that an argument is. -/
def withNumber (t : Octets) (s : State) (run : Nat → State → State) : State :=
  match count? t with
  | some n => run n s
  | none => s.fail (Octets.of "Illegal number: " ++ t)

/-- A text in single quotes, with the quotes in it in double ones. -/
def quoted (t : Octets) : Octets :=
  let rec inside (quotes : Nat) : Octets → Octets
    | [] => if quotes = 0 then ['\x27'] else close quotes
    | c :: t =>
      if c = '\x27' then
        (if quotes = 0 then ['\x27'] else []) ++ inside (quotes + 1) t
      else (if quotes = 0 then [] else close quotes ++ ['\x27']) ++ c :: inside 0 t
  '\x27' :: inside 0 t
where
  /-- So many single quotes in double ones. -/
  close (quotes : Nat) : Octets :=
    '\x22' :: List.replicate quotes '\x27' ++ ['\x22']

/-- Does nothing, with a status. -/
def nothing (status : Nat) : Builtin := fun _ s => s.done status

/-- Writes arguments in a line. -/
def echo : Builtin := fun args s =>
  let (args, ending) : List Octets × Octets := match args with
    | ['-', 'n'] :: rest => (rest, [])
    | args => (args, ['\n'])
  let rec go : List Octets → Octets
    | [] => ending
    | a :: rest =>
      let (t, mood) := Format.unescape .shell .line a.length a
      if mood = .on then
        t ++ (if rest.isEmpty then ending else ' ' :: go rest)
      else t
  (s.keep (go args)).done 0

/-- Writes arguments by a format. -/
def printf : Builtin := withOptions "" fun _ args s =>
  match args with
  | [] => s.fail (Octets.of "usage: printf format [arg ...]")
  | format :: args =>
    let r := Format.render .shell format args
    let s := r.events.reverse.foldl (fun s e =>
      match e with
      | .out t => s.keep t
      | .warning t => s.warn t) s
    match r.mood with
    | .broken m => s.fail m
    | _ => s.done (if r.failed then 1 else 0)

/-- Tests a condition. -/
def test : Builtin := fun args s =>
  let brackets := s.builtin = ['[']
  if brackets && (args.getLastD []).head? != some ']' then s.fail (Octets.of "missing ]")
  else
    match Condition.evaluate s.proc (if brackets then args.dropLast else args) with
    | .ok b => s.done (if b then 0 else 1)
    | .error e => s.fail e.message

/-- The pieces of a path without dots, seen from a folder. -/
def resolved (folder path : Octets) : List Octets :=
  let start := if textPath.isAbsolute path then [] else Files.piecesOf folder
  (Files.piecesOf path).foldl (fun at' p =>
    if p = ['.'] then at' else if p = ['.', '.'] then at'.dropLast else at' ++ [p]) start

/-- The path of some names. -/
def pathOf (names : List Octets) : Octets :=
  '/' :: Octets.join ['/'] names

/-- Gives an exported variable a value. -/
def setExported (s : State) (name value : Octets) : State :=
  let s := s.set name value
  match s.held? name with
  | some v => s.put { v with exported := true }
  | none => s

/-- Goes to a folder, if it is one. -/
def goTo (physical : Bool) (path : Octets) (s : State) : Option State :=
  let files := s.proc.world.files
  let goal := if physical then path else pathOf (resolved s.folder path)
  match files.locate s.proc.cwd goal true with
  | .error _ => none
  | .ok place =>
    if !(place.entry files.root).isFolder then none
    else
      let logical := if physical then pathOf place.names else goal
      let old := s.folder
      let s := { s with proc := { s.proc with cwd := place.names }, folder := logical }
      some (setExported (setExported s (Octets.of "OLDPWD") old) (Octets.of "PWD") logical)

/-- Whether a path starts with a dot or two. -/
def startsWithDots (path : Octets) : Bool :=
  match pieces '/' path with
  | p :: _ => p = ['.'] || p = ['.', '.']
  | [] => false

/-- Changes the folder. -/
def cd : Builtin := withOptions "LP" fun os args s =>
  let physical := (os.getLast?.map Prod.fst) == some 'P'
  let (goal, tells) : Octets × Bool := match args with
    | [] => ((s.get? (Octets.of "HOME")).getD [], false)
    | ['-'] :: _ => ((s.get? (Octets.of "OLDPWD")).getD [], true)
    | a :: _ => (a, false)
  let shown := goal
  let finish (tells : Bool) (r : Option State) : State :=
    match r with
    | some s =>
      let s := if tells then s.keep (s.folder ++ ['\n']) else s
      s.done 0
    | none => s.fail (Octets.of "can't cd to " ++ shown)
  if textPath.isAbsolute goal || startsWithDots goal then finish tells (goTo physical goal s)
  else
    let goal := if goal.isEmpty then ['.'] else goal
    let dirs := match s.get? (Octets.of "CDPATH") with
      | some t => if t.isEmpty then [] else pieces ':' t
      | none => []
    let candidates := dirs.map fun d =>
      (if d.isEmpty then goal else textPath.push d goal, !d.isEmpty)
    match candidates.find? fun c => s.proc.world.files.isFolder s.proc.cwd c.1 with
    | some c => finish (tells || c.2) (goTo physical c.1 s)
    | none => finish tells (goTo physical goal s)

/-- Writes the folder. -/
def pwd : Builtin := withOptions "LP" fun os _ s =>
  let physical := (os.getLast?.map Prod.fst) == some 'P'
  (s.keep ((if physical then pathOf s.proc.cwd else s.folder) ++ ['\n'])).done 0

/-- Variables of a kind, in order, each after a word if there is one. -/
def listing (before : Octets) (wanted : Variable → Bool) (s : State) : Octets :=
  let vs := (s.vars.filter wanted).mergeSort fun a b => Pattern.precedes a.name b.name
  let start := if before.isEmpty then [] else before ++ [' ']
  vs.flatMap fun v =>
    match v.value with
    | some t => start ++ v.name ++ '=' :: quoted t ++ ['\n']
    | none => if before.isEmpty then [] else start ++ v.name ++ ['\n']

/-- Gives the variable of an assignment a value if there is one, and changes it. -/
def mark (change : Variable → Variable) (a : Octets) (s : State) : State :=
  if !s.goes then s
  else
    let name := a.takeWhile fun c => c != '='
    if !isName name then s.fail (name ++ Octets.of ": bad variable name")
    else
      let s := if name.length < a.length then s.set name (a.drop (name.length + 1)) else s
      if !s.goes then s
      else s.put (change ((s.held? name).getD ⟨name, none, false, false⟩))

/-- Marks variables, or lists those that are marked. -/
def marking (isMarked : Variable → Bool) (change : Variable → Variable) : Builtin :=
  fun args s =>
    withOptions "p" (fun os rest s =>
      if rest.isEmpty || !os.isEmpty then (s.keep (listing s.builtin isMarked s)).done 0
      else
        let s := rest.foldl (fun s a => mark change a s) s
        if s.goes then s.done 0 else s) args s

/-- Lets programs that are started get variables. -/
def export' : Builtin := marking Variable.exported fun v => { v with exported := true }

/-- Fixes variables. -/
def readonly : Builtin := marking Variable.fixed fun v => { v with fixed := true }

/-- Removes variables or functions. -/
def unset : Builtin := withOptions "vf" fun os args s =>
  let functions := (os.getLast?.map Prod.fst) == some 'f'
  let s := args.foldl (fun s a =>
    if !s.goes then s
    else if functions then { s with functions := s.functions.filter fun f => f.1 != a }
    else if !isName a then s.fail (a ++ Octets.of ": bad variable name")
    else s.unset a) s
  if s.goes then s.done 0 else s

/-- Makes variables those of the function that is at work. -/
def makeLocal (a : Octets) (exported : Bool) (s : State) : State :=
  if !s.goes then s
  else
    let name := a.takeWhile fun c => c != '='
    if name = ['-'] then s
    else if !isName name then s.fail (name ++ Octets.of ": bad variable name")
    else
      match s.locals with
      | [] => s
      | frame :: frames =>
        let old := s.held? name
        let frame := if frame.any fun x => x.1 = name then frame else (name, old) :: frame
        let s := { s with locals := frame :: frames }
        let s := if name.length < a.length then s.set name (a.drop (name.length + 1)) else s
        if exported then
          match s.held? name with
          | some v => s.put { v with exported := true }
          | none => s
        else s

/-- Puts the variables back that a function has made its own. -/
def restoreLocals (s : State) : State :=
  match s.locals with
  | [] => s
  | frame :: frames =>
    frame.foldl (fun s x =>
      match x.2 with
      | some v => s.put v
      | none => { s with vars := s.vars.filter fun v => v.name != x.1 })
      { s with locals := frames }

/-- Makes variables those of the function that is at work. -/
def local' : Builtin := withOptions "" fun _ args s =>
  if s.depth = 0 then s.fail (Octets.of "not in a function")
  else
    let s := args.foldl (fun s a => makeLocal a false s) s
    if s.goes then s.done 0 else s

/-- Drops parameters. -/
def shift : Builtin := fun args s =>
  let drop (n : Nat) (s : State) : State :=
    if s.params.length < n then s.fail (Octets.of "can't shift that many")
    else { s with params := s.params.drop n, optionAt := 0 }.done 0
  match args with
  | [] => drop 1 s
  | a :: _ => withNumber a s drop

/-- The settings of all options, readable or as commands. -/
def settings (commands : Bool) (s : State) : Octets :=
  let names := State.optionNames.map (fun o => (o.2, s.has o.1)) ++
    [("nolog", false), ("debug", false)]
  if commands then
    names.flatMap fun o => Octets.of ("set " ++ (if o.2 then "-o " else "+o ") ++ o.1 ++ "\n")
  else
    Octets.of "Current option settings\n" ++ names.flatMap fun o =>
      Octets.of o.1 ++ List.replicate (16 - o.1.length) ' ' ++
        Octets.of (if o.2 then "on\n" else "off\n")

/-- Sets an option or takes it back. -/
def setOption (on : Bool) (c : Char) (s : State) : State :=
  if on then { s with options := if s.has c then s.options else c :: s.options }
  else { s with options := s.options.filter fun d => d != c }

/-- Sets options by letters. -/
def setLetters (on : Bool) : Octets → State → State
  | [], s => s
  | c :: t, s =>
    if State.optionNames.any fun o => o.1 = c then setLetters on t (setOption on c s)
    else s.fail (Octets.of "Illegal option -" ++ [c])

/-- Sets an option by its name. -/
def setNamed (on : Bool) (name : Octets) (s : State) : State :=
  match State.optionNames.find? fun o => name = Octets.of o.2 with
  | some o => setOption on o.1 s
  | none =>
    if name = Octets.of "nolog" || name = Octets.of "debug" then s
    else s.fail (Octets.of (if on then "Illegal option -o " else "Illegal option +o ") ++ name)

/-- Sets options and parameters; gives the arguments that are left, if they are to become
the parameters. -/
def setArguments : Nat → List Octets → State → Option (List Octets) × State
  | 0, _, s => (none, s)
  | n + 1, args, s =>
    if !s.goes then (none, s)
    else
      match args with
      | [] => (none, s)
      | ['-'] :: rest =>
        let s := setOption false 'x' (setOption false 'v' s)
        (if rest.isEmpty then none else some rest, s)
      | ['-', '-'] :: rest => (some rest, s)
      | (sign :: t) :: rest =>
        if (sign = '-' || sign = '+') then
          let on := sign = '-'
          let letters := t.filter fun c => c != 'o'
          let s := setLetters on letters s
          if t.contains 'o' then
            match rest with
            | [] => (none, s.keep (settings (!on) s))
            | name :: rest => setArguments n rest (setNamed on name s)
          else setArguments n rest s
        else (some args, s)
      | [] :: _ => (some args, s)

/-- Sets options and parameters, or lists the variables. -/
def set : Builtin := fun args s =>
  if args.isEmpty then (s.keep (listing [] (fun v => v.value.isSome) s)).done 0
  else
    let (params, s) := setArguments (args.length + 1) args s
    let s := match params with
      | some ps => { s with params := ps, optionAt := 0 }
      | none => s
    if s.goes then s.done 0 else s

/-- What a line is cut into. -/
structure Cutting where
  /-- How many variables are left. -/
  left : Nat
  afterBlank : Bool
  /-- The current one, last first. -/
  word : Octets
  /-- How long it was before what may be cut off. -/
  cut : Option Nat
  /-- Those before, last first. -/
  before : List Octets

/-- One more character of a line, which may be protected. -/
def Cutting.take (separators : Octets) (p : Cutting) (c : Char × Bool) : Cutting :=
  let separates := !c.2 && separators.contains c.1
  let blank := separates && (c.1 = ' ' || c.1 = '\t' || c.1 = '\n')
  let longer := c.1 :: p.word
  if p.left = 0 then
    if blank then { p with word := longer, cut := some (p.cut.getD p.word.length) }
    else
      { p with
        word := longer
        cut := if separates && p.afterBlank then p.cut else none
        afterBlank := false }
  else if p.afterBlank then
    if blank then p
    else if separates then { p with afterBlank := false }
    else { p with word := [c.1], afterBlank := false }
  else if separates then
    if p.word.isEmpty && blank then p
    else if p.left = 1 then
      { p with left := 0, cut := some p.word.length, word := longer, afterBlank := blank }
    else
      { p with
        left := p.left - 1
        before := p.word.reverse :: p.before
        word := []
        afterBlank := blank }
  else { p with word := longer }

/-- The values that a line gives so many variables. -/
def cutLine (separators : Octets) (n : Nat) (cs : List (Char × Bool)) : List Octets :=
  let p := cs.foldl (Cutting.take separators) ⟨n, false, [], none, []⟩
  let word := p.word.reverse
  let word := match p.cut with
    | some k => word.take k
    | none => word
  (if word.isEmpty then p.before else word :: p.before).reverse

/-- Reads a line byte by byte: its characters, of which some are protected, and whether it
had an end.  Every round takes a byte. -/
def readLine (raw : Bool) : Nat → Bool → List (Char × Bool) → Proc →
    List (Char × Bool) × Bool × Proc
  | 0, _, cs, p => (cs.reverse, false, p)
  | n + 1, escaped, cs, p =>
    match p.read 0 1 with
    | (.bytes [c], p) =>
      if c = '\x00' then readLine raw n escaped cs p
      else if escaped then
        if c = '\n' then readLine raw n false cs p else readLine raw n false ((c, true) :: cs) p
      else if !raw && c = '\\' then readLine raw n true cs p
      else if c = '\n' then (cs.reverse, true, p)
      else readLine raw n false ((c, false) :: cs) p
    | (_, p) => (cs.reverse, false, p)

/-- Reads a line into variables. -/
def read : Builtin := withOptions "p:r" fun os args s =>
  if args.isEmpty then s.fail (Octets.of "arg count")
  else
    let (cs, ended, p) := readLine (os.any fun o => o.1 = 'r') 100000 false [] s.proc
    let s := { s with proc := p }
    let values := cutLine s.separators args.length cs
    let s := (args.zipIdx).foldl (fun s x =>
      if !s.goes then s
      else if !isName x.1 then s.fail (x.1 ++ Octets.of ": bad variable name")
      else s.set x.1 (values.getD x.2 [])) s
    if s.goes then s.done (if ended then 0 else 1) else s

/-- How `kill` is used. -/
def killUsage : Octets :=
  Octets.of "Usage: kill [-s sigspec | -signum | -sigspec] [pid | job]... or\nkill -l [exitstatus]"

/-- The pid that an argument of `kill` is. -/
def target? (t : Octets) : Option Int :=
  match t with
  | '-' :: t => (number? t).map fun n => -(n : Int)
  | t => (number? t).map fun n => (n : Int)

/-- The job that a text stands for. -/
def job? (t : Octets) (s : State) : Option Job :=
  match t with
  | ['%'] => s.jobs.getLast?
  | ['%', '%'] => s.jobs.getLast?
  | ['%', '+'] => s.jobs.getLast?
  | ['%', '-'] => s.jobs.dropLast.getLast?
  | '%' :: t =>
    match number? t with
    | some (n + 1) => s.jobs[n]?
    | _ => none
  | _ => none

/-- Sends a signal to each of some processes. -/
def killAll (signal : Nat) (args : List Octets) (s : State) : State :=
  args.foldl (fun s t =>
    if !s.goes then s
    else
      let sendTo (pid : Nat) (s : State) : State :=
        let (sent, p) := s.proc.send pid signal
        let s := { s with proc := p }
        if sent then s else (s.warn (Octets.of "No such process\n")).done 1
      if t.head? = some '%' then
        match job? t s with
        | none => s.fail (Octets.of "No such job: " ++ t)
        | some _ => (s.warn (Octets.of "No such process\n")).done 1
      else
        match target? t with
        | none => s.fail (Octets.of "Illegal number: " ++ t)
        | some n => sendTo n.toNat s) (s.done 0)

/-- Sends signals, or lists them. -/
def kill : Builtin := fun args s =>
  let usage (s : State) : State := s.fail killUsage
  let list (args : List Octets) (s : State) : State :=
    match args with
    | [] =>
      (s.keep ((List.range Signal.count).flatMap fun n => Signal.name n ++ ['\n'])).done 0
    | a :: _ =>
      withNumber a s fun n s =>
        let m := if 128 < n then n - 128 else n
        if 0 < m && m < Signal.count then (s.keep (Signal.name m ++ ['\n'])).done 0
        else
          s.fail (Octets.of "invalid signal number or exit status: " ++ a)
  let send (signal : Nat) (targets : List Octets) (s : State) : State :=
    if targets.isEmpty then usage s else killAll signal targets s
  match args with
  | [] => usage s
  | ['-', '-'] :: rest => send Signal.terminate rest s
  | ('-' :: c :: t) :: rest =>
    match Signal.find? (c :: t) with
    | some n => send n (if rest.head? = some ['-', '-'] then rest.tail else rest) s
    | none =>
      withOptions "ls:" (fun os rest s =>
        if os.any fun o => o.1 = 'l' then list rest s
        else
          match os.find? fun o => o.1 = 's' with
          | some (_, name) =>
            match Signal.find? name with
            | some n => send n rest s
            | none => s.fail (Octets.of "invalid signal number or name: " ++ name)
          | none => send Signal.terminate rest s) args s
  | rest => send Signal.terminate rest s

/-- The name of a signal, or of the end of the shell, for traps. -/
def trapName (n : Nat) : Octets :=
  if n = 0 then Octets.of "EXIT" else Signal.name n

/-- The signal, or the end of the shell, that a text names. -/
def trapOf? (t : Octets) : Option Nat :=
  if t.map Char.toUpper = Octets.of "EXIT" then some 0 else Signal.find? t

/-- Sets what is done on a signal; nothing is done for none, and it is ignored for an empty
text. -/
def setTrap (signal : Nat) (action : Option Octets) (s : State) : State :=
  let others := s.traps.filter fun t => t.1 != signal
  let without (l : List Nat) : List Nat := l.filter fun n => n != signal
  let p := s.proc
  let p := if signal = 0 then p else
    match action with
    | none => { p with catches := without p.catches, ignores := without p.ignores }
    | some [] => { p with catches := without p.catches, ignores := signal :: without p.ignores }
    | some _ => { p with catches := signal :: without p.catches, ignores := without p.ignores }
  { s with
    proc := p
    traps := match action with
      | none => others
      | some a => (signal, a) :: others }

/-- Sets or lists what is done on signals. -/
def trap : Builtin := withOptions "" fun _ args s =>
  let rec setAll (action : Option Octets) : List Octets → State → State
    | [], s => s.done 0
    | t :: rest, s =>
      match trapOf? t with
      | none =>
        (s.write 2 (Octets.of "trap: " ++ t ++ Octets.of ": bad trap\n")).2.done 1
      | some n => setAll action rest (setTrap n action s)
  match args with
  | [] =>
    let inOrder := s.traps.mergeSort fun a b => decide (a.1 ≤ b.1)
    (s.keep (inOrder.flatMap fun t =>
      Octets.of "trap -- " ++ quoted t.2 ++ ' ' :: trapName t.1 ++ ['\n'])).done 0
  | [t] => setAll none [t] s
  | a :: rest =>
    if (number? a).isSome && (trapOf? a).isSome then setAll none args s
    else setAll (if a = ['-'] then none else some a) rest s

/-- Says on standard error by what signal a process was ended, if that is worth it. -/
def announce (d : Death) (s : State) : State :=
  match d with
  | .signal n =>
    if n = 2 || n = Signal.brokenPipe then s
    else (s.write 2 (Signal.meaning n.toNat ++ ['\n'])).2
  | .exit _ => s

/-- Says by what signals some processes were ended, in the order of their ends, of which
the shell did not know. -/
def announceAll (pids : List Nat) (s : State) : State :=
  let tasks := (pids.filterMap fun n => s.proc.world.task? n).filter fun t => !t.reaped
  let ends := (tasks.filterMap Task.ended).mergeSort fun a b => decide (a.1 ≤ b.1)
  ends.foldl (fun s e => announce e.2 s) s

/-- The shell when some processes have ended for which it waited, and it knows of it. -/
def awaitAll (pids : List Nat) (s : State) : State :=
  let last := pids.foldl (fun t n =>
    World.later t (((s.proc.world.task? n).bind Task.ended).map Prod.fst)) (some 0)
  let s := { s with proc := s.proc.until' last }
  if s.proc.runs then
    let s := announceAll pids s
    { s with proc := s.proc.reap }
  else s

/-- The shell when a job has ended that it waits for, unless a signal comes before about
which something is to be done. -/
def awaitJob (j : Job) (s : State) : Bool × State :=
  let tasks := j.pids.filterMap fun n => s.proc.world.task? n
  let last := tasks.foldl (fun t x => World.later t (x.ended.map Prod.fst)) (some 0)
  let caught := s.proc.nextCaught?
  let first := match last, caught with
    | some a, some b => decide (b < a)
    | none, some _ => true
    | _, none => false
  if first then (false, { s with proc := (s.proc.until' caught) })
  else (true, { s with proc := (s.proc.until' last) })

/-- The status of a job that is over. -/
def jobStatus (j : Job) (s : State) : Nat :=
  match (s.proc.world.task? (j.pids.getLastD 0)).bind Task.ended with
  | some (_, d) => statusOf d
  | none => 0

/-- The status when a wait was interrupted by a signal. -/
def interrupted (s : State) : State :=
  s.done (128 + s.proc.pending.getLastD 0)

/-- Waits for jobs. -/
def wait : Builtin := withOptions "" fun _ args s =>
  let rec all : List Job → State → State
    | [], s => s.done 0
    | j :: rest, s =>
      if !s.proc.runs then s
      else
        let (done, s) := awaitJob j s
        if done then all rest { s with proc := s.proc.reap } else interrupted s
  let rec each : List Octets → State → State
    | [], s => s
    | t :: rest, s =>
      if !s.goes then s
      else
        let found : Option (Option Job) :=
          if t.head? = some '%' then (job? t s).map some
          else (number? t).map fun n => s.jobs.find? fun j => j.pids.getLast? = some n
        match found with
        | none =>
          if t.head? = some '%' then s.fail (Octets.of "No such job: " ++ t)
          else s.fail (Octets.of "Illegal number: " ++ t)
        | some none => each rest (s.done 127)
        | some (some j) =>
          let (done, s) := awaitJob j s
          if !s.proc.runs then s
          else if done then
            let s := announceAll j.pids s
            let s := { s with proc := s.proc.reap }
            each rest (s.done (jobStatus j s))
          else interrupted s
  if args.isEmpty then all s.jobs s else each args s

/-- How a job ended, if it has by now. -/
def deathOf? (p : Proc) (j : Job) : Option Death :=
  match (p.world.task? (j.pids.getLastD 0)).bind Task.ended with
  | some (t, d) => if t ≤ p.clock then some d else none
  | none => none

/-- What is told of jobs with their numbers, the latest first, when so many later ones go
on.  The latest job has a mark, and so has the one before it; a job that is over is
forgotten when it was told of. -/
def jobLines (p : Proc) : Nat → List (Job × Nat) → Octets
  | _, [] => []
  | later, (j, n) :: rest =>
    let ended := deathOf? p j
    let state := match ended with
      | none => Octets.of "Running"
      | some (.exit 0) => Octets.of "Done"
      | some (.exit k) => Octets.of "Done(" ++ Decimal.ofNat (exitByte k).toNat ++ [')']
      | some (.signal k) => Signal.meaning k.toNat
    let sign := if later = 0 then '+' else if later = 1 then '-' else ' '
    let t := '[' :: Decimal.ofNat (n + 1) ++ [']', ' ', sign, ' '] ++ state
    t ++ List.replicate (33 - t.length) ' ' ++ '\n' ::
      jobLines p (if ended.isSome then later else later + 1) rest

/-- Lists jobs. -/
def jobs : Builtin := withOptions "lp" fun _ _ s =>
  let p := s.proc.reap
  let s := { s with proc := p }
  let s := s.keep (jobLines p 0 s.jobs.zipIdx.reverse)
  { s with jobs := s.jobs.filter fun j => (deathOf? p j).isNone }.done 0

/-- Writes or sets the creation mask. -/
def umask : Builtin := withOptions "S" fun os args s =>
  let digits (n : Nat) : Octets :=
    [Nat.digitChar (n / 64 % 8), Nat.digitChar (n / 8 % 8), Nat.digitChar (n % 8)]
  let letters (n : Nat) : Octets :=
    let n := 7 - n % 8
    (if n / 4 % 2 = 1 then ['r'] else []) ++ (if n / 2 % 2 = 1 then ['w'] else []) ++
      (if n % 2 = 1 then ['x'] else [])
  match args with
  | [] =>
    if os.isEmpty then (s.keep ('0' :: digits s.mask ++ ['\n'])).done 0
    else
      (s.keep (Octets.of "u=" ++ letters (s.mask / 64) ++ Octets.of ",g=" ++
        letters (s.mask / 8) ++ Octets.of ",o=" ++ letters s.mask ++ ['\n'])).done 0
  | a :: _ =>
    if !a.isEmpty && a.all Format.isOctal then
      { s with mask := a.foldl (fun v c => v * 8 + Decimal.digitValue c) 0 % 512 }.done 0
    else s.fail (Octets.of "Illegal mode: " ++ a)

/-- Looks at the next option among some arguments. -/
def getopts : Builtin := withOptions "" fun _ args s =>
  match args with
  | letters :: name :: given =>
    let words := if given.isEmpty then s.params else given
    let index := match s.get? (Octets.of "OPTIND") with
      | some t => (number? t).getD 1
      | none => 1
    let (silent, known) : Bool × Octets := match letters with
      | ':' :: t => (true, t)
      | t => (false, t)
    let finish (index at' : Nat) (found : Octets) (status : Nat) (s : State) : State :=
      let s := s.set (Octets.of "OPTIND") (Decimal.ofNat index)
      let s := { s with optionAt := at' }
      let s := s.set name found
      if s.goes then s.done status else s
    let unsetValue (s : State) : State := s.unset (Octets.of "OPTARG")
    let word := words.getD (index - 1) []
    let stop (index : Nat) (s : State) : State := finish index 0 ['?'] 1 (unsetValue s)
    let at' := if s.optionAt = 0 then 1 else s.optionAt
    if words.length < index || word.head? != some '-' || word.length < 2 then stop index s
    else if word = ['-', '-'] then stop (index + 1) s
    else
      let c := word.getD at' '?'
      let last := word.length ≤ at' + 1
      let (nextIndex, nextAt) := if last then (index + 1, 0) else (index, at' + 1)
      match known.dropWhile fun d => d != c || d = ':' with
      | [] =>
        if silent then
          finish nextIndex nextAt ['?'] 0 (s.set (Octets.of "OPTARG") [c])
        else
          let s := (s.write 2 (Octets.of "Illegal option -" ++ [c, '\n'])).2
          finish nextIndex nextAt ['?'] 0 (unsetValue s)
      | _ :: ':' :: _ =>
        if !last then
          finish (index + 1) 0 [c] 0 (s.set (Octets.of "OPTARG") (word.drop (at' + 1)))
        else
          match words[index]? with
          | some v => finish (index + 2) 0 [c] 0 (s.set (Octets.of "OPTARG") v)
          | none =>
            if silent then finish (index + 1) 0 [':'] 0 (s.set (Octets.of "OPTARG") [c])
            else
              let s := (s.write 2
                (Octets.of "No arg for -" ++ c :: Octets.of " option\n")).2
              finish (index + 1) 0 ['?'] 0 (unsetValue s)
      | _ => finish nextIndex nextAt [c] 0 (s.set (Octets.of "OPTARG") [])
  | _ => s.fail (Octets.of "Usage: getopts optstring var [arg...]")

/-- Writes how long the shell has worked. -/
def times : Builtin := fun _ s =>
  let l := Octets.of "0m0.000000s 0m0.000000s\n"
  (s.keep (l ++ l)).done 0

/-- Ends a function or a script. -/
def return' : Builtin := fun args s =>
  let go (n : Nat) (s : State) : State := { s with skip := .function }.done n
  match args with
  | [] => go s.status s
  | a :: _ => withNumber a s go

/-- Ends the shell. -/
def exit : Builtin := fun args s =>
  let go (s : State) : State := { s with raised := some .exit }
  match args with
  | [] => go s
  | a :: _ => withNumber a s fun n s => go { s with saved := some n }

/-- Leaves loops, or goes on with their next round. -/
def leaveLoops (make : Nat → Skip) : Builtin := fun args s =>
  let go (n : Nat) (s : State) : State :=
    if n = 0 then s.fail (Octets.of "Illegal number: " ++ args.headD [])
    else
      let n := min n s.loops
      if n = 0 then s.done 0 else { s with skip := make n }.done 0
  match args with
  | [] => go 1 s
  | a :: _ => withNumber a s go

end Builtin

end Offspring.Shell
