import Offspring.Command.World
import Offspring.Shell.Reading
/-!
# A shell at some moment

A shell is a process with parameters, functions, traps and options.  A mistake is
written to standard error with the line where it was made, and raised: nothing more is
done until something deals with it.
-/

namespace Offspring.Shell

/-- A parameter with a name. -/
structure Variable where
  name : Octets
  value : Option Octets
  /-- Programs that are started get it. -/
  exported : Bool
  /-- It cannot be changed. -/
  fixed : Bool
  deriving DecidableEq, Repr

/-- What is left out after a command. -/
inductive Skip where
  | nothing
  /-- The rest of so many loops. -/
  | loops (n : Nat)
  /-- The rest of a round of the last of so many loops. -/
  | round (n : Nat)
  /-- The rest of a function. -/
  | function
  deriving DecidableEq, Repr

/-- Why nothing more is done. -/
inductive Raise where
  /-- Something is wrong. -/
  | error
  /-- The shell ends. -/
  | finish
  /-- The shell ends because it was told to. -/
  | exit
  deriving DecidableEq, Repr

/-- Commands in the background: the pids of their processes, the last of which counts. -/
structure Job where
  pids : List Nat
  deriving DecidableEq, Repr

/-- A shell. -/
structure State where
  proc : Proc
  /-- What it was called as. -/
  name : Octets
  params : List Octets
  vars : List Variable
  functions : List (Octets × Command)
  /-- What is to be done on a signal, or at the end for zero; nothing to ignore it. -/
  traps : List (Nat × Octets)
  options : List Char
  /-- The status of the last command. -/
  status : Nat
  /-- The status of the last command whose output was taken. -/
  inner : Nat
  /-- The pid of the shell that others were made from. -/
  root : Nat
  jobs : List Job
  /-- The pid of the last command in the background. -/
  last : Option Nat
  line : Nat
  /-- The builtin that is at work. -/
  builtin : Octets
  loops : Nat
  skip : Skip
  raised : Option Raise
  /-- The status with which an exit without a number ends the shell. -/
  saved : Option Nat
  /-- What builtins have to write still. -/
  out : Octets
  /-- The folder that it works in, as it came there. -/
  folder : Octets
  /-- What new files do not permit. -/
  mask : Nat
  /-- The programs that were looked for and found. -/
  found : List Octets
  texts : List (Nat × Word)
  nextText : Nat
  /-- How many functions are at work. -/
  depth : Nat
  /-- The variables that each function at work has made its own, as they were. -/
  locals : List (List (Octets × Option Variable))
  /-- The next character of an option that is looked at, and where it is. -/
  optionAt : Nat

namespace State

/-- Whether the shell goes on. -/
def goes (s : State) : Bool :=
  s.proc.runs && s.raised.isNone

/-- Whether it goes on with the next command. -/
def goesOn (s : State) : Bool :=
  s.goes && s.skip = .nothing

/-- Whether an option is set. -/
def has (s : State) (c : Char) : Bool :=
  s.options.contains c

/-- Writes to a descriptor. -/
def write (s : State) (fd : Nat) (t : Octets) : Wrote × State :=
  let (r, p) := s.proc.write fd t
  (r, { s with proc := p })

/-- Says that something is wrong. -/
def warn (s : State) (message : Octets) : State :=
  let by' := if s.builtin.isEmpty then [] else s.builtin ++ Octets.of ": "
  (s.write 2 (s.name ++ Octets.of ": " ++ Decimal.ofNat s.line ++ Octets.of ": " ++ by' ++
    message ++ ['\n'])).2

/-- Says what is wrong and raises it. -/
def fail (s : State) (message : Octets) (status : Nat := 2) : State :=
  if !s.goes then s else { s.warn message with raised := some .error, status := status }

/-- The variable of a name. -/
def held? (s : State) (name : Octets) : Option Variable :=
  s.vars.find? fun v => v.name = name

/-- The value of a variable. -/
def get? (s : State) (name : Octets) : Option Octets :=
  (s.held? name).bind Variable.value

/-- Sets a variable as a whole. -/
def put (s : State) (v : Variable) : State :=
  if s.vars.any fun w => w.name = v.name then
    { s with vars := s.vars.map fun w => if w.name = v.name then v else w }
  else { s with vars := s.vars ++ [v] }

/-- Gives a variable a value. -/
def set (s : State) (name value : Octets) : State :=
  let exportsAll := s.has 'a'
  match s.held? name with
  | none => s.put ⟨name, some value, exportsAll, false⟩
  | some v =>
    if v.fixed then s.fail (name ++ Octets.of ": is read only")
    else
      let s := if name = Octets.of "OPTIND" then { s with optionAt := 0 } else s
      s.put { v with value := some value, exported := v.exported || exportsAll }

/-- Removes a variable. -/
def unset (s : State) (name : Octets) : State :=
  match s.held? name with
  | none => s
  | some v =>
    if v.fixed then s.fail (name ++ Octets.of ": is read only")
    else { s with vars := s.vars.filter fun w => w.name != name }

/-- The blanks at which words are split. -/
def separators (s : State) : Octets :=
  (s.get? (Octets.of "IFS")).getD [' ', '\t', '\n']

/-- What stands between joined parameters. -/
def between (s : State) : Octets :=
  match s.get? (Octets.of "IFS") with
  | none => [' ']
  | some t => t.take 1

/-- The options with their names. -/
def optionNames : List (Char × String) :=
  [('e', "errexit"), ('f', "noglob"), ('I', "ignoreeof"), ('i', "interactive"),
    ('m', "monitor"), ('n', "noexec"), ('s', "stdin"), ('x', "xtrace"), ('v', "verbose"),
    ('V', "vi"), ('E', "emacs"), ('C', "noclobber"), ('a', "allexport"), ('b', "notify"),
    ('u', "nounset"), ('p', "privileged")]

/-- The options in the order in which they are shown. -/
def optionOrder : List Char :=
  (optionNames.map Prod.fst).reverse

/-- The value of a parameter that is no list. -/
def param? (s : State) (name : Octets) : Option Octets :=
  match name with
  | ['#'] => some (Decimal.ofNat s.params.length)
  | ['?'] => some (Decimal.ofNat s.status)
  | ['-'] => some (optionOrder.filter s.has)
  | ['$'] => some (Decimal.ofNat s.root)
  | ['!'] => s.last.map Decimal.ofNat
  | ['@'] => if s.params.isEmpty then none else some (Octets.join s.between s.params)
  | ['*'] => if s.params.isEmpty then none else some (Octets.join s.between s.params)
  | c :: _ =>
    if c.isDigit then
      match Decimal.value name with
      | 0 => some s.name
      | n + 1 => s.params[n]?
    else s.get? name
  | [] => none

/-- What programs that are started get. -/
def environment (s : State) : List (Octets × Octets) :=
  s.vars.filterMap fun v =>
    if v.exported then v.value.map fun t => (v.name, t) else none

/-- Ends the shell. -/
def finish (s : State) (d : Death) : State :=
  { s with proc := s.proc.finish d }

/-- A shell of its own in another process. -/
def fork (s : State) : State :=
  { s with
    proc := s.proc.child
    traps := s.traps.filter fun t => t.1 != 0 && t.2.isEmpty
    jobs := [] }

/-- The shell after what another one did. -/
def after (s t : State) : State :=
  { s with proc := s.proc.after t.proc }

end State

/-- The status that a death leaves. -/
def statusOf : Death → Nat
  | .exit n => (exitByte n).toNat
  | .signal n => 128 + n.toNat

end Offspring.Shell
