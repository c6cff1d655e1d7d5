import Offspring.Shell.Exec
/-!
# The shell as a program

The shell reads its options and then a script: an argument, a file or standard input.
-/

namespace Offspring.Shell

namespace State

/-- The variables that a shell starts with. -/
def variablesOf (p : Proc) : List Variable :=
  let own := [("IFS", " \t\n"), ("OPTIND", "1"), ("PS1", "# "), ("PS2", "> "), ("PS4", "+ ")]
  let started := own.map fun v => (⟨Octets.of v.1, some (Octets.of v.2), false, false⟩ : Variable)
  let given := (p.environment.filter fun v => isName v.1 && v.1 != Octets.of "IFS").map
    fun v => (⟨v.1, some v.2, true, false⟩ : Variable)
  let path : List Variable :=
    if given.any fun v => v.name = Octets.of "PATH" then []
    else [⟨Octets.of "PATH", some Lookup.usualFolders, false, false⟩]
  let others := (started ++ path).filter fun v => given.all fun w => w.name != v.name
  others ++ given

/-- Where a shell is at its start: where it was told to be, if that is true. -/
def folderOf (p : Proc) : Octets :=
  let here := Builtin.pathOf p.cwd
  match p.environment.find? fun v => v.1 = Octets.of "PWD" with
  | some (_, t) =>
    match textPath.isAbsolute t, p.world.files.locate [] t true with
    | true, .ok place => if place.names = p.cwd then t else here
    | _, _ => here
  | none => here

/-- A shell that starts in a process. -/
def start (name : Octets) (p : Proc) : State :=
  let parent := match p.world.task? p.pid with
    | some t => t.parent
    | none => 0
  let s : State :=
    { proc := p, name := name, params := [], vars := variablesOf p, functions := [],
      traps := [], options := [], status := 0, inner := 0, root := p.pid, jobs := [],
      last := none, line := 0, builtin := [], loops := 0, skip := .nothing, raised := none,
      saved := none, out := [], folder := folderOf p, mask := 18, found := [], texts := [],
      nextText := 0, depth := 0, locals := [], optionAt := 0 }
  let s := s.set (Octets.of "PPID") (Decimal.ofNat parent)
  Builtin.setExported s (Octets.of "PWD") s.folder

end State

/-- What the shell is told to do at its start. -/
structure Invocation where
  /-- The script is an argument. -/
  command : Bool
  /-- The arguments that are left. -/
  rest : List Octets

/-- Reads the options of the shell.  Every round takes an argument. -/
def invocation : Nat → Bool → List Octets → State → Invocation × State
  | 0, command, args, s => (⟨command, args⟩, s)
  | n + 1, command, args, s =>
    if !s.goes then (⟨command, args⟩, s)
    else
      match args with
      | ['-'] :: rest => (⟨command, rest⟩, s)
      | ['-', '-'] :: rest => (⟨command, rest⟩, s)
      | (sign :: t) :: rest =>
        if sign = '-' || sign = '+' then
          let on := sign = '-'
          let letters := t.filter fun c => c != 'o' && c != 'l' && !(on && c = 'c')
          let s := Builtin.setLetters on letters s
          let command := command || (on && t.contains 'c')
          if !s.goes then (⟨command, rest⟩, s)
          else if t.contains 'o' then
            match rest with
            | [] => (⟨command, []⟩, s.keep (Builtin.settings (!on) s))
            | name :: rest => invocation n command rest (Builtin.setNamed on name s)
          else invocation n command rest s
        else (⟨command, args⟩, s)
      | args => (⟨command, args⟩, s)

/-- Runs a script that is read from standard input. -/
def fromInput (run : Run) (s : State) : State :=
  match s.proc.readAll 0 with
  | (.bytes t, p) => Exec.script run .plain t { s with proc := p }
  | (_, p) => { s with proc := p }

/-- The shell as a program. -/
def main (become : Become) : Utility := fun name args p =>
  let run := Exec.command become
  let s := State.start name p
  let (told, s) := invocation (args.length + 1) false args s
  let s :=
    if !s.goes then s
    else if told.command then
      match told.rest with
      | [] => s.fail (Octets.of "-c requires an argument")
      | t :: rest =>
        let s := match rest with
          | zero :: params => { s with name := zero, params := params }
          | [] => s
        let s := Exec.script run .plain t s
        if s.has 's' then fromInput run s else s
    else if s.has 's' then fromInput run { s with params := told.rest }
    else
      match told.rest with
      | [] => fromInput run { s with options := 's' :: s.options }
      | path :: params =>
        match s.proc.readFile path with
        | .error .folder => s
        | .error e =>
          s.fail (Octets.of "cannot open " ++ path ++
            Octets.of (": " ++ Lookup.openMessage false e))
        | .ok (t, q) =>
          Exec.script run .plain t { s with proc := q, name := path, params := params }
  (Exec.leave run s).proc

end Offspring.Shell
