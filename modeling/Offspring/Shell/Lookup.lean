import Offspring.Shell.Builtin
/-!
# Finding commands

A name stands for a function, for something that the shell does itself, or for a program,
which is looked for in the folders of a list.  A path stands for a program only.
-/

namespace Offspring.Shell.Lookup

/-- The list of folders of programs when there is no other. -/
def usualFolders : Octets :=
  Octets.of "/usr/local/sbin:/usr/local/bin:/usr/sbin:/usr/bin:/sbin:/bin"

/-- The list of folders of programs. -/
def folders (s : State) : Octets :=
  (s.get? (Octets.of "PATH")).getD []

/-- Whether a name is a path. -/
def isPath (name : Octets) : Bool :=
  name.contains '/'

/-- The paths that a name may stand for. -/
def candidates (list name : Octets) : List Octets :=
  (pieces ':' list).map fun d => if d.isEmpty then name else d ++ '/' :: name

/-- The path of a program, or why there is none. -/
def search (files : Files) (cwd : List Octets) (list name : Octets) : Except FileError Octets :=
  go .missing (candidates list name)
where
  /-- The first path that leads to a file that may be run, or else the last reason. -/
  go (e : FileError) : List Octets → Except FileError Octets
    | [] => .error e
    | path :: rest =>
      match files.lookup cwd path with
      | .ok (.file _ true) => .ok path
      | .ok _ => go .denied rest
      | .error .missing => go e rest
      | .error .notFolder => go e rest
      | .error e => go e rest

/-- What the shell says about a program that cannot be run. -/
def message (e : FileError) : String :=
  match e with
  | .missing => "not found"
  | .notFolder => "not found"
  | e => e.text

/-- The status of a program that cannot be run. -/
def status (e : FileError) : Nat :=
  match e with
  | .missing => 127
  | .notFolder => 127
  | .tooLong => 127
  | .links => 127
  | _ => 126

/-- What the shell says about a file that cannot be opened; `makes` if it would be made. -/
def openMessage (makes : Bool) (e : FileError) : String :=
  match e with
  | .missing => if makes then "Directory nonexistent" else "No such file"
  | .notFolder => if makes then "Directory nonexistent" else "No such file"
  | e => e.text

/-- What the shell does itself. -/
inductive Own where
  | builtin (run : Builtin)
  /-- Runs its arguments as a script. -/
  | eval
  /-- Runs a file as a script. -/
  | dot
  /-- Becomes a program. -/
  | exec
  /-- Runs its arguments as a command that is no function. -/
  | command
  /-- Says what names stand for. -/
  | type
  /-- Remembers where programs are. -/
  | hash

/-- What the shell does itself under a name. -/
def own? (name : Octets) : Option Own :=
  (table.find? fun x => name = Octets.of x.1).map Prod.snd
where
  /-- All that the shell does itself. -/
  table : List (String × Own) :=
    [(":", .builtin (Builtin.nothing 0)), ("true", .builtin (Builtin.nothing 0)),
      ("false", .builtin (Builtin.nothing 1)), ("echo", .builtin Builtin.echo),
      ("printf", .builtin Builtin.printf), ("test", .builtin Builtin.test),
      ("[", .builtin Builtin.test), ("cd", .builtin Builtin.cd),
      ("chdir", .builtin Builtin.cd), ("pwd", .builtin Builtin.pwd),
      ("export", .builtin Builtin.export'), ("readonly", .builtin Builtin.readonly),
      ("unset", .builtin Builtin.unset), ("local", .builtin Builtin.local'),
      ("set", .builtin Builtin.set), ("shift", .builtin Builtin.shift),
      ("read", .builtin Builtin.read), ("kill", .builtin Builtin.kill),
      ("wait", .builtin Builtin.wait), ("jobs", .builtin Builtin.jobs),
      ("trap", .builtin Builtin.trap), ("umask", .builtin Builtin.umask),
      ("getopts", .builtin Builtin.getopts), ("times", .builtin Builtin.times),
      ("return", .builtin Builtin.return'), ("exit", .builtin Builtin.exit),
      ("break", .builtin (Builtin.leaveLoops .loops)),
      ("continue", .builtin (Builtin.leaveLoops .round)),
      ("fg", .builtin fun _ s => s.fail (Octets.of "No current job")),
      ("bg", .builtin fun _ s => s.fail (Octets.of "No current job")),
      ("ulimit", .builtin fun _ s => (s.keep (Octets.of "unlimited\n")).done 0),
      ("eval", .eval), (".", .dot), ("exec", .exec), ("command", .command), ("type", .type),
      ("hash", .hash)]

/-- Whether the mistakes of a command end the shell. -/
def isSpecial (name : Octets) : Bool :=
  Reading.specialBuiltins.contains name

/-- What `type` and `command` tell about a name: a text, or none if it stands for nothing. -/
def describe (brief : Bool) (name : Octets) (s : State) : Option Octets × State :=
  let said (t : Octets) : Octets := if brief then name else name ++ t
  if Reading.reservedWords.contains name then
    (some (said (Octets.of " is a shell keyword")), s)
  else if s.functions.any fun f => f.1 = name then
    (some (said (Octets.of " is a shell function")), s)
  else if (own? name).isSome then
    (some (said (Octets.of (if isSpecial name then " is a special shell builtin"
      else " is a shell builtin"))), s)
  else if isPath name then
    match s.proc.world.files.lookup s.proc.cwd name with
    | .ok _ => (some (if brief then name else name ++ Octets.of " is " ++ name), s)
    | _ => (none, s)
  else
    match search s.proc.world.files s.proc.cwd (folders s) name with
    | .error _ => (none, s)
    | .ok path =>
      let known := s.found.contains name
      let s' := if known then s else { s with found := name :: s.found }
      let t := if known then Octets.of " is a tracked alias for " else Octets.of " is "
      (some (if brief then path else name ++ t ++ path), s')

end Offspring.Shell.Lookup
