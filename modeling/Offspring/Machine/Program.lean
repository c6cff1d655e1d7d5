import Offspring.Command.Utility.Input
import Offspring.Command.Utility.Launch
import Offspring.Command.Utility.Tree
import Offspring.Shell.Program
/-!
# Programs in files

A process becomes the program of a path when that leads to a file that may be run.  The
file of a utility holds a mark and its name, so that a copy under another name is the
same program.  Every other file is a script: of the interpreter that its first line names,
or of the shell.
-/

namespace Offspring.Machine

/-- How the file of a utility starts; no text starts so. -/
def mark : Octets :=
  '\x7f' :: 'E' :: 'L' :: 'F' :: ['\xff']

/-- The content of the file of a utility. -/
def contentOf (name : String) : Octets :=
  mark ++ Octets.of name

/-- The utilities, for processes that become programs so. -/
def utilities (become : Shell.Become) : List (String × Utility) :=
  [("sh", Shell.main become), ("true", Utility.true'), ("false", Utility.false'),
    ("echo", Utility.echo), ("printf", Utility.printf), ("yes", Utility.yes),
    ("seq", Utility.seq), ("sleep", Utility.sleep), ("basename", Utility.basename),
    ("dirname", Utility.dirname), ("pwd", Utility.pwd), ("printenv", Utility.printenv),
    ("uname", Utility.uname), ("whoami", Utility.whoami), ("id", Utility.id),
    ("cat", Utility.cat), ("head", Utility.head), ("tail", Utility.tail),
    ("wc", Utility.wc), ("tr", Utility.tr), ("sort", Utility.sort),
    ("uniq", Utility.uniq), ("cut", Utility.cut), ("tee", Utility.tee),
    ("rev", Utility.rev), ("tac", Utility.tac), ("mkdir", Utility.mkdir),
    ("rmdir", Utility.rmdir), ("rm", Utility.rm), ("touch", Utility.touch),
    ("chmod", Utility.chmod), ("cp", Utility.copying false), ("mv", Utility.copying true),
    ("ln", Utility.ln), ("readlink", Utility.readlink), ("ls", Utility.ls),
    ("test", Utility.test), ("[", Utility.test),
    ("env", Utility.env become), ("nice", Utility.nice become),
    ("nohup", Utility.nohup become), ("setsid", Utility.setsid become),
    ("timeout", Utility.timeout become), ("xargs", Utility.xargs become),
    ("kill", Utility.kill)]

/-- The names of the utilities. -/
def names : List String :=
  (utilities fun _ _ _ => .error .missing).map Prod.fst

/-- The utility whose file has some content. -/
def utility? (become : Shell.Become) (content : Octets) : Option Utility :=
  if mark.isPrefixOf content then
    let name := content.drop mark.length
    ((utilities become).find? fun u => name = Octets.of u.1).map Prod.snd
  else none

/-- The path of the shell. -/
def shellPath : Octets :=
  Octets.of "/bin/sh"

/-- The interpreter of a script, with the argument that it gets before the script, if there
is one. -/
def interpreter (content : Octets) : Octets × List Octets :=
  let isBlank (c : Char) : Bool := c = ' ' || c = '\t'
  match content with
  | '#' :: '!' :: t =>
    let line := (t.takeWhile fun c => c != '\n').dropWhile isBlank
    let line := (line.reverse.dropWhile isBlank).reverse
    let path := line.takeWhile fun c => !isBlank c
    let argument := (line.drop path.length).dropWhile isBlank
    if path.isEmpty then (shellPath, [])
    else (path, if argument.isEmpty then [] else [argument])
  | _ => (shellPath, [])

/-- How often one program becomes another, one inside the other. -/
def depth : Nat := 100

/-- The content of the file that may be run and to which a path leads. -/
def runnable (files : Files) (cwd : List Octets) (path : Octets) : Except FileError Octets :=
  match files.lookup cwd path with
  | .error e => .error e
  | .ok (.file content true) => .ok content
  | .ok _ => .error .denied

/-- Becomes the program of a path.  The first argument is the name that it gets.  A process
that becomes too many programs, one for the other, gets no further. -/
def become : Nat → Shell.Become
  | 0 => fun _ _ p => .ok p.stick
  | n + 1 => fun path args p =>
    match runnable p.world.files p.cwd path with
    | .error e => .error e
    | .ok content =>
      match utility? (become n) content with
      | some run => .ok (run (args.headD []) args.tail p.anew)
      | none =>
        let (by', given) := interpreter content
        become n by' (by' :: given ++ path :: args.tail) p

end Offspring.Machine
