import Offspring.Command.Condition
import Offspring.Command.Utility.Input
/-!
# Utilities for files and folders

These make, remove, copy and list what is in the tree of files.
-/

namespace Offspring.Utility

/-- Does something to each of some paths, and ends badly if anything is wrong. -/
def eachPath (name : Octets) (paths : List Octets) (p : Proc)
    (act : Octets → Files → Except Octets Files) : Proc :=
  let one (r : Bool × Proc) (path : Octets) : Bool × Proc :=
    match act path r.2.world.files with
    | .ok files => (r.1, { r.2 with world := { r.2.world with files := files } })
    | .error e => (true, r.2.complain name e)
  let (bad, p) := paths.foldl one (false, p)
  p.exit (if bad then 1 else 0)

/-- What cannot be done with a path, and why. -/
def refusal (what : String) (path : Octets) (e : FileError) : Octets :=
  Octets.of what ++ Quoting.always path ++ Octets.of (": " ++ e.text)

/-- Makes folders. -/
def mkdir : Utility := withOptions 1 [.flag 'p' "parents", .value 'm' "mode",
    .flag 'v' "verbose"] false fun name g p =>
  if g.operands.isEmpty then p.misuse name (Octets.of "missing operand") 1
  else
    eachPath name g.operands p fun path files =>
      let start := files.startOf p.cwd path
      let ps := Files.piecesOf path
      if g.has 'p' then
        match files.makeFolders start.names (ps.length + 1) ps with
        | (.ok (), files) => .ok files
        | (.error e, _) => .error (refusal "cannot create directory " path e)
      else
        match files.make start ps .empty with
        | .ok files => .ok files
        | .error e => .error (refusal "cannot create directory " path e)

/-- Removes folders in which nothing is. -/
def rmdir : Utility := withOptions 1 [.flag 'p' "parents", .flag 'v' "verbose"] false
    fun name g p =>
  if g.operands.isEmpty then p.misuse name (Octets.of "missing operand") 1
  else
    eachPath name g.operands p fun path files =>
      let failed (why : String) : Except Octets Files :=
        .error (Octets.of "failed to remove " ++ Quoting.always path ++ Octets.of (": " ++ why))
      match files.locate p.cwd path false with
      | .error e => failed e.text
      | .ok place =>
        match place.entry files.root with
        | .folder _ [] => .ok ⟨files.root.set place.names none⟩
        | .folder _ _ => failed "Directory not empty"
        | _ => failed FileError.notFolder.text

/-- Removes files. -/
def rm : Utility := withOptions 1 [.flag 'f' "force", .flag 'r' "recursive",
    ⟨some 'R', none, false, 'r'⟩, .flag 'd' "dir", .flag 'v' "verbose", .letterOnly 'i'] false
    fun name g p =>
  if g.operands.isEmpty then
    if g.has 'f' then p.exit 0 else p.misuse name (Octets.of "missing operand") 1
  else
    eachPath name g.operands p fun path files =>
      match files.locate p.cwd path false with
      | .error e =>
        if g.has 'f' && (e = .missing || e = .notFolder) then .ok files
        else .error (refusal "cannot remove " path e)
      | .ok place =>
        let gone : Files := ⟨files.root.set place.names none⟩
        match place.entry files.root with
        | .folder _ es =>
          if g.has 'r' || (g.has 'd' && es.isEmpty) then .ok gone
          else .error (refusal "cannot remove " path .folder)
        | _ => .ok gone

/-- Makes files with nothing in them. -/
def touch : Utility := withOptions 1 [.flag 'c' "no-create", .letterOnly 'a', .letterOnly 'm',
    .value 'd' "date", .value 't' "time"] false fun name g p =>
  if g.operands.isEmpty then p.misuse name (Octets.of "missing file operand") 1
  else
    eachPath name g.operands p fun path files =>
      match files.locate p.cwd path true with
      | .ok _ => .ok files
      | .error .missing =>
        if g.has 'c' then .ok files
        else
          match files.make (files.startOf p.cwd path) (Files.piecesOf path) (.file [] false) with
          | .ok files => .ok files
          | .error e => .error (refusal "cannot touch " path e)
      | .error e => .error (refusal "cannot touch " path e)

/-- Whether a change of permissions lets files be run. -/
def letsRun (mode : Octets) (runs : Bool) : Bool :=
  if mode.all Char.isDigit then
    mode.any fun c => Decimal.digitValue c % 2 = 1
  else if mode.contains 'x' then mode.contains '+' || mode.contains '='
  else runs

/-- Changes permissions.  A mode may start with a dash. -/
def chmod : Utility := fun name args p =>
  let isMode (a : Octets) : Bool := match a with
    | '-' :: c :: _ => ['r', 'w', 'x', 'X', 's', 't'].contains c
    | _ => false
  let modes := (args.filter isMode).take 1
  (withOptions 1 [.flag 'R' "recursive", .flag 'f' "silent", .flag 'v' "verbose"] true
    fun name g p =>
  match modes ++ g.operands with
  | [] => p.misuse name (Octets.of "missing operand") 1
  | [mode] => p.misuse name (Octets.of "missing operand after " ++ Quoting.text mode) 1
  | mode :: paths =>
    eachPath name paths p fun path files =>
      match files.locate p.cwd path true with
      | .error e => .error (refusal "cannot access " path e)
      | .ok place =>
        match place.entry files.root with
        | .file t runs => .ok ⟨files.root.set place.names (some (.file t (letsRun mode runs)))⟩
        | _ => .ok files) name (args.filter fun a => !isMode a) p

/-- The path of something put into a folder, or the path itself. -/
def intoFolder (files : Files) (cwd : List Octets) (source target : Octets) : Octets :=
  if files.isFolder cwd target then target ++ ['/'] ++ baseOf source else target

/-- Copies files, or moves them. -/
def copying (moves : Bool) : Utility := withOptions 1 [.flag 'f' "force", .flag 'r' "recursive",
    ⟨some 'R', none, false, 'r'⟩, .flag 'p' "preserve", .flag 'a' "archive",
    .flag 'v' "verbose", .flag 'n' "no-clobber"] false fun name g p =>
  match g.operands with
  | [] => p.misuse name (Octets.of "missing file operand") 1
  | [a] =>
    p.misuse name (Octets.of "missing destination file operand after " ++ Quoting.always a) 1
  | operands =>
    let target := operands.getLastD []
    let sources := operands.dropLast
    if 1 < sources.length && !p.world.files.isFolder p.cwd target then
      (p.complain name (Octets.of "target " ++ Quoting.always target ++
        Octets.of (if p.world.files.lookup p.cwd target |>.isOk then ": Not a directory"
          else ": No such file or directory"))).exit 1
    else
      eachPath name sources p fun source files =>
        let goal := intoFolder files p.cwd source target
        match files.locate p.cwd source (!moves) with
        | .error e => .error (refusal "cannot stat " source e)
        | .ok place =>
          let x := place.entry files.root
          if x.isFolder && !moves && !g.has 'r' && !g.has 'a' then
            .error (Octets.of "-r not specified; omitting directory " ++ Quoting.always source)
          else
            let files' : Files := if moves then ⟨files.root.set place.names none⟩ else files
            match files'.parent (files'.startOf p.cwd goal) (Files.piecesOf goal) with
            | .error e =>
              .error (if moves then
                Octets.of "cannot move " ++ Quoting.always source ++ Octets.of " to " ++
                  Quoting.always goal ++ Octets.of (": " ++ e.text)
                else refusal "cannot create regular file " goal e)
            | .ok (folder, last) => .ok (files'.put folder last (some x))

/-- Makes links. -/
def ln : Utility := withOptions 1 [.flag 's' "symbolic", .flag 'f' "force",
    .flag 'n' "no-dereference"] false fun name g p =>
  match g.operands with
  | [source, goal] =>
    eachPath name [goal] p fun goal files =>
      let goal := intoFolder files p.cwd source goal
      let failed (e : FileError) : Octets :=
        Octets.of (if g.has 's' then "failed to create symbolic link "
          else "failed to create hard link ") ++ Quoting.always goal ++
          Octets.of (": " ++ e.text)
      let x : Except FileError Entry :=
        if g.has 's' then .ok (.link source) else files.lookup p.cwd source
      match x with
      | .error e => .error (refusal "failed to access " source e)
      | .ok x =>
        let files := if g.has 'f' then
            match files.locate p.cwd goal false with
            | .ok place => ⟨files.root.set place.names none⟩
            | .error _ => files
          else files
        match files.make (files.startOf p.cwd goal) (Files.piecesOf goal) x with
        | .ok files => .ok files
        | .error e => .error (failed e)
  | _ => p.misuse name (Octets.of "missing file operand") 1

/-- Tells where links lead. -/
def readlink : Utility := withOptions 1 [.flag 'n' "no-newline", .flag 'f' "canonicalize",
    .flag 'e' "canonicalize-existing"] false fun name g p =>
  match g.operands with
  | [] => p.misuse name (Octets.of "missing operand") 1
  | path :: _ =>
    let whole := g.has 'f' || g.has 'e'
    let finish : Octets := if g.has 'n' then [] else ['\n']
    match p.world.files.locate p.cwd path whole with
    | .error _ => p.exit 1
    | .ok place =>
      if whole then
        p.say name ('/' :: Octets.join ['/'] place.names ++ finish) 0
      else
        match place.entry p.world.files.root with
        | .link target => p.say name (target ++ finish) 0
        | _ => p.exit 1

/-- Lists folders. -/
def ls : Utility := withOptions 2 [.flag 'a' "all", .flag 'A' "almost-all", .letterOnly '1',
    .flag 'd' "directory", .letterOnly 'C', .flag 'r' "reverse", .flag 'F' "classify"] false
    fun name g p =>
  let files := p.world.files
  let mark (e : Entry) : Octets :=
    if !g.has 'F' then []
    else match e with
      | .folder _ _ => ['/']
      | .link _ => ['@']
      | .file _ true => ['*']
      | _ => []
  let inOrder (l : List (Octets × Entry)) : List (Octets × Entry) :=
    let l := l.mergeSort fun a b => Shell.Pattern.precedes a.1 b.1
    if g.has 'r' then l.reverse else l
  let listing (e : Entry) : Octets :=
    let extra := if g.has 'a' then [(['.'], Entry.empty), (['.', '.'], Entry.empty)] else []
    let shown := e.entries.filter fun x => g.has 'a' || g.has 'A' || x.1.head? != some '.'
    (inOrder (extra ++ shown)).flatMap fun x => x.1 ++ mark x.2 ++ ['\n']
  let operands := if g.operands.isEmpty then [['.']] else g.operands
  let (bad, p) := operands.foldl (fun r path =>
    match files.lookup r.2.cwd path with
    | .ok _ => r
    | .error e => (true, r.2.complain name (refusal "cannot access " path e))) (false, p)
  let found := operands.filterMap fun path =>
    match files.lookup p.cwd path with
    | .ok e => some (path, e)
    | .error _ => none
  let single := found.filter fun x => g.has 'd' || !x.2.isFolder
  let folders := inOrder (found.filter fun x => !g.has 'd' && x.2.isFolder)
  let head := (inOrder single).flatMap fun x => x.1 ++ mark x.2 ++ ['\n']
  let many := 1 < operands.length
  let blocks := folders.map fun x =>
    (if many then x.1 ++ Octets.of ":\n" else []) ++ listing x.2
  let all := (if single.isEmpty then [] else [head]) ++ blocks
  p.say name (Octets.join ['\n'] all) (if bad then 2 else 0)

/-- Tests a condition. -/
def test : Utility := fun name args p =>
  let brackets := (baseOf name) = ['[']
  if brackets && args.getLast? != some [']'] then
    (p.complain name (Octets.of "missing ']'")).exit 2
  else
    match Condition.evaluate p (if brackets then args.dropLast else args) with
    | .ok b => p.exit (if b then 0 else 1)
    | .error (.illegalNumber w) =>
      (p.complain name (Octets.of "invalid integer " ++ Quoting.text w)).exit 2
    | .error e => (p.complain name e.message).exit 2

end Offspring.Utility
