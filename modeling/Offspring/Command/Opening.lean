import Offspring.Command.World
/-!
# Opening files

A process opens a path for reading, for writing or for both.  What is to be written is
made if nothing is there.  Some paths stand for what a process has open already.
-/

namespace Offspring

/-- What a file is opened for. -/
inductive Access where
  | read
  /-- What the file held is gone. -/
  | write
  /-- Everything is written at the end. -/
  | append
  | both
  deriving DecidableEq, Repr

namespace Proc

/-- The descriptor that a path stands for. -/
def descriptorOf (path : Octets) : Option Nat :=
  let number (t : Octets) : Option Nat :=
    if !t.isEmpty && t.all Char.isDigit then some (Decimal.value t) else none
  if path = Octets.of "/dev/stdin" then some 0
  else if path = Octets.of "/dev/stdout" then some 1
  else if path = Octets.of "/dev/stderr" then some 2
  else if (Octets.of "/dev/fd/").isPrefixOf path then number (path.drop 8)
  else if (Octets.of "/proc/self/fd/").isPrefixOf path then number (path.drop 14)
  else none

/-- A stream of a file with some names. -/
def streamOf (p : Proc) (names : List Octets) (a : Access) : Stream × Proc :=
  let (n, w) := p.world.fresh
  let w := if a = .write then w.setContent names [] else w
  (.file n, { p with world := w.setOpened n ⟨names, 0, a = .append⟩ })

/-- Opens a path. -/
def open' (p : Proc) (path : Octets) (a : Access) : Except FileError (Stream × Proc) :=
  match descriptorOf path with
  | some fd =>
    match p.stream? fd with
    | some s => .ok (s, p)
    | none => .error .missing
  | none =>
    let files := p.world.files
    match files.locate p.cwd path true with
    | .ok place =>
      match place.entry files.root with
      | .folder _ _ => if a = .read then .ok (.folder, p) else .error .folder
      | .device d => .ok (.device d, p)
      | .link _ => .error .links
      | .file _ _ => .ok (p.streamOf place.names a)
    | .error .missing =>
      if a = .read || path.isEmpty then .error .missing
      else if Files.wantsFolder path then .error .folder
      else
        let ps := Files.piecesOf path
        let start := files.startOf p.cwd path
        match files.make start ps (.file [] false) with
        | .error e => .error e
        | .ok files =>
          let p := { p with world := { p.world with files := files } }
          match files.locate p.cwd path true with
          | .ok place => .ok (p.streamOf place.names a)
          | .error e => .error e
    | .error e => .error e

/-- Reads a file to its end. -/
def readFile (p : Proc) (path : Octets) : Except FileError (Octets × Proc) :=
  match p.open' path .read with
  | .error e => .error e
  | .ok (.folder, _) => .error .folder
  | .ok (s, q) =>
    -- The descriptor is out of the reach of all others.
    let fd := 1000000
    match (q.setFd fd (some s)).readAll fd with
    | (.bytes t, q) => .ok (t, q.setFd fd none)
    | (_, q) => .ok ([], q.setFd fd none)

end Proc

end Offspring
