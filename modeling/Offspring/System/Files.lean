import Offspring.Text.Octets
import Offspring.Text.Path
/-!
# Files

A tree of folders, files, devices and links.  A path is followed from the root or from
a folder piece by piece: a piece must be looked up in a folder, a double dot goes back
up, and a link is replaced by where it leads.  Whatever is made, is made in the folder
that the path leads to without its last piece.
-/

namespace Offspring

/-- Why a call on a path fails. -/
inductive FileError where
  /-- Nothing has that name. -/
  | missing
  /-- What has that name may not be used so. -/
  | denied
  /-- Something has that name already. -/
  | present
  /-- Something on the way is no folder. -/
  | notFolder
  /-- It is a folder. -/
  | folder
  /-- A name, or the whole path, is too long. -/
  | tooLong
  /-- Too many links were followed. -/
  | links
  deriving DecidableEq, Repr

/-- The number of an error. -/
def FileError.number : FileError → Nat
  | missing => 2
  | denied => 13
  | present => 17
  | notFolder => 20
  | folder => 21
  | tooLong => 36
  | links => 40

/-- What is wrong. -/
def FileError.text : FileError → String
  | missing => "No such file or directory"
  | denied => "Permission denied"
  | present => "File exists"
  | notFolder => "Not a directory"
  | folder => "Is a directory"
  | tooLong => "File name too long"
  | links => "Too many levels of symbolic links"

/-- The files that are no files: what is written to them is gone. -/
inductive Device where
  /-- Has nothing to read. -/
  | null
  /-- Has zeros to read, without an end. -/
  | zero
  /-- Has zeros to read, and no room for writing. -/
  | full
  deriving DecidableEq, Repr

/-- What a name can stand for. -/
inductive Entry where
  /-- A file, and whether it may be run. -/
  | file (content : Octets) (runs : Bool)
  | device (d : Device)
  /-- Stands for what the path leads to. -/
  | link (path : Octets)
  /-- Has names of its own; in a sealed folder nothing can be made. -/
  | folder (isSealed : Bool) (entries : List (Octets × Entry))

namespace Entry

/-- A folder with nothing in it. -/
def empty : Entry := .folder false []

/-- Whether it is a folder. -/
def isFolder : Entry → Bool
  | .folder _ _ => true
  | _ => false

/-- The names in a folder, in no order. -/
def entries : Entry → List (Octets × Entry)
  | .folder _ es => es
  | _ => []

/-- What a name stands for in a folder. -/
def find? (e : Entry) (name : Octets) : Option Entry :=
  (e.entries.find? fun x => x.1 = name).map Prod.snd

/-- What a row of names stands for, without links and dots. -/
def get? (e : Entry) : List Octets → Option Entry
  | [] => some e
  | name :: names =>
    match e.find? name with
    | some e => e.get? names
    | none => none

/-- A row of entries in which a name stands for something, or for nothing. -/
def setIn (name : Octets) (x : Option Entry) (es : List (Octets × Entry)) :
    List (Octets × Entry) :=
  match x with
  | none => es.filter fun y => y.1 != name
  | some x =>
    if es.any fun y => y.1 = name then es.map fun y => if y.1 = name then (name, x) else y
    else es ++ [(name, x)]

/-- The tree in which a row of names stands for something, or for nothing. -/
def set (e : Entry) : List Octets → Option Entry → Entry
  | [], x => x.getD e
  | name :: names, x =>
    match e with
    | .folder isSealed es =>
      match names with
      | [] => .folder isSealed (setIn name x es)
      | _ =>
        match e.find? name with
        | some inner => .folder isSealed (setIn name (some (inner.set names x)) es)
        | none => e
    | _ => e

end Entry

/-- A place in a tree: the names that lead to it with what they stand for, innermost
first. -/
abbrev Place := List (Octets × Entry)

namespace Place

/-- What is at a place. -/
def entry (root : Entry) : Place → Entry
  | [] => root
  | x :: _ => x.2

/-- The names that lead to a place. -/
def names (p : Place) : List Octets :=
  (p.map Prod.fst).reverse

end Place

/-- The longest name of a file, in bytes. -/
def nameLimit : Nat := 255

/-- The longest path, in bytes. -/
def pathLimit : Nat := 4095

/-- A tree of files. -/
structure Files where
  root : Entry

namespace Files

/-- The pieces of a path that matter: a slash at the end asks for a folder. -/
def piecesOf (path : Octets) : List Octets :=
  (pieces '/' path).filter fun p => !p.isEmpty

/-- Whether a path asks for a folder by its end. -/
def wantsFolder (path : Octets) : Bool :=
  path.getLast? == some '/'

/-- Follows pieces from a place; the last one is followed through a link only if
`through`.  A path takes as many rounds as it has pieces, and links take more. -/
def follow (f : Files) (through : Bool) : Nat → Place → List Octets → Except FileError Place
  | 0, _, _ => .error .links
  | _ + 1, at', [] => .ok at'
  | n + 1, at', p :: ps =>
    let here := at'.entry f.root
    if !here.isFolder then .error .notFolder
    else if p = ['.'] then f.follow through n at' ps
    else if p = ['.', '.'] then f.follow through n at'.tail ps
    else if nameLimit < p.length then .error .tooLong
    else
      match here.find? p with
      | none => .error .missing
      | some (.link path) =>
        if through || !ps.isEmpty then
          let start := if textPath.isAbsolute path then [] else at'
          f.follow through n start (piecesOf path ++ ps)
        else .ok ((p, .link path) :: at')
      | some e => f.follow through n ((p, e) :: at') ps

/-- How many rounds are enough for some pieces and the links among them. -/
def rounds (ps : List Octets) : Nat :=
  2 * ps.length + 200

/-- The place of a row of names. -/
def placeOf (f : Files) (names : List Octets) : Place :=
  match f.follow true (rounds names) [] names with
  | .ok p => p
  | .error _ => []

/-- Where pieces are followed from. -/
def startOf (f : Files) (cwd : List Octets) (path : Octets) : Place :=
  if textPath.isAbsolute path then [] else f.placeOf cwd

/-- Follows a path, seen from a folder. -/
def locate (f : Files) (cwd : List Octets) (path : Octets) (through : Bool) :
    Except FileError Place :=
  if path.isEmpty then .error .missing
  else if pathLimit < path.length then .error .tooLong
  else
    let ps := piecesOf path
    match f.follow (through || wantsFolder path) (rounds ps) (f.startOf cwd path) ps with
    | .error e => .error e
    | .ok p =>
      if wantsFolder path && !(p.entry f.root).isFolder then .error .notFolder else .ok p

/-- What a path leads to. -/
def lookup (f : Files) (cwd : List Octets) (path : Octets) : Except FileError Entry :=
  (f.locate cwd path true).map fun p => p.entry f.root

/-- Whether a path leads to a folder. -/
def isFolder (f : Files) (cwd : List Octets) (path : Octets) : Bool :=
  match f.lookup cwd path with
  | .ok e => e.isFolder
  | .error _ => false

/-- The folder in which a path names something, and the last piece. -/
def parent (f : Files) (start : Place) (ps : List Octets) :
    Except FileError (Place × Octets) :=
  match f.follow true (rounds ps) start ps.dropLast with
  | .error e => .error e
  | .ok p =>
    let last := ps.getLastD ['.']
    if !(p.entry f.root).isFolder then .error .notFolder
    else if nameLimit < last.length then .error .tooLong
    else .ok (p, last)

/-- The tree with something at a place. -/
def put (f : Files) (p : Place) (name : Octets) (x : Option Entry) : Files :=
  ⟨f.root.set (p.names ++ [name]) x⟩

/-- Makes a new entry in a folder. -/
def make (f : Files) (start : Place) (ps : List Octets) (x : Entry) :
    Except FileError Files :=
  match f.parent start ps with
  | .error e => .error e
  | .ok (p, last) =>
    if last = ['.'] || last = ['.', '.'] || ((p.entry f.root).find? last).isSome then
      .error .present
    else
      match p.entry f.root with
      | .folder true _ => .error .missing
      | _ => .ok (f.put p last (some x))

/-- Opens a path for writing from the start, seen from a folder: what a file held is gone, and
a file is made if nothing is there. -/
def create (f : Files) (cwd : List Octets) (path : Octets) : Except FileError Files :=
  match f.locate cwd path true with
  | .ok p =>
    match p.entry f.root with
    | .folder _ _ => .error .folder
    | .link _ => .error .links
    | .device _ => .ok f
    | .file _ runs => .ok ⟨f.root.set p.names (some (.file [] runs))⟩
  | .error .missing =>
    if path.isEmpty then .error .missing
    else if wantsFolder path then .error .folder
    else f.make (f.startOf cwd path) (piecesOf path) (.file [] false)
  | .error e => .error e

/-- The pieces of a path without its last component, if it has one. -/
def without (ps : List Octets) : Option (List Octets) :=
  let trim (l : List Octets) : List Octets :=
    (l.reverse.dropWhile fun p => p.isEmpty || p = ['.']).reverse
  match trim ps with
  | [] => none
  | l => some (trim l.dropLast)

/-- Makes a folder and those on the way to it that are missing, seen from the folder of some
names.  The folders on the way are made first, as many rounds as there are pieces. -/
def makeFolders (f : Files) (start : List Octets) :
    Nat → List Octets → Except FileError Unit × Files
  | 0, _ => (.error .missing, f)
  | n + 1, ps =>
    let settle (f : Files) (e : FileError) : Except FileError Unit × Files :=
      match f.follow true (rounds ps) (f.placeOf start) ps with
      | .ok p => if (p.entry f.root).isFolder then (.ok (), f) else (.error e, f)
      | .error _ => (.error e, f)
    match f.make (f.placeOf start) ps .empty with
    | .ok f => (.ok (), f)
    | .error .missing =>
      match without ps with
      | none => (.error .missing, f)
      | some up =>
        match f.makeFolders start n up with
        | (.error e, f) => (.error e, f)
        | (.ok (), f) =>
          match f.make (f.placeOf start) ps .empty with
          | .ok f => (.ok (), f)
          | .error e => settle f e
    | .error e => settle f e

/-- Makes the folder of an absolute path and those on the way to it. -/
def makeAll (f : Files) (path : Octets) : Except FileError Unit × Files :=
  if pathLimit < path.length then (.error .tooLong, f)
  else
    let ps := piecesOf path
    f.makeFolders [] (ps.length + 1) ps

end Files

end Offspring
