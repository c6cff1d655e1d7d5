import Offspring.Command.Utility.Output
import Offspring.Shell.Pattern
/-!
# Utilities that read

These read files, or standard input when none is named, and write what they make of
them.
-/

namespace Offspring

namespace Proc

/-- Puts the last bytes that were read from a file back. -/
def unread (p : Proc) (fd count : Nat) : Proc :=
  match p.stream? fd with
  | some (.file n) =>
    match p.world.opened? n with
    | some o =>
      { p with world := p.world.setOpened n { o with position := o.position - count } }
    | none => p
  | _ => p

/-- Where a path is read when it is opened: standard input, or a descriptor that is out of
the reach of all others. -/
def reading (p : Proc) (path : Octets) : Except FileError (Nat × Proc) :=
  if path = ['-'] then .ok (0, p)
  else
    match p.open' path .read with
    | .error e => .error e
    | .ok (s, p) => .ok (1000000, p.setFd 1000000 (some s))

/-- Closes what was opened for reading. -/
def doneReading (p : Proc) (fd : Nat) : Proc :=
  if fd = 0 then p else p.setFd fd none

end Proc

namespace Utility

open Shell (Glyph)
open Shell.Pattern (classAt inClass precedes)

/-- The files that a utility reads. -/
def filesOf (g : Given) : List Octets :=
  if g.operands.isEmpty then [['-']] else g.operands

/-- Where `cat` is in what it writes. -/
structure CatState where
  atStart : Bool
  number : Nat
  blanks : Nat
  deriving DecidableEq, Repr

/-- A byte so that it can be shown. -/
def shown (tabs : Bool) (c : Char) : Octets :=
  let low (c : Char) : Octets :=
    if c.toNat < 32 then ['^', Char.ofNat (c.toNat + 64)]
    else if c.toNat = 127 then ['^', '?']
    else [c]
  if c = '\t' && !tabs then ['\t']
  else if c.toNat < 128 then low c
  else Octets.of "M-" ++ low (Char.ofNat (c.toNat - 128))

/-- What becomes of a byte. -/
def catByte (g : Given) (s : CatState) (c : Char) : Octets × CatState :=
  let has (keys : String) : Bool := keys.toList.any g.has
  let isBlank := s.atStart && c = '\n'
  if isBlank && g.has 's' && 0 < s.blanks then ([], s)
  else
    let numbered := s.atStart && (if g.has 'b' then !isBlank else g.has 'n')
    let mark := if numbered then right 6 (Decimal.ofNat (s.number + 1)) ++ ['\t'] else []
    let body :=
      if c = '\n' then (if has "EAe" then ['$', '\n'] else ['\n'])
      else if c = '\t' then (if has "TAt" then Octets.of "^I" else ['\t'])
      else if has "vAet" then shown true c
      else [c]
    (mark ++ body,
      ⟨c = '\n', if numbered then s.number + 1 else s.number,
        if isBlank then s.blanks + 1 else if s.atStart then 0 else s.blanks⟩)

/-- What becomes of some bytes. -/
def catBytes (g : Given) (s : CatState) (t : Octets) : Octets × CatState :=
  if g.options.isEmpty then (t, s)
  else
    let (out, s) := t.foldl (fun (r : List Octets × CatState) c =>
      let (o, s) := catByte g r.2 c
      (o :: r.1, s)) ([], s)
    (out.reverse.flatten, s)

/-- Copies files. -/
def cat : Utility := withOptions 1
    [.flag 'A' "show-all", .flag 'b' "number-nonblank", .letterOnly 'e',
      .flag 'E' "show-ends", .flag 'n' "number", .flag 's' "squeeze-blank", .letterOnly 't',
      .flag 'T' "show-tabs", .letterOnly 'u', .flag 'v' "show-nonprinting"] false
    fun name g p =>
  if (p.stream? 1).isNone then
    (p.complain name (Octets.of "standard output: Bad file descriptor")).exit 1
  else
    let rec copy (fd : Nat) : Nat → CatState → Proc → Got × CatState × Proc
      | 0, s, p => (.nothing, s, p.stick)
      | n + 1, s, p =>
        match p.read fd 131072 with
        | (.bytes t, p) =>
          let (out, s) := catBytes g s t
          let p := p.put name out
          if p.runs then copy fd n s p else (.nothing, s, p)
        | (r, p) => (r, s, p)
    let one (r : Bool × CatState × Proc) (path : Octets) : Bool × CatState × Proc :=
      let (bad, s, p) := r
      let wrong (p : Proc) (why : String) : Bool × CatState × Proc :=
        (true, s, p.complain name (Quoting.name path ++ Octets.of (": " ++ why)))
      match p.reading path with
      | .error e => wrong p e.text
      | .ok (fd, p) =>
        let (got, s, p) := copy fd (p.readsOf fd) s p
        let p := p.doneReading fd
        match got with
        | .folder => wrong p FileError.folder.text
        | .closed => wrong p "Bad file descriptor"
        | _ => (bad, s, p)
    let (bad, _, q) := (filesOf g).foldl one (false, ⟨true, 0, 0⟩, p)
    if (p.stream? 0).isNone && (filesOf g).contains ['-'] then
      (q.complain name (Octets.of "closing standard input: Bad file descriptor")).exit 1
    else q.exit (if bad then 1 else 0)

/-- Which part of a file is written. -/
structure Portion where
  lines : Bool
  count : Nat
  /-- All but so many at the other end, or from that one on. -/
  others : Bool
  deriving DecidableEq, Repr

/-- The value of a multiplier after a number. -/
def multiplier? (t : Octets) : Option Nat :=
  let of (s : String) : Bool := t = Octets.of s
  if t.isEmpty then some 1
  else if of "b" then some 512
  else if of "k" || of "K" || of "KiB" then some 1024
  else if of "kB" || of "KB" then some 1000
  else if of "M" || of "MiB" then some 1048576
  else if of "MB" then some 1000000
  else none

/-- A count with a multiplier. -/
def count? (t : Octets) : Option Nat :=
  let digits := t.takeWhile Char.isDigit
  match multiplier? (t.drop digits.length) with
  | some m => if digits.isEmpty then none else some (Decimal.value digits * m)
  | none => none

/-- The options of `head` and `tail`, where a count may stand alone after a dash. -/
def withCounts (signs : List Char) (args : List Octets) : List Octets :=
  match args with
  | (s :: c :: t) :: rest =>
    if signs.contains s && c.isDigit then
      let digits := (c :: t).takeWhile Char.isDigit
      let more := (c :: t).drop digits.length
      let sign := if s = '+' then ['+'] else []
      match more with
      | [] => ['-', 'n'] :: (sign ++ digits) :: rest
      | ['c'] => ['-', 'c'] :: (sign ++ digits) :: rest
      | ['l'] => ['-', 'n'] :: (sign ++ digits) :: rest
      | _ => args
    else args
  | _ => args

/-- The first lines of a text, and what follows. -/
def cutLines : Nat → Octets → Octets × Octets
  | 0, t => ([], t)
  | _ + 1, [] => ([], [])
  | n + 1, c :: t =>
    if c = '\n' then
      let (a, b) := cutLines n t
      (c :: a, b)
    else
      let (a, b) := cutLines (n + 1) t
      (c :: a, b)

/-- The first part of a text. -/
def firstPart (w : Portion) (t : Octets) : Octets :=
  if w.lines then
    let n := if w.others then (linesOf t).length - w.count else w.count
    (cutLines n t).1
  else t.take (if w.others then t.length - w.count else w.count)

/-- The last part of a text. -/
def lastPart (w : Portion) (t : Octets) : Octets :=
  if w.lines then
    if w.others then (cutLines (w.count - 1) t).2
    else (cutLines ((linesOf t).length - w.count) t).2
  else if w.others then t.drop (w.count - 1)
  else t.drop (t.length - w.count)

/-- Reads no more than the first part of a file. -/
def readFirst (w : Portion) (fd : Nat) : Nat → Octets → Proc → Got × Octets × Proc
  | 0, seen, p => (.nothing, seen, p.stick)
  | n + 1, seen, p =>
    let enough := !w.others &&
      (if w.lines then decide (w.count ≤ seen.count '\n') else decide (w.count ≤ seen.length))
    if enough then
      let part := firstPart w seen
      (.nothing, part, p.unread fd (seen.length - part.length))
    else
      match p.read fd 65536 with
      | (.bytes t, p) => readFirst w fd n (seen ++ t) p
      | (r, p) => (r, firstPart w seen, p)

/-- Writes one part of each file, with names if there are several. -/
def writeParts (name : Octets) (g : Given) (p : Proc)
    (part : Nat → Proc → Got × Octets × Proc) : Proc :=
  let names := if g.has 'v' then true else if g.has 'q' then false else 1 < g.operands.length
  let one (r : Bool × Bool × Proc) (path : Octets) : Bool × Bool × Proc :=
    let (bad, first, p) := r
    let title := if path = ['-'] then Octets.of "standard input" else path
    match p.reading path with
    | .error e =>
      (true, first, p.complain name (Octets.of "cannot open " ++ Quoting.always path ++
        Octets.of (" for reading: " ++ e.text)))
    | .ok (fd, p) =>
      let header :=
        if names then
          (if first then [] else ['\n']) ++ Octets.of "==> " ++ title ++ Octets.of " <==\n"
        else []
      let (got, t, p) := part fd p
      let p := (p.doneReading fd).put name (header ++ t)
      match got with
      | .folder =>
        (true, false, p.complain name (Octets.of "error reading " ++ Quoting.always title ++
          Octets.of ": Is a directory"))
      | .closed =>
        (true, false, p.complain name (Octets.of "error reading " ++ Quoting.always title ++
          Octets.of ": Bad file descriptor"))
      | _ => (bad, false, p)
  let (bad, _, p) := (filesOf g).foldl one (false, true, p)
  p.exit (if bad then 1 else 0)

/-- Writes the first lines or bytes of files. -/
def head : Utility := fun name args p =>
  withOptions 1 [.value 'n' "lines", .value 'c' "bytes", .flag 'q' "quiet", .flag 'v' "verbose",
      .nameOnly "silent" 'q'] false (fun name g p =>
    let found := g.options.reverse.find? fun o => o.1 = 'n' || o.1 = 'c'
    let (key, v) := found.getD ('n', Octets.of "10")
    let others := v.head? = some '-'
    match count? (if others then v.drop 1 else v) with
    | none =>
      (p.complain name (Octets.of (if key = 'n' then "invalid number of lines: "
        else "invalid number of bytes: ") ++ Quoting.text v)).exit 1
    | some n =>
      let w : Portion := ⟨key = 'n', n, others⟩
      writeParts name g p fun fd p => readFirst w fd (p.readsOf fd) [] p)
    name (withCounts ['-'] args) p

/-- Writes the last lines or bytes of files. -/
def tail : Utility := fun name args p =>
  withOptions 1 [.value 'n' "lines", .value 'c' "bytes", .flag 'q' "quiet", .flag 'v' "verbose",
      .flag 'f' "follow", .nameOnly "silent" 'q'] false (fun name g p =>
    let found := g.options.reverse.find? fun o => o.1 = 'n' || o.1 = 'c'
    let (key, v) := found.getD ('n', Octets.of "10")
    let others := v.head? = some '+'
    let digits := if others || v.head? = some '-' then v.drop 1 else v
    match count? digits with
    | none =>
      (p.complain name (Octets.of (if key = 'n' then "invalid number of lines: "
        else "invalid number of bytes: ") ++ Quoting.text v)).exit 1
    | some n =>
      let w : Portion := ⟨key = 'n', n, others⟩
      writeParts name g p fun fd p =>
        match p.readAll fd with
        | (.bytes t, p) => (.nothing, lastPart w t, if g.has 'f' then p.stick else p)
        | (r, p) => (r, [], p))
    name (withCounts ['-', '+'] args) p

/-- How many lines, words and bytes a text has. -/
def counts (t : Octets) : Nat × Nat × Nat :=
  let isSpace (c : Char) : Bool := Whole.isBlank c
  let (words, _) := t.foldl (fun (r : Nat × Bool) c =>
    if isSpace c then (r.1, false) else if r.2 then r else (r.1 + 1, true)) (0, false)
  (t.count '\n', words, t.length)

/-- The longest line of a text. -/
def longest (t : Octets) : Nat :=
  ((linesOf t).map fun l => (bare l).length).foldl max 0

/-- Counts the lines, words and bytes of files. -/
def wc : Utility := withOptions 1 [.flag 'l' "lines", .flag 'w' "words", .flag 'c' "bytes",
    .flag 'm' "chars", .flag 'L' "max-line-length"] false fun name g p =>
  let all := g.options.isEmpty
  let row (x : Nat × Nat × Nat) (widest : Nat) : List Nat :=
    (if all || g.has 'l' then [x.1] else []) ++ (if all || g.has 'w' then [x.2.1] else []) ++
      (if g.has 'm' then [x.2.2] else []) ++ (if all || g.has 'c' then [x.2.2] else []) ++
      (if g.has 'L' then [widest] else [])
  let one (r : List (Octets × Option Octets) × Proc) (path : Octets) :
      List (Octets × Option Octets) × Proc :=
    let (done, p) := r
    match p.input path with
    | .ok (t, p) => (done ++ [(path, some t)], p)
    | .error why =>
      (done ++ [(path, none)],
        p.complain name (Quoting.name path ++ Octets.of (": " ++ why)))
  let (read, p) := (filesOf g).foldl one ([], p)
  let texts := read.filterMap Prod.snd
  let isRegular (path : Octets) : Bool :=
    if path = ['-'] then
      match p.stream? 0 with
      | some (.file _) => true
      | _ => false
    else
      match p.world.files.lookup p.cwd path with
      | .ok (.file _ _) => true
      | _ => false
  let total := texts.foldl (fun n t => n + t.length) 0
  let columns := (row (0, 0, 0) 0).length
  let width :=
    if read.length = 1 && columns = 1 then 1
    else
      max (Decimal.ofNat total).length
        (if read.all fun x => x.2.isNone || isRegular x.1 then 1 else 7)
  let line (ns : List Nat) (title : Octets) : Octets :=
    Octets.join [' '] (ns.map fun n => right width (Decimal.ofNat n)) ++
      (if title.isEmpty then [] else ' ' :: title) ++ ['\n']
  let rows := read.flatMap fun x =>
    match x.2 with
    | none => []
    | some t => line (row (counts t) (longest t)) (if g.operands.isEmpty then [] else x.1)
  let sum :=
    if read.length < 2 then []
    else
      let add (a b : Nat × Nat × Nat) : Nat × Nat × Nat :=
        (a.1 + b.1, a.2.1 + b.2.1, a.2.2 + b.2.2)
      line (row ((texts.map counts).foldl add (0, 0, 0)) ((texts.map longest).foldl max 0))
        (Octets.of "total")
  p.say name (rows ++ sum) (if read.all fun x => x.2.isSome then 0 else 1)

/-- The characters of a set of `tr`, whose escapes are resolved. -/
def setChars : Nat → List Glyph → Octets
  | 0, _ => []
  | _ + 1, [] => []
  | n + 1, g :: t =>
    let all := (List.range 256).map Char.ofNat
    match classAt (g :: t) with
    | some (name, rest) => all.filter (inClass name) ++ setChars n rest
    | none =>
      match t with
      | d :: e :: rest =>
        if d.means '-' then
          (all.filter fun c => g.char.toNat ≤ c.toNat && c.toNat ≤ e.char.toNat) ++
            setChars n rest
        else g.char :: setChars n t
      | _ => g.char :: setChars n t

/-- The set that an argument of `tr` stands for. -/
def setOf (t : Octets) : Octets :=
  go t.length t |> fun gs => setChars (gs.length + 1) gs
where
  /-- The characters of a text, where those after a backslash stand for themselves. -/
  go : Nat → Octets → List Glyph
    | 0, _ => []
    | _ + 1, [] => []
    | n + 1, c :: t =>
      if c = '\\' then
        match Format.escape .utility .format t with
        | (.text u, rest) =>
          let u := if u.length = 2 then u.drop 1 else u
          u.map (fun c => ⟨c, true, false⟩) ++ go n rest
        | (_, rest) => go n rest
      else Glyph.plain c :: go n t

/-- Replaces or removes characters of standard input. -/
def tr : Utility := withOptions 1 [.flag 'c' "complement", ⟨some 'C', none, false, 'c'⟩,
    .flag 'd' "delete", .flag 's' "squeeze-repeats", .flag 't' "truncate-set1"] true
    fun name g p =>
  let two := !g.has 'd' && !g.has 's' || g.has 'd' && g.has 's'
  match g.operands with
  | [] => p.misuse name (Octets.of "missing operand") 1
  | [a] =>
    if two then
      ((p.complain name (Octets.of "missing operand after " ++ Quoting.text a)).write 2
        (Octets.of (if g.has 'd' then
          "Two strings must be given when both deleting and squeezing repeats.\n"
          else "Two strings must be given when translating.\n"))).2.hint name 1
    else run name g (setOf a) none p
  | [a, b] =>
    if g.has 'd' && !g.has 's' then
      ((p.complain name (Octets.of "extra operand " ++ Quoting.text b)).write 2
        (Octets.of "Only one string may be given when deleting without squeezing repeats.\n")
        ).2.hint name 1
    else run name g (setOf a) (some (setOf b)) p
  | _ :: _ :: c :: _ => p.misuse name (Octets.of "extra operand " ++ Quoting.text c) 1
where
  /-- The work, with the sets as they are. -/
  run (name : Octets) (g : Given) (a : Octets) (b : Option Octets) (p : Proc) : Proc :=
    let a :=
      if g.has 'c' then ((List.range 256).map Char.ofNat).filter fun c => !a.contains c else a
    match p.readAll 0 with
    | (.bytes t, p) =>
      let last := (b.getD []).getLastD '\x00'
      let image (c : Char) : Char :=
        match b with
        | none => c
        | some b =>
          if g.has 'd' then c
          else
            match a.findIdx? fun d => d = c with
            | some i => if g.has 't' && b.length ≤ i then c else b.getD i last
            | none => c
      let table := (List.range 256).map fun n => image (Char.ofNat n)
      let t := if g.has 'd' then t.filter fun c => !a.contains c else t
      let t := t.map fun c => table.getD c.toNat c
      let t :=
        if g.has 's' then
          let set := b.getD a
          (t.foldl (fun (r : Octets) c =>
            if set.contains c && r.head? = some c then r else c :: r) []).reverse
        else t
      p.say name t 0
    | (_, p) => p.exit 0

/-- How lines are put in order. -/
structure SortKey where
  first : Nat
  last : Option Nat
  numeric : Bool
  reverse : Bool
  folds : Bool
  deriving DecidableEq, Repr

/-- The fields of a line. -/
def fieldsOf (separator : Option Char) (l : Octets) : List Octets :=
  match separator with
  | some c => pieces c l
  | none =>
    let rec go (seen : Octets) (inWord : Bool) : Octets → List Octets
      | [] => [seen.reverse]
      | c :: t =>
        if c = ' ' || c = '\t' then
          if inWord then seen.reverse :: go [c] false t else go (c :: seen) false t
        else go (c :: seen) true t
    go [] false l

/-- The part of a line that a key looks at. -/
def keyPart (separator : Option Char) (k : SortKey) (l : Octets) : Octets :=
  if k.first = 0 then l
  else
    let fs := (fieldsOf separator l).drop (k.first - 1)
    let fs := match k.last with
      | some n => fs.take (n + 1 - k.first)
      | none => fs
    match separator with
    | some c => Octets.join [c] fs
    | none => fs.flatten

/-- The number at the start of a text. -/
def leading (t : Octets) : Decimals :=
  let t := t.dropWhile fun c => c = ' ' || c = '\t'
  let (negative, t) := match t with
    | '-' :: t => (true, t)
    | t => (false, t)
  let (v, places, _, _) := Floating.pointed 10 t
  ⟨if negative then -(v : Int) else v, places⟩

/-- How two texts compare by a key. -/
def compareBy (k : SortKey) (a b : Octets) : Ordering :=
  let r :=
    if k.numeric then
      let (x, y) := (leading a, leading b)
      let n := max x.places y.places
      compare (x.widen n) (y.widen n)
    else
      let fold (t : Octets) : Octets := if k.folds then t.map Char.toUpper else t
      if fold a = fold b then .eq
      else if precedes (fold a) (fold b) then .lt else .gt
  if k.reverse then r.swap else r

/-- The key that a text stands for. -/
def sortKey (g : Given) (t : Octets) : SortKey :=
  let (a, rest) := (t.takeWhile Char.isDigit, t.dropWhile Char.isDigit)
  let (b, rest) : Option Nat × Octets := match rest with
    | ',' :: rest =>
      (some (Decimal.value (rest.takeWhile Char.isDigit)), rest.dropWhile Char.isDigit)
    | rest => (none, rest)
  let own := !rest.isEmpty
  let has (c : Char) : Bool := if own then rest.contains c else g.has c
  ⟨Decimal.value a, b, has 'n', has 'r', has 'f'⟩

/-- Puts lines in order. -/
def sort : Utility := withOptions 2 [.flag 'r' "reverse", .flag 'n' "numeric-sort",
    .flag 'u' "unique", .flag 'f' "ignore-case", .flag 'b' "ignore-leading-blanks",
    .flag 's' "stable", .value 'k' "key", .value 't' "field-separator"] false fun name g p =>
  let one (r : Except Octets (Octets × Proc)) (path : Octets) : Except Octets (Octets × Proc) :=
    match r with
    | .error e => .error e
    | .ok (t, p) =>
      match p.input path with
      | .ok (u, p) => .ok (t ++ (if u.isEmpty then [] else ended u), p)
      | .error why =>
        .error (Octets.of "cannot read: " ++ Quoting.name path ++ Octets.of (": " ++ why))
  match (filesOf g).foldl one (.ok ([], p)) with
  | .error e => (p.complain name e).exit 2
  | .ok (t, p) =>
    let whole : SortKey := ⟨0, none, g.has 'n', g.has 'r', g.has 'f'⟩
    let keys := (g.options.filter fun o => o.1 = 'k').map fun o => sortKey g o.2
    let keys := if keys.isEmpty then [whole] else keys
    let separator := (g.value? 't').bind List.head?
    let rank (a b : Octets) : Ordering :=
      keys.foldl (fun r k =>
        if r = .eq then compareBy k (keyPart separator k a) (keyPart separator k b) else r) .eq
    let final (a b : Octets) : Ordering :=
      if g.has 's' || g.has 'u' then .eq else compareBy ⟨0, none, false, g.has 'r', false⟩ a b
    let sorted := ((linesOf t).map bare).mergeSort fun a b =>
      ((rank a b).then (final a b)) != .gt
    let rec distinct : List Octets → List Octets
      | a :: b :: rest =>
        if rank a b = .eq then distinct (a :: rest) else a :: distinct (b :: rest)
      | l => l
    termination_by l => l.length
    let lines := if g.has 'u' then distinct sorted else sorted
    p.say name (lines.flatMap fun l => l ++ ['\n']) 0

/-- Equal neighbours, each with how many there are. -/
def runs (same : Octets → Octets → Bool) : List Octets → List (Nat × Octets)
  | [] => []
  | l :: ls =>
    match runs same ls with
    | (n, m) :: more => if same l m then (n + 1, l) :: more else (1, l) :: (n, m) :: more
    | [] => [(1, l)]

/-- Leaves out lines that are as the one before. -/
def uniq : Utility := withOptions 1 [.flag 'c' "count", .flag 'd' "repeated", .flag 'u' "unique",
    .flag 'i' "ignore-case"] false fun name g p =>
  let path := g.operands.headD ['-']
  match p.input path with
  | .error why => (p.complain name (Quoting.name path ++ Octets.of (": " ++ why))).exit 1
  | .ok (t, p) =>
    let fold (l : Octets) : Octets := if g.has 'i' then l.map Char.toUpper else l
    let all := runs (fun a b => fold a = fold b) ((linesOf t).map bare)
    let kept := all.filter fun r =>
      (!g.has 'd' || 1 < r.1) && (!g.has 'u' || r.1 = 1)
    p.say name (kept.flatMap fun r =>
      (if g.has 'c' then right 7 (Decimal.ofNat r.1) ++ [' '] else []) ++ r.2 ++ ['\n']) 0

/-- The ranges of a list of numbers. -/
def ranges? (t : Octets) : Option (List (Nat × Option Nat)) :=
  let one (r : Octets) : Option (Nat × Option Nat) :=
    match pieces '-' r with
    | [a] => (nat? a).map fun n => (n, some n)
    | [a, b] =>
      match nat? a, nat? b with
      | some m, some n => some (m, some n)
      | some m, none => if b.isEmpty then some (m, none) else none
      | none, some n => if a.isEmpty then some (1, some n) else none
      | none, none => none
    | _ => none
  let rs := (pieces ',' t).map one
  if rs.all Option.isSome then some (rs.filterMap fun r => r) else none

/-- Writes parts of lines. -/
def cut : Utility := withOptions 1 [.value 'c' "characters", .value 'b' "bytes",
    .value 'f' "fields", .value 'd' "delimiter", .flag 's' "only-delimited",
    .namedValue "output-delimiter" 'o', .nameOnly "complement" 'C'] false fun name g p =>
  match g.options.find? fun o => o.1 = 'c' || o.1 = 'b' || o.1 = 'f' with
  | none =>
    p.misuse name (Octets.of "you must specify a list of bytes, characters, or fields") 1
  | some (kind, list) =>
    match ranges? list with
    | none =>
      p.misuse name (Octets.of (if kind = 'f' then "invalid field value "
        else "invalid byte or character position ") ++ Quoting.text list) 1
    | some rs =>
      let wanted (i : Nat) : Bool :=
        (rs.any fun r => r.1 ≤ i && (match r.2 with
          | some n => decide (i ≤ n)
          | none => true)) != g.has 'C'
      let pick {α : Type} (l : List α) : List α :=
        (l.zipIdx 1).filterMap fun x => if wanted x.2 then some x.1 else none
      let d := ((g.value? 'd').bind List.head?).getD '\t'
      let between := (g.value? 'o').getD [d]
      let line (l : Octets) : Option Octets :=
        if kind != 'f' then some (pick l)
        else if l.contains d then some (Octets.join between (pick (pieces d l)))
        else if g.has 's' then none
        else some l
      let one (r : Bool × Proc) (path : Octets) : Bool × Proc :=
        match r.2.input path with
        | .error why =>
          (true, r.2.complain name (Quoting.name path ++ Octets.of (": " ++ why)))
        | .ok (t, p) =>
          (r.1, p.put name (((linesOf t).filterMap fun l => line (bare l)).flatMap
            fun l => l ++ ['\n']))
      let (bad, p) := (filesOf g).foldl one (false, p)
      p.exit (if bad then 1 else 0)

/-- Copies standard input to files and to standard output. -/
def tee : Utility := withOptions 1 [.flag 'a' "append", .flag 'i' "ignore-interrupts"] false
    fun name g p =>
  let one (r : List Nat × Bool × Proc) (path : Octets) : List Nat × Bool × Proc :=
    let (fds, bad, p) := r
    match p.open' path (if g.has 'a' then .append else .write) with
    | .ok (s, p) =>
      let fd := 1000000 + fds.length
      (fds ++ [fd], bad, p.setFd fd (some s))
    | .error e =>
      (fds, true, p.complain name (Quoting.name path ++ Octets.of (": " ++ e.text)))
  let (fds, bad, p) := g.operands.foldl one ([], false, p)
  let rec copy : Nat → Proc → Proc
    | 0, p => p.stick
    | n + 1, p =>
      match p.read 0 65536 with
      | (.bytes t, p) => copy n (fds.foldl (fun p fd => (p.write fd t).2) (p.put name t))
      | (_, p) => p
  (copy (p.readsOf 0) p).exit (if bad then 1 else 0)

/-- Writes what becomes of the lines of files; `refused` tells why one cannot be read. -/
def perLines (refused : Octets → String → Octets) (what : List Octets → List Octets) :
    Utility := withOptions 1 [] false fun name g p =>
  let one (r : Bool × Proc) (path : Octets) : Bool × Proc :=
    match r.2.input path with
    | .error why => (true, r.2.complain name (refused path why))
    | .ok (t, p) => (r.1, p.put name (what (linesOf t)).flatten)
  let (bad, p) := (filesOf g).foldl one (false, p)
  p.exit (if bad then 1 else 0)

/-- Writes lines with their characters last first. -/
def rev : Utility := perLines
  (fun path why => Octets.of "cannot open " ++ path ++ Octets.of (": " ++ why))
  fun ls => ls.map fun l =>
    if l.getLast? = some '\n' then (bare l).reverse ++ ['\n'] else l.reverse

/-- Writes lines last first. -/
def tac : Utility := perLines
  (fun path why => Octets.of "failed to open " ++ Quoting.always path ++
    Octets.of (" for reading: " ++ why))
  List.reverse

end Offspring.Utility
