import Offspring.Command.Format
import Offspring.Command.Utility.Basic
/-!
# Utilities that write what they are told

These read nothing: they write their arguments, or what follows from them, or pause.
-/

namespace Offspring.Utility

/-- Ends well. -/
def true' : Utility := fun _ _ p => p.exit 0

/-- Ends badly. -/
def false' : Utility := fun _ _ p => p.exit 1

/-- Whether an argument is a row of options of `echo`. -/
def isEchoOption : Octets → Bool
  | '-' :: c :: t => (c :: t).all fun c => c = 'n' || c = 'e' || c = 'E'
  | _ => false

/-- Writes its arguments in a line. -/
def echo : Utility := fun name args p =>
  let options := (args.takeWhile isEchoOption).flatten
  let t := Octets.join [' '] (args.dropWhile isEchoOption)
  let ending := if options.contains 'n' then [] else ['\n']
  match options.findRev? fun c => c = 'e' || c = 'E' with
  | some 'e' =>
    let (t, mood) := Format.unescape .utility .line t.length t
    p.say name (if mood = .on then t ++ ending else t) 0
  | _ => p.say name (t ++ ending) 0

/-- Writes events in order. -/
def tell (name : Octets) (es : List Format.Event) (p : Proc) : Proc :=
  es.foldl (fun p e =>
    match e with
    | .out t => p.put name t
    | .warning t => p.complain name t) p

/-- Neighbouring texts of events as one. -/
def gathered : List Format.Event → List Format.Event
  | [] => []
  | .out t :: es =>
    match gathered es with
    | .out u :: es => .out (t ++ u) :: es
    | es => .out t :: es
  | e :: es => e :: gathered es

/-- Writes its arguments by a format. -/
def printf : Utility := fun name args p =>
  let args := match args with
    | ['-', '-'] :: rest => rest
    | args => args
  match args with
  | [] => p.misuse name (Octets.of "missing operand") 1
  | format :: args =>
    let r := Format.render .utility format args
    let excess := match r.mood, r.args with
      | .on, a :: _ =>
        if r.takes then []
        else [.warning (Octets.of "warning: ignoring excess arguments, starting with " ++
          Quoting.text a)]
      | _, _ => []
    let p := tell name (gathered (r.events.reverse ++ excess)) p
    match r.mood with
    | .broken m => (p.complain name m).exit 1
    | _ => p.exit (if r.failed then 1 else 0)

/-- Writes a line again and again. -/
def yes : Utility := fun name args p =>
  let args := match args with
    | ['-', '-'] :: rest => rest
    | args => args
  let l := (if args.isEmpty then ['y'] else Octets.join [' '] args) ++ ['\n']
  let block := (List.replicate (8192 / l.length + 1) l).flatten
  let rec go : Nat → Proc → Proc
    | 0, p => p.stick
    | n + 1, p => if p.runs then go n (p.putSaying "standard output" name block) else p
  go 300 p

/-- A whole number over a power of ten. -/
structure Decimals where
  value : Int
  places : Nat
  deriving DecidableEq, Repr

namespace Decimals

/-- A number as an exact one, if a text is a decimal number. -/
def ofText? (t : Octets) : Option Decimals :=
  let (negative, t) := match t with
    | '-' :: t => (true, t)
    | '+' :: t => (false, t)
    | t => (false, t)
  let (v, places, n, rest) := Floating.pointed 10 t
  if n = 0 then none
  else
    let (e, rest) := Floating.exponent 'e' rest
    if !rest.isEmpty || 400 < e.natAbs then none
    else
      let sign : Int := if negative then -1 else 1
      let places : Int := (places : Int) - e
      if places < 0 then some ⟨sign * v * (Nat.pow 10 places.natAbs : Nat), 0⟩
      else some ⟨sign * v, places.natAbs⟩

/-- The same number with more places. -/
def widen (d : Decimals) (places : Nat) : Int :=
  d.value * (Nat.pow 10 (places - d.places) : Nat)

end Decimals

/-- A number of some decimals as a text. -/
def decimalText (places : Nat) (v : Int) : Octets :=
  let t := Floating.withPoint places false (Decimal.ofNat v.natAbs)
  if v < 0 then '-' :: t else t

/-- The numbers from one to another by steps, at most so many. -/
def numbers : Nat → Int → Int → Int → List Int
  | 0, _, _, _ => []
  | n + 1, v, step, last =>
    if (0 < step && last < v) || (step < 0 && v < last) then []
    else v :: numbers n (v + step) step last

/-- How many numbers are written before it counts as without an end. -/
def mostNumbers : Nat := 400000

/-- Numbers with separators, written by a format or with zeros to one width. -/
def writeNumbers (name : Octets) (g : Given) (first step last : Decimals) (p : Proc) : Proc :=
  let places := max first.places step.places
  let most := max places last.places
  let scale : Int := (Nat.pow 10 (most - places) : Nat)
  let vs := numbers mostNumbers (first.widen most) (step.widen most) (last.widen most)
  let texts := vs.map fun v => decimalText places (Int.tdiv v scale)
  let width := (max (decimalText places (first.widen places)).length
    (decimalText places (Int.tdiv (last.widen most) scale)).length)
  let padded (t : Octets) : Octets :=
    match t with
    | '-' :: t => '-' :: Floating.atLeast (width - 1) t
    | t => Floating.atLeast width t
  let shown := match g.value? 'f' with
    | some f => texts.map fun t => (Format.render .utility f [t]).text
    | none => if g.has 'w' then texts.map padded else texts
  let between := (g.value? 's').getD ['\n']
  if shown.isEmpty then p.exit 0
  else
    let p := p.put name (Octets.join between shown ++ ['\n'])
    if vs.length = mostNumbers then p.stick else p.exit 0

/-- Writes the numbers of a row. -/
def seq : Utility := fun name args p =>
  let isNegative (a : Octets) : Bool :=
    match a with
    | '-' :: c :: _ => c = '.' || c.isDigit
    | _ => false
  let options := args.takeWhile fun a => !isNegative a
  let forms := [OptionForm.flag 'w' "equal-width", .value 's' "separator", .value 'f' "format"]
  match Given.read forms true options with
  | .error e => p.misuse name e 1
  | .ok g =>
    let operands := g.operands ++ args.drop options.length
    match operands with
    | [] => p.misuse name (Octets.of "missing operand") 1
    | _ :: _ :: _ :: extra :: _ =>
      p.misuse name (Octets.of "extra operand " ++ Quoting.text extra) 1
    | operands =>
      match operands.find? fun t => (Decimals.ofText? t).isNone with
      | some t =>
        p.misuse name (Octets.of "invalid floating point argument: " ++ Quoting.text t) 1
      | none =>
        let one : Decimals := ⟨1, 0⟩
        match operands.filterMap Decimals.ofText?, operands with
        | [last], _ => writeNumbers name g one one last p
        | [first, last], _ => writeNumbers name g first one last p
        | [first, step, last], [_, t, _] =>
          if step.value = 0 then
            p.misuse name (Octets.of "invalid Zero increment value: " ++ Quoting.text t) 1
          else writeNumbers name g first step last p
        | _, _ => p.exit 0

/-- How long an argument of `sleep` is. -/
inductive Length where
  | micros (n : Nat)
  | forever
  deriving DecidableEq, Repr

/-- A length of time: a number of seconds, minutes, hours or days. -/
def length? (t : Octets) : Option Length :=
  match Floating.read? .double t with
  | none => none
  | some (v, _, rest) =>
    let unit : Option Nat :=
      match rest with
      | [] => some 1
      | ['s'] => some 1
      | ['m'] => some 60
      | ['h'] => some 3600
      | ['d'] => some 86400
      | _ => none
    match unit, v.size with
    | none, _ => none
    | some _, .nan => none
    | some _, .infinite => if v.negative then none else some .forever
    | some u, .finite m e =>
      if v.negative && m != 0 then none
      else
        let (a, b) := Floating.quotient m e
        some (.micros ((a * u * 1000000 + b - 1) / b))

/-- Pauses for the sum of its arguments. -/
def sleep : Utility := withOptions 1 [] false fun name g p =>
  if g.operands.isEmpty then p.misuse name (Octets.of "missing operand") 1
  else
    let bad := g.operands.filter fun t => (length? t).isNone
    if !bad.isEmpty then
      (bad.foldl (fun p t =>
        p.complain name (Octets.of "invalid time interval " ++ Quoting.text t)) p).hint name 1
    else
      let lengths := g.operands.filterMap length?
      if lengths.contains .forever then p.stick
      else
        (p.pause (lengths.foldl (fun total length =>
          match length with
          | .micros n => total + n
          | .forever => total) 0)).exit 0

/-- The part of a path after its last slash. -/
def baseOf (t : Octets) : Octets :=
  let t' := (t.reverse.dropWhile fun c => c = '/').reverse
  if t'.isEmpty then (if t.isEmpty then [] else ['/'])
  else (t'.reverse.takeWhile fun c => c != '/').reverse

/-- A name without an ending, unless it is nothing else. -/
def withoutEnding (ending t : Octets) : Octets :=
  if ending.length < t.length && ending.isSuffixOf t then t.take (t.length - ending.length)
  else t

/-- Writes the last parts of paths. -/
def basename : Utility :=
  withOptions 1 [.flag 'a' "multiple", .value 's' "suffix", .flag 'z' "zero"] true fun name g p =>
    let ending := if g.has 'z' then ['\x00'] else ['\n']
    match g.operands with
    | [] => p.misuse name (Octets.of "missing operand") 1
    | t :: more =>
      if g.has 'a' || g.has 's' then
        p.say name (g.operands.flatMap fun t =>
          withoutEnding ((g.value? 's').getD []) (baseOf t) ++ ending) 0
      else
        match more with
        | [] => p.say name (baseOf t ++ ending) 0
        | [s] => p.say name (withoutEnding s (baseOf t) ++ ending) 0
        | _ :: extra :: _ =>
          p.misuse name (Octets.of "extra operand " ++ Quoting.text extra) 1

/-- The part of a path before its last slash. -/
def folderOf (t : Octets) : Octets :=
  let t' := (t.reverse.dropWhile fun c => c = '/').reverse
  if t'.isEmpty then (if t.isEmpty then ['.'] else ['/'])
  else
    let up := t'.reverse.dropWhile fun c => c != '/'
    if up.isEmpty then ['.']
    else
      let short := (up.dropWhile fun c => c = '/').reverse
      if short.isEmpty then ['/'] else short

/-- Writes paths without their last parts. -/
def dirname : Utility := withOptions 1 [.flag 'z' "zero"] true fun name g p =>
  if g.operands.isEmpty then p.misuse name (Octets.of "missing operand") 1
  else
    p.say name (g.operands.flatMap fun t =>
      folderOf t ++ (if g.has 'z' then ['\x00'] else ['\n'])) 0

/-- The path of a folder from the root. -/
def pathOf (names : List Octets) : Octets :=
  '/' :: Octets.join ['/'] names

/-- Writes where it works. -/
def pwd : Utility := withOptions 1 [.flag 'L' "logical", .flag 'P' "physical"] false
  fun name _ p => p.say name (pathOf p.cwd ++ ['\n']) 0

/-- Writes its environment, or the values of some names. -/
def printenv : Utility := withOptions 2 [.flag '0' "null"] true fun name g p =>
  let ending := if g.has '0' then ['\x00'] else ['\n']
  if g.operands.isEmpty then
    p.say name (p.environment.flatMap fun v => v.1 ++ '=' :: v.2 ++ ending) 0
  else
    let values := g.operands.map fun n => (p.environment.find? fun v => v.1 = n).map Prod.snd
    p.say name (values.flatMap fun
      | some v => v ++ ending
      | none => []) (if values.all Option.isSome then 0 else 1)

/-- Writes what the system is called. -/
def uname : Utility := withOptions 1 [.flag 's' "kernel-name", .flag 'o' "operating-system",
    .flag 'm' "machine"] false fun name g p =>
  let parts :=
    (if g.has 's' || g.options.isEmpty then ["Linux"] else []) ++
    (if g.has 'm' then ["x86_64"] else []) ++
    (if g.has 'o' then ["GNU/Linux"] else [])
  p.say name (Octets.join [' '] (parts.map Octets.of) ++ ['\n']) 0

/-- Writes who runs it. -/
def whoami : Utility := withOptions 1 [] false fun name _ p => p.say name (Octets.of "root\n") 0

/-- Writes the number or the name of who runs it. -/
def id : Utility := withOptions 1 [.flag 'u' "user", .flag 'g' "group", .flag 'n' "name",
    .flag 'G' "groups", .flag 'r' "real"] false fun name g p =>
  if g.has 'u' || g.has 'g' || g.has 'G' then
    p.say name (Octets.of (if g.has 'n' then "root\n" else "0\n")) 0
  else p.say name (Octets.of "uid=0(root) gid=0(root) groups=0(root)\n") 0

end Offspring.Utility
