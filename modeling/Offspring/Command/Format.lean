import Offspring.Number.Floating
import Offspring.Text.Quoting
/-!
# Formats of printed arguments

A format is text with escapes, which stand for bytes, and conversions, each of which
takes an argument.  It is used again as long as arguments are left and it takes any.
Missing arguments are empty, or zero where a number is wanted.

Two dialects are spoken, one by the shell and one by the utilities.  They differ in the
escapes, in the conversions that they know, in the length of their numbers, and in what
they say about mistakes.
-/

namespace Offspring.Format

/-- Who speaks. -/
inductive Dialect where
  | shell
  | utility
  deriving DecidableEq, Repr

/-- How an argument is to be written. -/
structure Conversion where
  left : Bool
  plus : Bool
  blank : Bool
  other : Bool
  zeros : Bool
  width : Nat
  precision : Option Nat
  kind : Char
  deriving DecidableEq, Repr

/-- What printing comes to, in order. -/
inductive Event where
  | out (t : Octets)
  /-- Something is wrong with an argument. -/
  | warning (t : Octets)
  deriving DecidableEq, Repr

/-- How printing goes on. -/
inductive Mood where
  | on
  /-- Nothing more is printed. -/
  | stopped
  /-- The format is wrong. -/
  | broken (message : Octets)
  deriving DecidableEq, Repr

/-- Printing at some moment. -/
structure Printing where
  /-- Latest first. -/
  events : List Event
  args : List Octets
  failed : Bool
  mood : Mood
  /-- Whether the format takes arguments. -/
  takes : Bool
  deriving DecidableEq, Repr

/-- Whether a character is an octal digit. -/
def isOctal (c : Char) : Bool :=
  '0' ≤ c && c ≤ '7'

/-- The byte of a row of octal digits. -/
def octalByte (t : Octets) : Char :=
  Char.ofNat ((t.foldl (fun v c => v * 8 + Decimal.digitValue c) 0) % 256)

/-- The byte that a letter stands for after a backslash. -/
def simpleEscape : Char → Option Char
  | '\\' => some '\\'
  | 'a' => some '\x07'
  | 'b' => some '\x08'
  | 'e' => some '\x1b'
  | 'f' => some '\x0c'
  | 'n' => some '\n'
  | 'r' => some '\r'
  | 't' => some '\t'
  | 'v' => some '\x0b'
  | _ => none

/-- Where an escape stands. -/
inductive Place where
  | format
  /-- In an argument that may hold escapes. -/
  | argument
  /-- In a line that is written as it is. -/
  | line
  deriving DecidableEq, Repr

/-- What an escape comes to. -/
inductive Escaped where
  | text (t : Octets)
  /-- The end of all output. -/
  | stop
  | wrong (message : Octets)
  deriving DecidableEq, Repr

/-- The text of a character number where only ASCII can be shown. -/
def codePoint (n digits : Nat) : Octets :=
  if n < 128 then [Char.ofNat n]
  else if digits = 4 || n < 65536 then
    Octets.of "\\u" ++ (Floating.hexDigits 4 n).map Char.toUpper
  else Octets.of "\\U" ++ (Floating.hexDigits 8 n).map Char.toUpper

/-- What stands after a backslash, and what follows. -/
def escape (d : Dialect) (p : Place) : Octets → Escaped × Octets
  | [] => (.text ['\\'], [])
  | c :: t =>
    let stops := match d with
      | .shell => p != .format
      | .utility => true
    let zero := match d with
      | .shell => p != .format
      | .utility => p != .format
    if stops && c = 'c' then (.stop, t)
    else if zero && c = '0' then
      let digits := (t.take 3).takeWhile isOctal
      (.text [octalByte digits], t.drop digits.length)
    else if isOctal c then
      let digits := ((c :: t).take 3).takeWhile isOctal
      (.text [octalByte digits], (c :: t).drop digits.length)
    else if d = .utility && c = 'x' then
      let taken := (t.take 2).takeWhile fun c => (Whole.digit? 16 c).isSome
      if taken.isEmpty then
        if p = .line then (.text ['\\', 'x'], t)
        else (.wrong (Octets.of "missing hexadecimal number in escape"), t)
      else (.text [Char.ofNat (Whole.digits 16 taken).1], t.drop taken.length)
    else if d = .utility && p != .line && c = '\x22' then (.text ['\x22'], t)
    else if d = .utility && p != .line && (c = 'u' || c = 'U') then
      let wanted := if c = 'u' then 4 else 8
      let taken := (t.take wanted).takeWhile fun c => (Whole.digit? 16 c).isSome
      if taken.length < wanted then
        (.wrong (Octets.of "missing hexadecimal number in escape"), t)
      else
        let n := (Whole.digits 16 taken).1
        if n < 0xA0 && n != 0x24 && n != 0x40 && n != 0x60 || (0xD800 ≤ n && n ≤ 0xDFFF) then
          (.wrong (Octets.of "invalid universal character name \\" ++ c :: taken), t)
        else (.text (codePoint n wanted), t.drop wanted)
    else
      match simpleEscape c with
      | some b => (.text [b], t)
      | none => (.text ['\\', c], t)

/-- A text with its escapes resolved, and how it ends.  Every round takes a character, so
as many rounds as characters are enough. -/
def unescape (d : Dialect) (p : Place) : Nat → Octets → Octets × Mood
  | 0, _ => ([], .on)
  | _ + 1, [] => ([], .on)
  | n + 1, c :: t =>
    if c = '\\' then
      match escape d p t with
      | (.stop, _) => ([], .stopped)
      | (.wrong m, _) => ([], .broken m)
      | (.text b, rest) =>
        let (bs, mood) := unescape d p n rest
        (b ++ bs, mood)
    else
      let (bs, mood) := unescape d p n t
      (c :: bs, mood)

/-- A text filled up with blanks to a width. -/
def fill (c : Conversion) (t : Octets) : Octets :=
  let missing := List.replicate (c.width - t.length) ' '
  if c.left then t ++ missing else missing ++ t

/-- A number in some base. -/
def inBase (base : Nat) : Nat → Nat → Octets
  | 0, _ => []
  | fuel + 1, n =>
    if n < base then [Nat.digitChar n]
    else inBase base fuel (n / base) ++ [Nat.digitChar (n % base)]

/-- The sign of a number that may be negative. -/
def signOf (c : Conversion) (negative : Bool) : Octets :=
  if negative then ['-'] else if c.plus then ['+'] else if c.blank then [' '] else []

/-- A sign and digits filled up, with zeros between them if they may be there. -/
def filled (c : Conversion) (zeros : Bool) (sign body : Octets) : Octets :=
  let body :=
    if zeros && c.zeros && !c.left then
      List.replicate (c.width - sign.length - body.length) '0' ++ body
    else body
  fill c (sign ++ body)

/-- A whole number as a conversion writes it. -/
def number (c : Conversion) (v : Int) : Octets :=
  let isSigned := c.kind = 'd' || c.kind = 'i'
  let n := if isSigned then v.natAbs else (v % 18446744073709551616).toNat
  let digits :=
    match c.kind with
    | 'x' => inBase 16 17 n
    | 'X' => (inBase 16 17 n).map Char.toUpper
    | 'o' => inBase 8 23 n
    | _ => Decimal.ofNat n
  let digits := if n = 0 && c.precision = some 0 then [] else digits
  let digits := Floating.atLeast (c.precision.getD 0) digits
  let digits :=
    if c.other && c.kind = 'o' && digits.head? != some '0' then '0' :: digits else digits
  let sign :=
    if isSigned then signOf c (decide (v < 0))
    else if c.other && n != 0 && c.kind = 'x' then Octets.of "0x"
    else if c.other && n != 0 && c.kind = 'X' then Octets.of "0X"
    else []
  filled c c.precision.isNone sign digits

/-- The numbers of a dialect. -/
def Dialect.precision : Dialect → Precision
  | shell => .double
  | utility => .extended

/-- A number with a fraction as a conversion writes it. -/
def fraction (d : Dialect) (c : Conversion) (v : Floating) : Octets :=
  let style : Floating.Style :=
    match c.kind.toLower with
    | 'e' => .scientific
    | 'g' => .general
    | 'a' => .hexadecimal
    | _ => .fixed
  let body := Floating.render d.precision style c.precision c.other v.size
  let isFinite := match v.size with
    | .finite _ _ => true
    | _ => false
  let (mark, body) :=
    if style = .hexadecimal && isFinite then (body.take 2, body.drop 2) else ([], body)
  let big (t : Octets) : Octets := if c.kind.isUpper then t.map Char.toUpper else t
  filled c isFinite (signOf c v.negative ++ big mark) (big body)

/-- What is wrong with a number that something follows. -/
def numberProblem (d : Dialect) (t rest : Octets) (outOfRange : Bool) : Option Octets :=
  let about := match d with
    | .shell => t
    | .utility => Quoting.text t
  if !rest.isEmpty then
    if rest.length = t.length then
      some (about ++ Octets.of (match d with
        | .shell => ": expected numeric value"
        | .utility => ": expected a numeric value"))
    else
      some (about ++ Octets.of (match d with
        | .shell => ": not completely converted"
        | .utility => ": value not completely converted"))
  else if outOfRange then some (about ++ Octets.of ": Numerical result out of range")
  else none

namespace Printing

/-- Writes a text. -/
def out (p : Printing) (t : Octets) : Printing :=
  if t.isEmpty then p else { p with events := .out t :: p.events }

/-- Says what is wrong with an argument. -/
def warn (p : Printing) (t : Octets) : Printing :=
  { p with events := .warning t :: p.events, failed := true }

/-- The next argument. -/
def next (p : Printing) : Option Octets × Printing :=
  (p.args.head?, { p with args := p.args.tail, takes := true })

/-- Says what is wrong with a number, if anything is. -/
def check (p : Printing) (problem : Option Octets) : Printing :=
  match problem with
  | some m => p.warn m
  | none => p

/-- The character after a quote as a number, if an argument is such. -/
def quoted (d : Dialect) (t : Octets) (p : Printing) : Option (Nat × Printing) :=
  match t with
  | q :: rest =>
    if q = '\x27' || q = '\x22' then
      match rest with
      | [] => if d = .shell then some (0, p) else none
      | c :: more =>
        if d = .utility && !more.isEmpty then
          some (c.toNat, { p with events := .warning (Octets.of "warning: " ++ more ++
            Octets.of ": character(s) following character constant have been ignored")
            :: p.events })
        else some (c.toNat, p)
    else none
  | [] => none

/-- The number that an argument stands for. -/
def whole (d : Dialect) (isSigned : Bool) (arg : Option Octets) (p : Printing) :
    Int × Printing :=
  let t := arg.getD []
  match quoted d t p with
  | some (n, p) => (n, p)
  | none =>
    let (v, rest) := (Whole.signed? 0 t).getD (0, t)
    let low : Int := if isSigned then Whole.smallest else -18446744073709551615
    let high : Int := if isSigned then Whole.largest else 18446744073709551615
    if low ≤ v && v ≤ high then (v, p.check (numberProblem d t rest false))
    else
      let v := if isSigned then Whole.clamp v else 18446744073709551615
      let said := if d = .utility then [] else rest
      (v, p.check (numberProblem d t said true))

/-- The number with a fraction that an argument stands for. -/
def fractional (d : Dialect) (arg : Option Octets) (p : Printing) : Floating × Printing :=
  let t := arg.getD []
  match quoted d t p with
  | some (n, p) => (⟨false, .finite n 0⟩, p)
  | none =>
    match Floating.read? d.precision t with
    | none => (⟨false, .finite 0 0⟩, p.check (numberProblem d t t false))
    | some (v, r, rest) =>
      let outOfRange := r = .outOfRange
      let said := if d = .utility && outOfRange then [] else rest
      (v, p.check (numberProblem d t said outOfRange))

/-- The format is wrong. -/
def fail (p : Printing) (message : Octets) : Printing :=
  { p with mood := .broken message }

/-- Writes an argument as a conversion wants it. -/
def convert (d : Dialect) (c : Conversion) (p : Printing) : Printing :=
  let (arg, p) := p.next
  let t := arg.getD []
  let cut (t : Octets) : Octets := match c.precision with
    | some n => t.take n
    | none => t
  match c.kind with
  | 's' => p.out (fill c (cut t))
  | 'c' =>
    match arg with
    | none => if d = .shell then p.out (fill c ['\x00']) else p.out (fill c ['\x00'])
    | some t => p.out (fill c [t.headD '\x00'])
  | 'b' =>
    let (t, mood) := unescape d .argument t.length t
    { p.out (fill c (cut t)) with mood := mood }
  | 'q' => if arg.isSome then p.out (Quoting.word t) else p
  | 'd' | 'i' =>
    let (v, p) := whole d true arg p
    p.out (number c v)
  | 'o' | 'u' | 'x' | 'X' =>
    let (v, p) := whole d false arg p
    p.out (number c v)
  | _ =>
    let (v, p) := fractional d arg p
    p.out (fraction d c v)

end Printing

/-- The flags of conversions. -/
def flagsOf : Dialect → Octets
  | .shell => Octets.of "#-+ 0"
  | .utility => Octets.of "#-+ 0'I"

/-- Whether a dialect has a conversion with some flags and a precision or none. -/
def knows (d : Dialect) (flags : Octets) (hasPrecision : Bool) (kind : Char) : Bool :=
  match d with
  | .shell => "bcsdiouxXaAeEfFgG".toList.contains kind
  | .utility =>
    "aAcdeEfFgGiosuxX".toList.contains kind &&
      !((flags.contains '\x27' || flags.contains 'I') && "aAceEosxX".toList.contains kind) &&
      !(flags.contains '#' && "cdisu".toList.contains kind) &&
      !((flags.contains '0') && "cs".toList.contains kind) &&
      !(hasPrecision && kind = 'c')

/-- A width or precision: digits, or an argument for a star; and what follows. -/
def amount (d : Dialect) (t : Octets) (p : Printing) : Int × Octets × Printing :=
  match t with
  | '*' :: rest =>
    let (arg, p) := p.next
    let (v, p) := p.whole d true arg
    (v, rest, p)
  | t =>
    let digits := t.takeWhile Char.isDigit
    (Decimal.value digits, t.drop digits.length, p)

/-- The largest width. -/
def widest : Int := 2147483647

/-- A conversion, whose sign is behind, and what follows it. -/
def conversion (d : Dialect) (t : Octets) (p : Printing) : Printing × Octets :=
  match d, t with
  | .utility, 'b' :: rest =>
    if p.args.isEmpty then (p, rest)
    else (p.convert d ⟨false, false, false, false, false, 0, none, 'b'⟩, rest)
  | .utility, 'q' :: rest =>
    if p.args.isEmpty then (p, rest)
    else (p.convert d ⟨false, false, false, false, false, 0, none, 'q'⟩, rest)
  | _, _ =>
    let flags := t.takeWhile (flagsOf d).contains
    let rest := t.drop flags.length
    let given := p.args
    let (width, rest, p) := amount d rest p
    if d = .utility && (width < -widest - 1 || widest < width) then
      (p.fail (Octets.of "invalid field width: " ++ Quoting.text (given.headD [])), [])
    else
      let given := p.args
      let (precision, hasPrecision, rest, p) : Option Int × Bool × Octets × Printing :=
        match rest with
        | '.' :: rest =>
          let (v, rest, p) := amount d rest p
          (if v < 0 then none else some v, true, rest, p)
        | rest => (none, false, rest, p)
      if d = .utility && widest < precision.getD 0 then
        (p.fail (Octets.of "invalid precision: " ++ Quoting.text (given.headD [])), [])
      else
        let rest :=
          if d = .utility then rest.dropWhile "lLhjtz".toList.contains else rest
        let spoken (rest : Octets) : Octets :=
          '%' :: t.take (t.length - rest.length)
        match rest with
        | [] =>
          match d with
          | .shell => (p.fail (Octets.of "missing format character"), [])
          | .utility =>
            (p.fail (spoken [] ++ Octets.of ": invalid conversion specification"), [])
        | kind :: rest =>
          if knows d flags hasPrecision kind then
            (p.convert d
              { left := flags.contains '-' || width < 0
                plus := flags.contains '+'
                blank := flags.contains ' '
                other := flags.contains '#'
                zeros := flags.contains '0'
                width := width.natAbs
                precision := precision.map Int.toNat
                kind := kind }, rest)
          else
            let what := match d with
              | .shell => ": invalid directive"
              | .utility => ": invalid conversion specification"
            (p.fail (spoken rest ++ Octets.of what), [])

/-- One use of a format.  Every round takes a character, so as many rounds as characters
are enough. -/
def once (d : Dialect) : Nat → Octets → Printing → Printing
  | 0, _, p => p
  | _ + 1, [], p => p
  | n + 1, c :: t, p =>
    if p.mood != .on then p
    else if c = '\\' then
      match escape d .format t with
      | (.stop, _) => { p with mood := .stopped }
      | (.wrong m, _) => p.fail m
      | (.text b, rest) => once d n rest (p.out b)
    else if c = '%' then
      match t with
      | '%' :: t => once d n t (p.out ['%'])
      | t =>
        let (p, rest) := conversion d t p
        once d n rest p
    else
      let plain := (c :: t).takeWhile fun c => c != '\\' && c != '%'
      once d n ((c :: t).drop plain.length) (p.out plain)

/-- A format used until the arguments are gone; every use but the last takes one, so as
many rounds as arguments are enough. -/
def rounds (d : Dialect) (format : Octets) : Nat → Printing → Printing
  | 0, p => p
  | n + 1, p =>
    let p := once d format.length format { p with takes := false }
    if p.mood = .on && p.takes && !p.args.isEmpty then rounds d format n p else p

/-- What comes of a format and some arguments. -/
def render (d : Dialect) (format : Octets) (args : List Octets) : Printing :=
  rounds d format (args.length + 1) ⟨[], args, false, .on, false⟩

/-- The text that was printed. -/
def Printing.text (p : Printing) : Octets :=
  p.events.reverse.flatMap fun
    | .out t => t
    | .warning _ => []

example : (render .utility (Octets.of "%s|") [Octets.of "a", [], Octets.of "b c"]).text =
    Octets.of "a||b c|" := by decide +kernel

end Offspring.Format
