import Offspring.Number.Whole
/-!
# Binary numbers of limited length

A number is held as a whole number of at most so many bits times a power of two.  A
decimal text stands for the nearest such number, of two the even one, and a number is
written with some decimals by the same rule; both work with whole numbers only, so
nothing is lost on the way.
-/

namespace Offspring

/-- How long the numbers of a kind are. -/
structure Precision where
  bits : Nat
  /-- All are below two to this power. -/
  highest : Int
  /-- The power of two that the smallest is. -/
  lowest : Int
  deriving DecidableEq, Repr

/-- Numbers of 53 bits. -/
def Precision.double : Precision := ⟨53, 1024, -1074⟩

/-- Numbers of 64 bits. -/
def Precision.extended : Precision := ⟨64, 16384, -16445⟩

/-- The size of a number. -/
inductive Magnitude where
  | nan
  | infinite
  /-- A whole number times a power of two. -/
  | finite (m : Nat) (e : Int)
  deriving DecidableEq, Repr

/-- A number with a sign, which zero has too. -/
structure Floating where
  negative : Bool
  size : Magnitude
  deriving DecidableEq, Repr

/-- The nearest whole number to a quotient, of two the even one. -/
def roundDiv (a b : Nat) : Nat :=
  let q := a / b
  let r := a % b
  if 2 * r > b || (2 * r = b && q % 2 = 1) then q + 1 else q

/-- A power of a number with a whole exponent, as a quotient. -/
def powerOf (base : Nat) (e : Int) : Nat × Nat :=
  if e < 0 then (1, Nat.pow base e.natAbs) else (Nat.pow base e.natAbs, 1)

namespace Floating

/-- How a text was read as a number. -/
inductive Reading where
  | exact
  /-- The number was too large or too small. -/
  | outOfRange
  deriving DecidableEq, Repr

/-- The nearest number of a precision to a quotient. -/
def nearest (p : Precision) (a b : Nat) : Magnitude × Reading :=
  if a = 0 then (.finite 0 0, .exact)
  else
    let about : Int := (Nat.log2 a : Int) - (Nat.log2 b : Int)
    let scaled (e : Int) : Nat :=
      let (x, y) := powerOf 2 e
      roundDiv (a * y) (b * x)
    let full (e : Int) : Bool :=
      let (x, y) := powerOf 2 e
      decide (Nat.pow 2 (p.bits - 1) * (b * x) ≤ a * y)
    let high := about - p.bits + 1
    let e := max p.lowest (if full high then high else high - 1)
    let m := scaled e
    let (m, e) := if m = Nat.pow 2 p.bits then (m / 2, e + 1) else (m, e)
    if p.highest < e + p.bits then (.infinite, .outOfRange)
    else
      let (x, y) := powerOf 2 e
      let small := decide (m < Nat.pow 2 (p.bits - 1))
      (.finite m e, if small && m * x * b != a * y then .outOfRange else .exact)

/-- Takes a word from the start of a text, in any case. -/
def word? (w : String) (t : Octets) : Option Octets :=
  if (t.take w.length).map Char.toLower = w.toList then some (t.drop w.length) else none

/-- An exponent after one of two letters, and what follows; zero if there is none. -/
def exponent (letter : Char) (t : Octets) : Int × Octets :=
  match t with
  | c :: rest =>
    if c.toLower = letter then
      let (negative, digits) := match rest with
        | '-' :: r => (true, r)
        | '+' :: r => (false, r)
        | r => (false, r)
      let (v, n, more) := Whole.digits 10 digits
      if n = 0 then (0, t) else (if negative then -(v : Int) else v, more)
    else (0, t)
  | [] => (0, t)

/-- Digits with a point in a base, their number as if there were no point, how many come
after it, how many there are, and what follows. -/
def pointed (base : Nat) (t : Octets) : Nat × Nat × Nat × Octets :=
  let (a, n, rest) := Whole.digits base t
  match rest with
  | '.' :: more =>
    let (b, k, after) := Whole.digits base more
    if n = 0 && k = 0 then (0, 0, 0, t) else (a * Nat.pow base k + b, k, n + k, after)
  | _ => (a, 0, n, rest)

/-- The exponents beyond which no number is left. -/
def extreme : Nat := 20000

/-- The number at the start of a text, and what follows; none if there is none. -/
def read? (p : Precision) (t : Octets) : Option (Floating × Reading × Octets) :=
  let t := t.dropWhile Whole.isBlank
  let (negative, t) := match t with
    | '-' :: t => (true, t)
    | '+' :: t => (false, t)
    | t => (false, t)
  let decimal : Option (Floating × Reading × Octets) :=
    let (v, places, n, rest) := pointed 10 t
    if n = 0 then none
    else
      let (e, rest) := exponent 'e' rest
      let e := e - places
      let e := max (-(extreme + n : Int)) (min (extreme : Int) e)
      let (x, y) := if v = 0 then (1, 1) else powerOf 10 e
      let (size, r) := nearest p (v * x) y
      some (⟨negative, size⟩, r, rest)
  match word? "infinity" t with
  | some rest => some (⟨negative, .infinite⟩, .exact, rest)
  | none =>
  match word? "inf" t with
  | some rest => some (⟨negative, .infinite⟩, .exact, rest)
  | none =>
  match word? "nan" t with
  | some rest => some (⟨negative, .nan⟩, .exact, rest)
  | none =>
  match word? "0x" t with
  | none => decimal
  | some rest =>
    let (v, places, n, rest) := pointed 16 rest
    if n = 0 then decimal
    else
      let (e, rest) := exponent 'p' rest
      let e := e - 4 * places
      let e := max (-(extreme + 4 * n : Int)) (min (extreme : Int) e)
      let (x, y) := powerOf 2 e
      let (size, r) := nearest p (v * x) y
      some (⟨negative, size⟩, r, rest)

/-- A finite size as a quotient. -/
def quotient (m : Nat) (e : Int) : Nat × Nat :=
  let (x, y) := powerOf 2 e
  (m * x, y)

/-- A row of digits with at least so many. -/
def atLeast (n : Nat) (t : Octets) : Octets :=
  List.replicate (n - t.length) '0' ++ t

/-- Digits with a point before the last ones; it is left out before none unless `point`. -/
def withPoint (places : Nat) (point : Bool) (digits : Octets) : Octets :=
  let digits := atLeast (places + 1) digits
  let whole := digits.take (digits.length - places)
  if places = 0 then (if point then whole ++ ['.'] else whole)
  else whole ++ ['.'] ++ digits.drop (digits.length - places)

/-- A quotient with so many decimals. -/
def fixed (places : Nat) (point : Bool) (a b : Nat) : Octets :=
  withPoint places point (Decimal.ofNat (roundDiv (a * Nat.pow 10 places) b))

/-- The power of ten at or below a quotient that is not zero. -/
def magnitude (a b : Nat) : Int :=
  if b ≤ a then ((Decimal.ofNat (a / b)).length : Int) - 1
  else
    let d := (Decimal.ofNat (b / a)).length
    if b ≤ a * Nat.pow 10 (d - 1) then -((d - 1 : Nat) : Int) else -(d : Int)

/-- The digits of a quotient, one and so many more, and its power of ten after rounding. -/
def significant (places : Nat) (a b : Nat) : Nat × Int :=
  if a = 0 then (0, 0)
  else
    let x := magnitude a b
    let (up, down) := powerOf 10 ((places : Int) - x)
    let n := roundDiv (a * up) (b * down)
    if n = Nat.pow 10 (places + 1) then (n / 10, x + 1) else (n, x)

/-- An exponent with its sign and at least two digits. -/
def exponentText (x : Int) : Octets :=
  (if x < 0 then '-' else '+') :: atLeast 2 (Decimal.ofNat x.natAbs)

/-- A quotient with one digit, so many decimals and an exponent. -/
def scientific (places : Nat) (point : Bool) (a b : Nat) : Octets :=
  let (n, x) := significant places a b
  withPoint places point (Decimal.ofNat n) ++ ['e'] ++ exponentText x

/-- Decimals without zeros at their end, and without a point that nothing follows. -/
def withoutZeros (t : Octets) : Octets :=
  let body := t.takeWhile fun c => c != 'e'
  let rest := t.drop body.length
  if body.contains '.' then
    let short := (body.reverse.dropWhile fun c => c = '0').dropWhile fun c => c = '.'
    short.reverse ++ rest
  else t

/-- A quotient with so many digits in the shorter of both ways; zeros at the end are kept
if `point`. -/
def general (digits : Nat) (point : Bool) (a b : Nat) : Octets :=
  let p := max digits 1
  let (_, x) := significant (p - 1) a b
  let t :=
    if -4 ≤ x && x < (p : Int) then fixed ((p : Int) - 1 - x).toNat point a b
    else scientific (p - 1) point a b
  if point then t else withoutZeros t

/-- The hexadecimal digits of a number, so many. -/
def hexDigits : Nat → Nat → Octets
  | 0, _ => []
  | n + 1, v => hexDigits n (v / 16) ++ [Nat.digitChar (v % 16)]

/-- A size in hexadecimal with a power of two. -/
def hexadecimal (p : Precision) (places : Option Nat) (point : Bool) (m : Nat) (e : Int) :
    Octets :=
  -- The bits that make up the first digit, and the digits after it.
  let lead := if p.bits % 4 = 0 then 4 else 1
  let after := (p.bits - lead) / 4
  let x : Int := if m = 0 then 0 else e + 4 * after
  let k := places.getD after
  let (n, k) :=
    if k < after then (roundDiv m (Nat.pow 16 (after - k)), k)
    else (m * Nat.pow 16 (k - after), k)
  let first := n / Nat.pow 16 k
  let rest := hexDigits k (n % Nat.pow 16 k)
  let rest := if places.isNone then (rest.reverse.dropWhile fun c => c = '0').reverse else rest
  let mid := if rest.isEmpty && !point then [] else '.' :: rest
  let firsts := if first < 16 then [Nat.digitChar first] else hexDigits 2 first
  Octets.of "0x" ++ firsts ++ mid ++ ['p', if x < 0 then '-' else '+'] ++
    Decimal.ofNat x.natAbs

/-- How a number is written. -/
inductive Style where
  | fixed
  | scientific
  | general
  | hexadecimal
  deriving DecidableEq, Repr

/-- The size of a number in a style, with a number of decimals or digits if one is given. -/
def render (p : Precision) (s : Style) (places : Option Nat) (point : Bool) :
    Magnitude → Octets
  | .nan => Octets.of "nan"
  | .infinite => Octets.of "inf"
  | .finite m e =>
    let (a, b) := quotient m e
    let k := places.getD 6
    match s with
    | .fixed => Floating.fixed k point a b
    | .scientific => Floating.scientific k point a b
    | .general => Floating.general k point a b
    | .hexadecimal => Floating.hexadecimal p places point m e

end Floating

end Offspring
