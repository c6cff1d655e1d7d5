import Offspring.Number.Whole
import Offspring.Shell.Script
/-!
# Expressions

Whole numbers of 64 bits with the operators of the language that systems are written
in.  A name stands for the number that its parameter holds, and can be assigned to.
-/

namespace Offspring.Shell.Arithmetic

open Whole (wrap clamp isBlank constant whole?)

/-- A token of an expression. -/
inductive Token where
  | number (n : Int)
  | name (t : Octets)
  | op (s : String)
  /-- Something else. -/
  | unknown
  | finish
  deriving DecidableEq, Repr

/-- The operators, longer ones first. -/
def operators : List String :=
  ["<<=", ">>=", "<=", ">=", "==", "!=", "&&", "||", "<<", ">>", "+=", "-=", "*=", "/=", "%=",
    "&=", "|=", "^=", "<", ">", "+", "-", "*", "/", "%", "&", "|", "^", "!", "~", "(", ")",
    "?", ":", "="]

/-- The tokens of an expression.  Every round takes a character. -/
def tokens : Nat → Octets → List Token
  | 0, _ => []
  | n + 1, t =>
    match t with
    | [] => [.finish]
    | c :: rest =>
      if isBlank c then tokens n rest
      else if c.isDigit then
        let (v, _, rest) := constant t
        .number (clamp v) :: tokens n rest
      else if isNameChar c then
        let name := t.takeWhile isNameChar
        .name name :: tokens n (t.drop name.length)
      else
        match operators.find? fun o => o.toList.isPrefixOf t with
        | some o => .op o :: tokens n (t.drop o.length)
        | none => [.unknown]

/-- Why an expression has no value. -/
inductive Problem where
  /-- The expression is no expression. -/
  | expecting (what : String)
  | divisionByZero
  /-- A parameter holds no number. -/
  | illegal (t : Octets)
  deriving DecidableEq, Repr

/-- What is known while an expression is worked out. -/
structure State where
  tokens : List Token
  /-- The values assigned so far, latest first. -/
  assigned : List (Octets × Int)

/-- What works out a part of an expression. -/
abbrev Work := StateT State (Except Problem)

/-- The next token. -/
def peek : Work Token := do
  return (← get).tokens.headD .finish

/-- Takes a token. -/
def skip : Work Unit :=
  modify fun s => { s with tokens := s.tokens.tail }

/-- Gives up. -/
def giveUp {α : Type} (p : Problem) : Work α :=
  throw p

/-- How tightly an operator of two numbers binds. -/
def rank : String → Option Nat
  | "*" | "/" | "%" => some 10
  | "+" | "-" => some 9
  | "<<" | ">>" => some 8
  | "<" | ">" | "<=" | ">=" => some 7
  | "==" | "!=" => some 6
  | "&" => some 5
  | "^" => some 4
  | "|" => some 3
  | _ => none

/-- The number for yes or no. -/
def truth (b : Bool) : Int := if b then 1 else 0

/-- A number as 64 bits without a sign. -/
def bits (n : Int) : Nat :=
  (n % 18446744073709551616).toNat

/-- An operator of two numbers. -/
def apply (op : String) (a b : Int) : Except Problem Int :=
  match op with
  | "*" => .ok (wrap (a * b))
  | "/" => if b = 0 then .error .divisionByZero else .ok (wrap (Int.tdiv a b))
  | "%" => if b = 0 then .error .divisionByZero else .ok (wrap (Int.tmod a b))
  | "+" => .ok (wrap (a + b))
  | "-" => .ok (wrap (a - b))
  | "<<" => .ok (wrap (a * (Nat.pow 2 (bits b % 64) : Nat)))
  | ">>" => .ok (a / (Nat.pow 2 (bits b % 64) : Nat))
  | "<" => .ok (truth (decide (a < b)))
  | ">" => .ok (truth (decide (b < a)))
  | "<=" => .ok (truth (decide (a ≤ b)))
  | ">=" => .ok (truth (decide (b ≤ a)))
  | "==" => .ok (truth (decide (a = b)))
  | "!=" => .ok (truth (decide (a ≠ b)))
  | "&" => .ok (wrap (bits a &&& bits b))
  | "^" => .ok (wrap (bits a ^^^ bits b))
  | "|" => .ok (wrap (bits a ||| bits b))
  | _ => .ok b

section values

-- The values of parameters.
variable (lookup : Octets → Octets)

/-- The number that a name stands for. -/
def valueOf (name : Octets) : Work Int := do
  let s ← get
  match s.assigned.find? fun a => a.1 = name with
  | some a => return a.2
  | none =>
    let t := lookup name
    match whole? 0 t with
    | some n => return n
    | none => giveUp (.illegal t)

/-- Operators of two numbers that bind at least so tightly, after a first number. -/
def chain (unary : Bool → Work Int) (live : Bool) : Nat → Nat → Int → Work Int
  | 0, _, a => return a
  | n + 1, least, a => do
    match ← peek with
    | .op o =>
      match rank o with
      | none => return a
      | some r =>
        if r < least then return a
        else
          skip
          let b ← chain unary live n (r + 1) (← unary live)
          if live then
            match apply o a b with
            | .ok c => chain unary live n least c
            | .error p => giveUp p
          else chain unary live n least 0
    | _ => return a

/-- Numbers joined by conditions of one kind. -/
def joined (o : String) (isAnd : Bool) (inner : Bool → Work Int) (live : Bool) :
    Nat → Int → Work Int
  | 0, a => return a
  | n + 1, a => do
    if (← peek) = .op o then
      skip
      let decided := if isAnd then a = 0 else a ≠ 0
      let b ← inner (live && !decided)
      joined o isAnd inner live n (if decided then truth (!isAnd) else truth (decide (b ≠ 0)))
    else return a

/-- A number with the operators before it; `inner` reads what stands in parentheses. -/
def unary (inner : Bool → Work Int) : Nat → Bool → Work Int
  | 0, _ => giveUp (.expecting "primary")
  | k + 1, live => do
    match ← peek with
    | .op "!" => skip; return truth (decide ((← unary inner k live) = 0))
    | .op "~" => skip; return wrap (-(← unary inner k live) - 1)
    | .op "-" => skip; return wrap (-(← unary inner k live))
    | .op "+" => skip; unary inner k live
    | .op "(" =>
      skip
      let v ← inner live
      if (← peek) = .op ")" then
        skip
        return v
      else giveUp (.expecting "')'")
    | .number v => skip; return v
    | .name t => skip; if live then valueOf lookup t else return 0
    | _ => giveUp (.expecting "primary")

/-- The operator of an assignment that the tokens start with, and its name. -/
def assignmentAt : List Token → Option (Octets × String)
  | .name name :: .op o :: _ =>
    if o.toList.getLast? == some '=' && o != "==" && o != "<=" && o != ">=" && o != "!=" then
      some (name, o)
    else none
  | _ => none

/-- Assigns the value of what follows to a name. -/
def assign (inner : Bool → Work Int) (name : Octets) (o : String) (live : Bool) :
    Work Int := do
  skip
  skip
  let b ← inner live
  if !live then return b
  let a ← if o = "=" then pure b else valueOf lookup name
  match if o = "=" then .ok b else apply (String.ofList o.toList.dropLast) a b with
  | .ok v =>
    modify fun s => { s with assigned := (name, v) :: s.assigned }
    return v
  | .error p => giveUp p

/-- The value of an expression; only what is `live` has effects. -/
def expression : Nat → Bool → Work Int
  | 0, _ => giveUp (.expecting "primary")
  | n + 1, live => do
    let ts := (← get).tokens
    match assignmentAt ts with
    | some (name, o) => assign lookup (expression n) name o live
    | none =>
      let k := ts.length + 1
      let one := unary lookup (expression n) k
      let binary (live : Bool) : Work Int := do chain one live k 0 (← one live)
      let conjunction (live : Bool) : Work Int := do
        joined "&&" true binary live k (← binary live)
      let a ← joined "||" false conjunction live k (← conjunction live)
      if (← peek) = .op "?" then
        skip
        let b ← expression n (live && decide (a ≠ 0))
        if (← peek) = .op ":" then
          skip
          let c ← expression n (live && decide (a = 0))
          return if a = 0 then c else b
        else giveUp (.expecting "':'")
      else return a

/-- The value of a text, and the values that it assigns, in order. -/
def evaluate (t : Octets) : Except Problem (Int × List (Octets × Int)) :=
  let work : Work Int := do
    let v ← expression lookup (t.length + 2) true
    if (← peek) = .finish then return v else giveUp (.expecting "EOF")
  match work.run ⟨tokens (t.length + 1) t, []⟩ with
  | .ok (v, s) => .ok (v, s.assigned.reverse)
  | .error p => .error p

end values

/-- What a problem with a text says. -/
def Problem.message (p : Problem) (t : Octets) : Octets :=
  let about (s : String) : Octets :=
    Octets.of ("arithmetic expression: " ++ s ++ ": \"") ++ t ++ ['\x22']
  match p with
  | .expecting what => about ("expecting " ++ what)
  | .divisionByZero => about "division by zero"
  | .illegal u => Octets.of "Illegal number: " ++ u

end Offspring.Shell.Arithmetic
