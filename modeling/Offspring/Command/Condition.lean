import Offspring.Command.World
import Offspring.Number.Whole
import Offspring.Shell.Pattern
/-!
# Conditions on texts, numbers and files

A condition is a row of words: tests of one word, comparisons of two, and connectives.
What a word means depends on how many follow it, so that an operator can be an operand
too.
-/

namespace Offspring.Condition

/-- What a word can be. -/
inductive Lexeme where
  | finish
  | operand
  /-- A test of the next word. -/
  | test (c : Char)
  /-- A comparison of the words around. -/
  | comparison (s : String)
  | not
  | and
  | or
  | left
  | right
  deriving DecidableEq, Repr

/-- The letters of tests. -/
def tests : List Char :=
  "rwxefdcbpugkstznhLOGS".toList

/-- The comparisons. -/
def comparisons : List String :=
  ["=", "!=", "<", ">", "-eq", "-ne", "-ge", "-gt", "-le", "-lt", "-nt", "-ot", "-ef"]

/-- The operator that a word is, if it is one. -/
def operator? (w : Octets) : Option Lexeme :=
  match comparisons.find? fun s => w = Octets.of s with
  | some s => some (.comparison s)
  | none =>
    match w with
    | ['!'] => some .not
    | ['('] => some .left
    | [')'] => some .right
    | ['-', 'a'] => some .and
    | ['-', 'o'] => some .or
    | ['-', c] => if tests.contains c then some (.test c) else none
    | _ => none

/-- Whether a word is a comparison. -/
def isComparison (w : Octets) : Bool :=
  match operator? w with
  | some (.comparison _) => true
  | _ => false

/-- What the first of some words is where an operand may stand. -/
def lex : List Octets → Lexeme
  | [] => .finish
  | w :: rest =>
    match operator? w with
    | none => .operand
    | some (.test c) =>
      match rest with
      | [] => .operand
      | [_] => .test c
      | a :: _ => if isComparison a then .operand else .test c
    | some .left => if rest.isEmpty then .operand else .left
    | some l => l

/-- Why a condition has no answer. -/
inductive Problem where
  | unexpected (w : Octets)
  | argumentExpected (w : Octets)
  | parenExpected
  | illegalNumber (w : Octets)
  deriving DecidableEq, Repr

/-- What a problem says. -/
def Problem.message : Problem → Octets
  | unexpected w => w ++ Octets.of ": unexpected operator"
  | argumentExpected w => w ++ Octets.of ": argument expected"
  | parenExpected => Octets.of "closing paren expected"
  | illegalNumber w => Octets.of "Illegal number: " ++ w

/-- The number that a word is. -/
def number (w : Octets) : Except Problem Int :=
  match Whole.signed? 10 w with
  | some (v, rest) =>
    if rest.all Whole.isBlank && Whole.smallest ≤ v && v ≤ Whole.largest then .ok v
    else .error (.illegalNumber w)
  | none => .error (.illegalNumber w)

/-- The answer to a test of a path. -/
def fileTest (p : Proc) (c : Char) (path : Octets) : Bool :=
  let files := p.world.files
  if c = 'h' || c = 'L' then
    match files.locate p.cwd path false with
    | .ok place =>
      match place.entry files.root with
      | .link _ => true
      | _ => false
    | .error _ => false
  else
    match files.lookup p.cwd path with
    | .error _ => false
    | .ok e =>
      match c, e with
      | 'f', .file _ _ => true
      | 's', .file t _ => !t.isEmpty
      | 's', .folder _ _ => true
      | 'd', .folder _ _ => true
      | 'c', .device _ => true
      | 'x', .file _ runs => runs
      | 'x', .folder _ _ => true
      | c, _ => c = 'e' || c = 'r' || c = 'w' || c = 'O' || c = 'G'

/-- The answer to a test. -/
def test (p : Proc) (c : Char) (w : Octets) : Except Problem Bool :=
  if c = 'z' then .ok w.isEmpty
  else if c = 'n' then .ok (!w.isEmpty)
  else if c = 't' then (number w).map fun _ => false
  else .ok (fileTest p c w)

/-- The answer to a comparison. -/
def compare (p : Proc) (s : String) (a b : Octets) : Except Problem Bool :=
  let files := p.world.files
  let numbers (f : Int → Int → Bool) : Except Problem Bool :=
    match number a, number b with
    | .error e, _ => .error e
    | _, .error e => .error e
    | .ok x, .ok y => .ok (f x y)
  match s with
  | "=" => .ok (a = b)
  | "!=" => .ok (a != b)
  | "<" => .ok (a != b && Shell.Pattern.precedes a b)
  | ">" => .ok (a != b && Shell.Pattern.precedes b a)
  | "-eq" => numbers fun x y => x = y
  | "-ne" => numbers fun x y => x ≠ y
  | "-ge" => numbers fun x y => y ≤ x
  | "-gt" => numbers fun x y => y < x
  | "-le" => numbers fun x y => x ≤ y
  | "-lt" => numbers fun x y => x < y
  | "-ef" =>
    match files.locate p.cwd a true, files.locate p.cwd b true with
    | .ok x, .ok y => .ok (x.names = y.names)
    | _, _ => .ok false
  | _ => .ok false

/-- The answer that the words give, and the words from the last one looked at on.  Every
round goes on to another word or one level down. -/
def anyOf (p : Proc) : Nat → Nat → List Octets → Except Problem (Bool × List Octets)
  | 0, _, ws => .ok (false, ws)
  | n + 1, level, ws =>
    match level with
    -- Joined by or.
    | 0 =>
      match anyOf p n 1 ws with
      | .error e => .error e
      | .ok (a, ws) =>
        if lex ws.tail = .or then
          match anyOf p n 0 (ws.drop 2) with
          | .error e => .error e
          | .ok (b, ws) => .ok (a || b, ws)
        else .ok (a, ws)
    -- Joined by and.
    | 1 =>
      match anyOf p n 2 ws with
      | .error e => .error e
      | .ok (a, ws) =>
        if lex ws.tail = .and then
          match anyOf p n 1 (ws.drop 2) with
          | .error e => .error e
          | .ok (b, ws) => .ok (a && b, ws)
        else .ok (a, ws)
    -- One test.
    | _ =>
      match lex ws with
      | .not =>
        match anyOf p n 2 (if ws.tail.isEmpty then ws.drop 1 else ws.tail) with
        | .error e => .error e
        | .ok (a, ws') => .ok (!a, if ws.tail.isEmpty then ws else ws')
      | .finish => .ok (false, ws)
      | .left =>
        if lex ws.tail = .right then .ok (false, ws.tail)
        else
          match anyOf p n 0 ws.tail with
          | .error e => .error e
          | .ok (a, ws) =>
            if lex ws.tail = .right then .ok (a, ws.tail) else .error .parenExpected
      | .test c =>
        match ws with
        | _ :: w :: rest => (test p c w).map fun a => (a, w :: rest)
        | w :: _ => .error (.argumentExpected w)
        | [] => .ok (false, [])
      | _ => compared ws
where
  /-- A comparison at the head of some words, or one word that is empty or not. -/
  compared (ws : List Octets) : Except Problem (Bool × List Octets) :=
    match ws, lex ws.tail with
    | a :: o :: rest, .comparison s =>
      match rest with
      | b :: _ => (compare p s a b).map fun r => (r, rest)
      | [] => .error (.argumentExpected o)
    | a :: _, _ => .ok (!a.isEmpty, ws)
    | [], _ => .ok (false, [])

/-- The answer that some words give, the other way round unless `straight`. -/
def answer (p : Proc) (straight compares : Bool) (ws : List Octets) : Except Problem Bool :=
  match if compares then anyOf.compared p ws else anyOf p (4 * ws.length + 8) 0 ws with
  | .error e => .error e
  | .ok (a, rest) =>
    match rest with
    | w :: _ :: _ => .error (.unexpected w)
    | _ => .ok (a = straight)

/-- The answer that some words give.  Of three words the one in the middle may be a
comparison; else, and of four, the first may turn the others, or enclose them. -/
def evaluate (p : Proc) (ws : List Octets) : Except Problem Bool :=
  go (ws.length + 1) true ws
where
  /-- The answer, the other way round unless `straight`.  Every round takes a word. -/
  go : Nat → Bool → List Octets → Except Problem Bool
    | 0, _, _ => .ok false
    | n + 1, straight, ws =>
      let few := ws.length = 3 || ws.length = 4
      if ws.isEmpty then .ok (!straight)
      else if ws.length = 3 && isComparison (ws.getD 1 []) then answer p straight true ws
      else if few && ws.head? = some ['('] && ws.getLast? = some [')'] then
        answer p straight false ws.tail.dropLast
      else if few && ws.head? = some ['!'] then go n (!straight) ws.tail
      else answer p straight false ws

end Offspring.Condition
