import Offspring.Shell.Script
import Offspring.Text.Decimal
/-!
# Reading a script

A script is read one line at a time, as far as its commands go, so that all before a
mistake is run.  Characters make words and operators, with quotes and substitutions;
these make commands.  A backslash before a newline joins two lines, except in single
quotes.

A word may hold commands, which are read by what reads commands, one level deeper.
Every other round takes a character or a token.
-/

namespace Offspring.Shell

/-- How a redirection is written. -/
inductive Arrow where
  | write
  /-- As `write`, whatever the options say. -/
  | force
  | append
  | read
  | readWrite
  | copy
  | here (strips : Bool)
  deriving DecidableEq, Repr

/-- A token of a script. -/
inductive Token where
  | eof
  | newline
  | semi
  | amp
  | both
  | either
  | pipe
  | left
  | right
  | endClause
  | redirect (fd : Nat) (a : Arrow)
  /-- A word, and whether it holds quotes. -/
  | word (w : Word) (quoted : Bool)
  | reserved (t : Octets)

/-- A text that the script still has to give. -/
structure Awaited where
  number : Nat
  /-- Tabs at the start of its lines do not count. -/
  strips : Bool
  /-- It may hold substitutions. -/
  expands : Bool
  mark : Octets

/-- What is left of a script. -/
structure Reading where
  rest : Octets
  line : Nat
  awaited : List Awaited
  texts : List (Nat × Word)
  nextText : Nat
  /-- A token that was put back. -/
  back : Option Token

/-- A mistake in a script. -/
structure Mistake where
  line : Nat
  message : Octets
  deriving DecidableEq, Repr

namespace Reading

/-- What reads a part of a script. -/
abbrev Read := StateT Reading (Except Mistake)

/-- Stops at a mistake. -/
def mistake {α : Type} (message : String) : Read α := do
  let r ← get
  throw ⟨r.line, Octets.of message⟩

/-- Skips joints of lines. -/
def skipJoints : Octets → Nat → Octets × Nat
  | '\\' :: '\n' :: t, line => skipJoints t (line + 1)
  | t, line => (t, line)

/-- The rest of the script after joints of lines. -/
def ahead : Read Octets := do
  let r ← get
  let (rest, line) := skipJoints r.rest r.line
  set { r with rest := rest, line := line }
  return rest

/-- The newlines in a text. -/
def newlines (t : Octets) : Nat :=
  t.count '\n'

/-- Takes so many characters of the script as they are. -/
def take (n : Nat) : Read Octets := do
  let r ← get
  let t := r.rest.take n
  set { r with rest := r.rest.drop n, line := r.line + newlines t }
  return t

/-- Takes characters as long as they are of a kind. -/
def takeWhile (f : Char → Bool) : Read Octets := do
  let r ← get
  take (r.rest.takeWhile f).length

/-- Where a piece of a word stands. -/
inductive Within where
  /-- In a word. -/
  | word
  /-- In the mark of a text, where nothing is replaced. -/
  | mark
  | quotes
  /-- In the braces of a parameter, outside quotes. -/
  | braces
  /-- In the braces of a parameter, inside quotes. -/
  | quotedBraces
  /-- In an expression, inside so many parentheses. -/
  | expression (depth : Nat)
  /-- In a text of the script. -/
  | text
  deriving DecidableEq, Repr

/-- Whether a backslash here is one only before some characters. -/
def Within.isQuoted : Within → Bool
  | word => false
  | mark => false
  | braces => false
  | _ => true

/-- Whether a character means nothing of its own anywhere. -/
def isOrdinary (c : Char) : Bool :=
  !(c = ' ' || c = '\t' || c = '\n' || c = ';' || c = '&' || c = '|' || c = '(' || c = ')' ||
    c = '<' || c = '>' || c = '\\' || c = '\x27' || c = '\x22' || c = '\x60' || c = '$' ||
    c = '\x7d')

/-- Whether a character ends a word. -/
def endsWord (c : Char) : Bool :=
  c = ' ' || c = '\t' || c = '\n' || c = ';' || c = '&' || c = '|' || c = '(' || c = ')' ||
    c = '<' || c = '>'

/-- What follows the end of single quotes. -/
def singleQuoted : Read Octets := do
  let t ← takeWhile fun c => c != '\x27'
  let r ← get
  if r.rest.isEmpty then mistake "Syntax error: Unterminated quoted string"
  let _ ← take 1
  return t

/-- The text between backquotes, with what backslashes protect; none without an end. -/
def backquoted (isQuoted : Bool) : Octets → Option (Octets × Nat)
  | [] => none
  | '\x60' :: _ => some ([], 1)
  | '\\' :: c :: t =>
    let kept : Octets :=
      if c = '\n' then []
      else if c = '\\' || c = '\x60' || c = '$' || (isQuoted && c = '\x22') then [c]
      else ['\\', c]
    (backquoted isQuoted t).map fun r => (kept ++ r.1, r.2 + 2)
  | c :: t => (backquoted isQuoted t).map fun r => (c :: r.1, r.2 + 1)

/-- The special parameters. -/
def isSpecial (c : Char) : Bool :=
  c = '@' || c = '*' || c = '#' || c = '?' || c = '-' || c = '$' || c = '!' || c.isDigit

/-- The number of a token that can be put back, as messages have it. -/
def shown : Token → Octets
  | .eof => Octets.of "end of file"
  | .newline => Octets.of "newline"
  | .semi => Octets.of "\";\""
  | .amp => Octets.of "\"&\""
  | .both => Octets.of "\"&&\""
  | .either => Octets.of "\"||\""
  | .pipe => Octets.of "\"|\""
  | .left => Octets.of "\"(\""
  | .right => Octets.of "\")\""
  | .endClause => Octets.of "\";;\""
  | .redirect _ _ => Octets.of "redirection"
  | .word _ _ => Octets.of "word"
  | .reserved t => '\x22' :: t ++ ['\x22']

/-- Stops at a token that cannot stand here, and says what could. -/
def unexpected {α : Type} (t : Token) (instead : Option Token) : Read α := do
  let r ← get
  let more := match instead with
    | some u => Octets.of " (expecting " ++ shown u ++ [')']
    | none => []
  throw ⟨r.line, Octets.of "Syntax error: " ++ shown t ++ Octets.of " unexpected" ++ more⟩

/-- The words that build commands. -/
def reservedWords : List Octets :=
  ["!", "case", "do", "done", "elif", "else", "esac", "fi", "for", "if", "in", "then",
    "until", "while", "\x7b", "\x7d"].map Octets.of

/-- Runs a reader on a text of its own. -/
def apart {α : Type} (t : Octets) (line : Nat) (read : Read α) : Read α := do
  let r ← get
  set { r with rest := t, line := line, awaited := [], back := none }
  let a ← read
  modify fun q => { q with rest := r.rest, line := r.line, awaited := r.awaited, back := r.back }
  return a

/-- Runs a reader with no token put back and no text awaited, and puts them back. -/
def inside {α : Type} (read : Read α) : Read α := do
  let r ← get
  set { r with awaited := [], back := none }
  let a ← read
  modify fun q => { q with awaited := r.awaited, back := r.back }
  return a

/-- Takes a closing parenthesis after a command. -/
def enclosed (script : Read (Option Command)) : Read (Option Command) := do
  let c ← script
  match (← get).back with
  | some .right => return c
  | some t => unexpected t (some .right)
  | none => unexpected .eof (some .right)

section words

-- What reads the command of a substitution; it stops before the end of that.
variable (script : Read (Option Command))

/-- A command between backquotes, which are behind. -/
def backquote (isQuoted : Bool) : Read Piece := do
  let r ← get
  match backquoted isQuoted r.rest with
  | none => mistake "Syntax error: EOF in backquote substitution"
  | some (t, n) =>
    let _ ← take n
    return .output (← apart t 1 script)

/-- The modifier of a parameter in braces, after its name; `word` reads the word of it. -/
def modifier (isQuoted : Bool) (word : Within → Read (List Piece)) : Read Modifier := do
  let inner : Within := if isQuoted then .quotedBraces else .braces
  let rest ← ahead
  match rest with
  | '\x7d' :: _ => let _ ← take 1; return .none
  | '%' :: _ | '#' :: _ =>
    let c ← take 1
    let rest ← ahead
    let longest := rest.take 1 == c
    if longest then let _ ← take 1
    return .without (c == ['%']) longest (← word .braces)
  | c :: _ =>
    let _ ← take 1
    let colon := c = ':'
    let rest ← ahead
    let op := if colon then rest.headD ' ' else c
    if colon && !rest.isEmpty then let _ ← take 1
    match op with
    | '-' => return .orElse colon (← word inner)
    | '+' => return .andThen colon (← word inner)
    | '?' => return .orFail colon (← word inner)
    | '=' => return .orSet colon (← word inner)
    | '\x7d' => return .unknown
    | _ => let _ ← word inner; return .unknown
  | [] => let _ ← word inner; return .unknown

/-- A parameter in braces, of which the first is behind. -/
def braced (isQuoted : Bool) (word : Within → Read (List Piece)) : Read Piece := do
  let bad : Read Piece := do
    let _ ← word (if isQuoted then .quotedBraces else .braces)
    return .param [] .unknown
  let rest ← ahead
  match rest with
  | [] => bad
  | '#' :: t =>
    let _ ← take 1
    let _ ← ahead
    let next := t.headD ' '
    if isNameChar next && !next.isDigit then
      let name ← takeWhile isNameChar
      let rest ← ahead
      match rest with
      | '\x7d' :: _ => let _ ← take 1; return .param name .length
      | _ => bad
    else if isSpecial next && next != '#' && next != '-' && next != '?' then
      let name ← if next.isDigit then takeWhile Char.isDigit else take 1
      let rest ← ahead
      match rest with
      | '\x7d' :: _ => let _ ← take 1; return .param name .length
      | _ => bad
    else if (next = '#' || next = '-' || next = '?') && t.tail.head? == some '\x7d' then
      let name ← take 1
      let _ ← take 1
      return .param name .length
    else return .param ['#'] (← modifier isQuoted word)
  | c :: _ =>
    if isNameChar c && !c.isDigit then
      let name ← takeWhile isNameChar
      return .param name (← modifier isQuoted word)
    else if c.isDigit then
      let name ← takeWhile Char.isDigit
      return .param name (← modifier isQuoted word)
    else if isSpecial c then
      let name ← take 1
      return .param name (← modifier isQuoted word)
    else bad

/-- What a dollar sign starts, which is behind. -/
def dollar (isQuoted : Bool) (word : Within → Read (List Piece)) : Read Piece := do
  let rest ← ahead
  match rest with
  | '(' :: _ =>
    let _ ← take 1
    let rest ← ahead
    if rest.head? == some '(' then
      let _ ← take 1
      return .value (← word (.expression 0))
    else
      return .output (← inside (enclosed script))
  | '\x7b' :: _ =>
    let _ ← take 1
    braced isQuoted word
  | c :: _ =>
    if isNameChar c && !c.isDigit then return .param (← takeWhile isNameChar) .none
    else if isSpecial c then return .param (← take 1) .none
    else return .plain ['$']
  | [] => return .plain ['$']

/-- The pieces up to the end of where they stand.  Every round takes a character. -/
def pieces : Nat → Within → Read (List Piece)
  | 0, _ => return []
  | n + 1, w => do
    let rest ← if w = .text then (do return (← get).rest) else ahead
    let more (p : Piece) : Read (List Piece) := do
      let ps ← pieces n w
      return p :: ps
    let char : Read (List Piece) := do more (.plain (← take 1))
    match rest with
    | [] =>
      match w with
      | .word | .mark | .text => return []
      | .quotes => mistake "Syntax error: Unterminated quoted string"
      | .braces | .quotedBraces => mistake "Syntax error: Missing '\x7d'"
      | .expression _ => mistake "Syntax error: Missing '))'"
    | c :: t =>
      if isOrdinary c then more (.plain (← takeWhile isOrdinary))
      else if c = '\\' then
        let _ ← take 1
        match t with
        | [] => more (.quoted ['\\'])
        | d :: _ =>
          if w = .text && d = '\n' then
            let _ ← take 1
            pieces n w
          else if w.isQuoted && !(d = '\\' || d = '\x60' || d = '$' ||
              (d = '\x22' && w != .text) || (d = '\x7d' && w = .quotedBraces)) then
            let _ ← take 1
            more (.quoted ['\\', d])
          else more (.quoted (← take 1))
      else if c = '$' then
        if w = .mark then char
        else
          let _ ← take 1
          more (← dollar script w.isQuoted (pieces n))
      else if c = '\x60' then
        if w = .mark then char
        else
          let _ ← take 1
          more (← backquote script w.isQuoted)
      else if c = '\x27' then
        if w.isQuoted then char
        else
          let _ ← take 1
          more (.quoted (← singleQuoted))
      else if c = '\x22' then
        match w with
        | .text => char
        | .quotes => let _ ← take 1; return []
        | .expression _ => char
        | .quotedBraces => let _ ← take 1; pieces n w
        | _ =>
          let _ ← take 1
          more (.group (← pieces n .quotes))
      else if c = '\x7d' then
        match w with
        | .braces | .quotedBraces => let _ ← take 1; return []
        | _ => char
      else
        match w with
        | .word | .mark => if endsWord c then return [] else char
        | .expression depth =>
          if c = '(' then
            let t ← take 1
            let ps ← pieces n (.expression (depth + 1))
            return .plain t :: ps
          else if c = ')' then
            let _ ← take 1
            match depth with
            | 0 =>
              let rest ← ahead
              if rest.head? == some ')' then
                let _ ← take 1
                return []
              else more (.plain [')'])
            | d + 1 =>
              let ps ← pieces n (.expression d)
              return .plain [')'] :: ps
          else char
        | _ => char

/-- Whether a piece holds quotes. -/
def holdsQuotes : Piece → Bool
  | .quoted _ => true
  | .group _ => true
  | _ => false

/-- Neighbouring plain pieces as one. -/
def merged : List Piece → List Piece
  | [] => []
  | .plain t :: ps =>
    match merged ps with
    | .plain u :: ps => .plain (t ++ u) :: ps
    | ps => .plain t :: ps
  | p :: ps => p :: merged ps

/-- A word, and whether it holds quotes. -/
def word (w : Within) : Read (Word × Bool) := do
  let r ← get
  let ps ← pieces script (r.rest.length + 1) w
  return (merged ps, ps.any holdsQuotes)

/-- The rest of a redirection whose first sign is behind. -/
def arrow (c : Char) : Read Arrow := do
  let rest ← ahead
  let next (n : Nat) (a : Arrow) : Read Arrow := do
    let _ ← take n
    return a
  if c = '>' then
    match rest with
    | '>' :: _ => next 1 .append
    | '|' :: _ => next 1 .force
    | '&' :: _ => next 1 .copy
    | _ => return .write
  else
    match rest with
    | '<' :: _ =>
      let _ ← take 1
      let rest ← ahead
      match rest with
      | '-' :: _ => next 1 (.here true)
      | _ => return .here false
    | '&' :: _ => next 1 .copy
    | '>' :: _ => next 1 .readWrite
    | _ => return .read

/-- The next token as the characters make it. -/
def rawToken : Nat → Read Token
  | 0 => return .eof
  | n + 1 => do
    let rest ← ahead
    let one (t : Token) : Read Token := do
      let _ ← take 1
      return t
    let double (c : Char) (two single : Token) : Read Token := do
      let _ ← take 1
      let rest ← ahead
      if rest.head? == some c then
        let _ ← take 1
        return two
      else return single
    match rest with
    | [] => return .eof
    | c :: t =>
      if c = ' ' || c = '\t' then
        let _ ← take 1
        rawToken n
      else if c = '#' then
        let _ ← takeWhile fun c => c != '\n'
        rawToken n
      else if c = '\n' then one .newline
      else if c = '&' then double '&' .both .amp
      else if c = '|' then double '|' .either .pipe
      else if c = ';' then double ';' .endClause .semi
      else if c = '(' then one .left
      else if c = ')' then one .right
      else if c = '<' || c = '>' then
        let _ ← take 1
        return .redirect (if c = '>' then 1 else 0) (← arrow c)
      else if c.isDigit && ((skipJoints t 0).1.head? == some '<' ||
          (skipJoints t 0).1.head? == some '>') then
        let _ ← take 1
        let _ ← ahead
        let d ← take 1
        return .redirect (Decimal.digitValue c) (← arrow (d.headD '>'))
      else
        let (w, quoted) ← word script .word
        return .word w quoted

/-- The lines of a text up to its mark, and how many characters they take. -/
def textLines (a : Awaited) : Nat → Octets → Octets × Nat
  | 0, _ => ([], 0)
  | n + 1, t =>
    if t.isEmpty then ([], 0)
    else
      let whole := t.takeWhile fun c => c != '\n'
      let hasEnd := whole.length < t.length
      let taken := whole.length + if hasEnd then 1 else 0
      let line := if a.strips then whole.dropWhile fun c => c = '\t' else whole
      if line = a.mark then ([], taken)
      else
        let (rest, more) := textLines a n (t.drop taken)
        (line ++ (if hasEnd then ['\n'] else []) ++ rest, taken + more)

/-- Reads the texts that are awaited. -/
def giveTexts : List Awaited → Read Unit
  | [] => return ()
  | a :: as => do
    let r ← get
    let (t, n) := textLines a (r.rest.length + 1) r.rest
    let line := r.line
    let _ ← take n
    let w : Word ←
      if a.expands then apart t line (pieces script (t.length + 1) .text)
      else pure [.quoted t]
    modify fun r => { r with texts := (a.number, merged w) :: r.texts }
    giveTexts as

/-- Reads the texts that are awaited at the end of a line. -/
def awaitedTexts : Read Unit := do
  let r ← get
  set { r with awaited := [] }
  giveTexts script r.awaited

/-- The next token; newlines are skipped if `skips`, and words may be reserved if
`reserves`. -/
def token (skips reserves : Bool) : Read Token := do
  let r ← get
  let once : Read Token := do
    let r ← get
    match r.back with
    | some t =>
      set { r with back := none }
      return t
    | none => rawToken script (r.rest.length + 1)
  let rec skip : Nat → Token → Read Token
    | 0, t => return t
    | n + 1, t => do
      match t with
      | .newline =>
        if skips then
          awaitedTexts script
          skip n (← once)
        else return t
      | t => return t
  let t ← skip (r.rest.length + 2) (← once)
  match t with
  | .word [.plain u] false =>
    if reserves && reservedWords.contains u then return .reserved u else return t
  | _ => return t

end words

/-- Puts a token back. -/
def putBack (t : Token) : Read Unit :=
  modify fun r => { r with back := some t }

/-- The text of a word in which nothing is replaced. -/
def markOf (w : Word) : Octets :=
  go (w.length + 1) w
where
  go : Nat → Word → Octets
    | 0, _ => []
    | n + 1, w => w.flatMap fun
      | .plain t => t
      | .quoted t => t
      | .group ps => go n ps
      | _ => []

/-- Where the list of commands ends. -/
inductive Extent where
  /-- At the end of a line. -/
  | line
  /-- Before what ends a compound command; there is at least one command. -/
  | body
  /-- Before what ends a compound command. -/
  | clause
  /-- After one command. -/
  | one
  deriving DecidableEq, Repr

/-- Whether a token ends a list inside a compound command. -/
def endsList : Token → Bool
  | .eof => true
  | .right => true
  | .endClause => true
  | .reserved t => ["do", "done", "elif", "else", "esac", "fi", "then", "\x7d"].any
      fun u => t = Octets.of u
  | _ => false

/-- Commands in the background. -/
def inBackground (line : Nat) : Command → Command
  | .pipeline cs _ => .pipeline cs true
  | .redirected l c rs => .background l c rs
  | c => .background line c []

section commands

variable (script : Read (Option Command)) (command : Bool → Read Command)

/-- A pipeline of what `command` reads. -/
def pipelineOf (skips : Bool) : Read Command := do
  let r ← get
  let bound := r.rest.length + 2
  let rec negations : Nat → Bool → Bool → Read (Bool × Token)
    | 0, neg, s => do return (neg, ← token script s true)
    | n + 1, neg, s => do
      let t ← token script s true
      match t with
      | .reserved ['!'] => if neg then unexpected t none else negations n true false
      | t => return (neg, t)
  let (neg, t) ← negations bound false skips
  putBack t
  let first ← command false
  let rec stages : Nat → List Command → Read (List Command)
    | 0, cs => return cs
    | n + 1, cs => do
      let t ← token script false false
      match t with
      | .pipe => stages n ((← command true) :: cs)
      | t => putBack t; return cs
  let cs ← stages bound [first]
  let c := match cs with
    | [c] => c
    | cs => .pipeline cs.reverse false
  return if neg then .negation c else c

/-- Pipelines joined by conditions. -/
def conditionsOf : Read Command := do
  let r ← get
  let first ← pipelineOf script command false
  let rec more : Nat → Command → Read Command
    | 0, c => return c
    | n + 1, c => do
      let t ← token script false false
      match t with
      | .both => more n (.both c (← pipelineOf script command true))
      | .either => more n (.either c (← pipelineOf script command true))
      | t => putBack t; return c
  more (r.rest.length + 2) first

/-- A list of commands; at the end of the script nothing follows. -/
def listOf (e : Extent) :
    Read (Option Command) := do
  let r ← get
  let skips := e != .line
  let rec go : Nat → Bool → Option Command → Read (Option Command)
    | 0, _, done => return done
    | n + 1, may, done => do
      let t ← token script skips true
      match t with
      | .newline => awaitedTexts script; return done
      | .eof => awaitedTexts script; putBack .eof; return done
      | t =>
        putBack t
        if may && endsList t then return done
        let line := (← get).line
        let c ← conditionsOf script command
        let t ← token script false false
        let c := match t with
          | .amp => inBackground line c
          | _ => c
        let done := match done with
          | none => c
          | some d => .sequence d c
        match t with
        | .eof => awaitedTexts script; putBack .eof; return some done
        | .newline => putBack t; go n (e != .line) (some done)
        | .amp | .semi => go n (e != .line) (some done)
        | t =>
          if !skips then unexpected t none
          putBack t
          return some done
  go (r.rest.length + 2) (e = .clause) none

/-- The target of a redirection, which is behind. -/
def redirectOf (fd : Nat) (a : Arrow) : Read Redirect := do
  match a with
  | .here strips =>
    let r ← get
    let _ ← ahead
    let _ ← takeWhile fun c => c = ' ' || c = '\t'
    let rest ← ahead
    let bad := match rest with
      | [] => true
      | c :: _ => endsWord c
    if bad then
      let t ← token script false false
      unexpected t none
    let (w, quoted) ← word script .mark
    let n := r.nextText
    modify fun q =>
      { q with
        nextText := n + 1
        awaited := q.awaited ++ [⟨n, strips, !quoted, markOf w⟩] }
    return .mk fd (.here n)
  | a =>
    let t ← token script false false
    match t with
    | .word w _ =>
      match a with
      | .write => return .mk fd (.write false w)
      | .force => return .mk fd (.write true w)
      | .append => return .mk fd (.append w)
      | .read => return .mk fd (.read w)
      | .readWrite => return .mk fd (.readWrite w)
      | _ => return .mk fd (.copy w)
    | t => unexpected t none

/-- Redirections after a compound command. -/
def redirects : Nat → Read (List Redirect)
  | 0 => return []
  | n + 1 => do
    let t ← token script false true
    match t with
    | .redirect fd a =>
      let r ← redirectOf script fd a
      return r :: (← redirects n)
    | t => putBack t; return []

/-- The builtins whose mistakes end the shell. -/
def specialBuiltins : List Octets :=
  [".", ":", "break", "continue", "eval", "exec", "exit", "export", "local", "readonly",
    "return", "set", "shift", "times", "trap", "unset"].map Octets.of

/-- A simple command, or the function that it starts. -/
def simple (body : Read Command) : Read Command := do
  let r ← get
  let line := r.line
  let rec go : Nat → List (Octets × Word) → List (Word × Bool) → List Redirect → Read Command
    | 0, _, _, _ => mistake "Syntax error"
    | n + 1, assigned, words, rs => do
      let t ← token script false false
      match t with
      | .word w quoted =>
        match if words.isEmpty then assignment? w else none with
        | some a => go n (a :: assigned) words rs
        | none => go n assigned ((w, quoted) :: words) rs
      | .redirect fd a => go n assigned words ((← redirectOf script fd a) :: rs)
      | t =>
        let finished : Read Command := do
          putBack t
          return .simple line assigned.reverse ((words.map Prod.fst).reverse) rs.reverse
        match t, words with
        | .left, [(w, _)] =>
          if assigned.isEmpty && rs.isEmpty then
            let u ← token script false false
            match u with
            | .right => pure ()
            | u => unexpected u (some .right)
            let name := match w with
              | [.plain t] => t
              | _ => []
            if !isName name || specialBuiltins.contains name then
              mistake "Syntax error: Bad function name"
            let line := (← get).line
            return .function line name (← body)
          else finished
        | _, _ => finished
  go (r.rest.length + 2) [] [] []

/-- Takes a reserved word that must come. -/
def expect (want : Token) (skips reserves : Bool) :
    Read Unit := do
  let t ← token script skips reserves
  if shown t != shown want then unexpected t (some want)

/-- The word of a reserved one. -/
def reservedOf (s : String) : Token := .reserved (Octets.of s)

/-- The words of a list up to its end. -/
def wordsOf : Nat → Read (List Word × Token)
  | 0 => return ([], .eof)
  | n + 1 => do
    let t ← token script false false
    match t with
    | .word w _ =>
      let (ws, t) ← wordsOf n
      return (w :: ws, t)
    | t => return ([], t)

/-- The patterns of a clause, of which the first token is given; what is no word is an
empty pattern. -/
def patterns : Nat → Token → Read (List Word)
  | 0, _ => return []
  | n + 1, t => do
    let w : Word := match t with
      | .word w _ => w
      | .reserved u => [.plain u]
      | _ => []
    let u ← token script false false
    match u with
    | .pipe => return w :: (← patterns n (← token script false false))
    | .right => return [w]
    | u => unexpected u (some .right)

/-- The empty command. -/
def nothing (line : Nat) : Command := .simple line [] [] []

variable (list : Extent → Read (Option Command))

/-- The list of a compound command. -/
def bodyOf : Read Command := do
  let line := (← get).line
  return (← list .body).getD (nothing line)

/-- The rest of a conditional command. -/
def conditionalOf : Nat → Read Command
  | 0 => mistake "Syntax error"
  | n + 1 => do
    let test ← bodyOf list
    expect script (reservedOf "then") false true
    let yes ← bodyOf list
    let t ← token script false true
    let isReserved (s : String) : Bool := match t with
      | .reserved v => v = Octets.of s
      | _ => false
    if isReserved "elif" then return .conditional test yes (some (← conditionalOf n))
    else if isReserved "else" then return .conditional test yes (some (← bodyOf list))
    else
      putBack t
      return .conditional test yes none

/-- The words and the body of a command for each of some words. -/
def eachOf (line bound : Nat) : Read Command := do
  let t ← token script false false
  let name := match t with
    | .word [.plain t] false => t
    | _ => []
  if !isName name then mistake "Syntax error: Bad for loop variable"
  let t ← token script true true
  let all : List Word := [[.group [.param ['@'] .none]]]
  let words ← match t with
    | .reserved v =>
      if v = Octets.of "in" then
        let (ws, t) ← wordsOf script bound
        match t with
        | .newline | .semi => pure ws
        | t => unexpected t none
      else
        putBack t
        pure all
    | .semi => pure all
    | t =>
      putBack t
      pure all
  expect script (reservedOf "do") true true
  return .each line name words (← bodyOf list)

/-- The clauses of a choice. -/
def clausesOf (bound : Nat) : Nat → Read (List (List Word × Option Command))
  | 0 => return []
  | n + 1 => do
    let t ← token script true true
    let isEnd (t : Token) : Bool := match t with
      | .reserved v => v = Octets.of "esac"
      | _ => false
    if isEnd t then return []
    let t ← match t with
      | .left => token script false false
      | t => pure t
    let ps ← patterns script bound t
    let c ← list .clause
    let t ← token script true true
    match t with
    | .endClause => return (ps, c) :: (← clausesOf bound n)
    | t => if isEnd t then return [(ps, c)] else unexpected t (some .endClause)

/-- A command of any kind. -/
def commandOf (skips : Bool) : Read Command := do
  let bound := (← get).rest.length + 2
  let line := (← get).line
  let withRedirects (c : Command) : Read Command := do
    let rs ← redirects script bound
    if rs.isEmpty then return c
    match c with
    | .subshell l c _ => return .subshell l c rs
    | c => return .redirected line c rs
  let closed (c : Command) (want : Token) : Read Command := do
    expect script want false true
    withRedirects c
  let t ← token script skips true
  match t with
  | .word _ _ | .redirect _ _ =>
    putBack t
    simple script do return (← list .one).getD (nothing line)
  | .left => closed (.subshell line (← bodyOf list) []) .right
  | .reserved u =>
    if u = ['\x7b'] then closed (← bodyOf list) (reservedOf "\x7d")
    else if u = Octets.of "if" then
      closed (← conditionalOf script list bound) (reservedOf "fi")
    else if u = Octets.of "while" || u = Octets.of "until" then
      let test ← bodyOf list
      expect script (reservedOf "do") false true
      closed (.loop (u = Octets.of "until") test (← bodyOf list)) (reservedOf "done")
    else if u = Octets.of "for" then
      closed (← eachOf script list line bound) (reservedOf "done")
    else if u = Octets.of "case" then
      let t ← token script false false
      let w ← match t with
        | .word w _ => pure w
        | t => unexpected t (some (.word [] false))
      expect script (reservedOf "in") true true
      withRedirects (.choice line w (← clausesOf script list bound bound))
    else unexpected t none
  | t => unexpected t none

end commands

/-- A list of commands at most so many levels deep. -/
def list : Nat → Extent → Read (Option Command)
  | 0, _ => mistake "Syntax error: too deep"
  | n + 1, e =>
    let script := list n .clause
    let command := commandOf script (list n)
    if e = .one then do return some (← command true) else listOf script command e

/-- One line of a script: its commands, if there are any, or none at the end. -/
inductive Line where
  | finished
  | commands (c : Option Command)

/-- How deep the commands of a script may be. -/
def deepest : Nat := 400

/-- Reads the commands of the next line. -/
def nextLine (r : Reading) : Except Mistake (Line × Reading) :=
  match (list deepest .line).run r with
  | .error m => .error m
  | .ok (c, r) =>
    match c, r.back with
    | none, some .eof => .ok (.finished, r)
    | c, _ => .ok (.commands c, r)

/-- Whether nothing is left of a script. -/
def isFinished (r : Reading) : Bool :=
  match r.back with
  | some .eof => true
  | _ => false

/-- A script that nothing was read of. -/
def start (t : Octets) (nextText : Nat) : Reading :=
  ⟨t, 1, [], [], nextText, none⟩

end Reading

end Offspring.Shell
