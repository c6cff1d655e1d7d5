import Offspring.Command.Utility.Output
import Offspring.Shell.Lookup
/-!
# Utilities that run others

These become another program, or run one and wait for it.
-/

namespace Offspring.Utility

section launching

-- What a process does when it becomes the program of a path with arguments.
variable (become : Octets → List Octets → Proc → Except FileError Proc)

/-- The variable of a process. -/
def variableOf (p : Proc) (name : Octets) : Option Octets :=
  (p.environment.find? fun v => v.1 = name).map Prod.snd

/-- Becomes the program of a name, which is looked for. -/
def launch (args : List Octets) (p : Proc) : Except FileError Proc :=
  let name := args.headD []
  if name.contains '/' then become name args p
  else
    let list := (variableOf p (Octets.of "PATH")).getD (Octets.of "/bin:/usr/bin")
    let rec go (e : FileError) : List Octets → Except FileError Proc
      | [] => .error e
      | path :: rest =>
        match become path args p with
        | .ok p => .ok p
        | .error .missing => go e rest
        | .error .notFolder => go e rest
        | .error .denied => go .denied rest
        | .error e => .error e
    if name.isEmpty then .error .missing else go .missing (Shell.Lookup.candidates list name)

/-- Becomes a program, or complains and ends. -/
def becoming (name : Octets) (said : String) (args : List Octets) (p : Proc) : Proc :=
  match launch become args p with
  | .ok p => p
  | .error e =>
    (p.complain name (Octets.of said ++ Quoting.always (args.headD []) ++
      Octets.of (": " ++ e.text))).exit (if e = .missing then 127 else 126)

/-- Runs a program with other variables, or lists them. -/
def env : Utility := withOptions 125 [.flag 'i' "ignore-environment", .value 'u' "unset",
    .value 'C' "chdir", .flag '0' "null", .flag 'v' "debug"] true fun name g p =>
  let operands := if g.operands.head? = some ['-'] then g.operands.tail else g.operands
  let empty := g.has 'i' || g.operands.head? = some ['-']
  let vars := if empty then [] else p.environment
  let gone := (g.options.filter fun o => o.1 = 'u').map Prod.snd
  let vars := vars.filter fun v => !gone.contains v.1
  let isAssignment (a : Octets) : Bool := a.contains '='
  let assigned := operands.takeWhile isAssignment
  let vars := assigned.foldl (fun vs a =>
    let n := a.takeWhile fun c => c != '='
    let v := (n, a.drop (n.length + 1))
    if vs.any fun w => w.1 = n then vs.map fun w => if w.1 = n then v else w
    else vs ++ [v]) vars
  let args := operands.drop assigned.length
  let p := { p with environment := vars }
  let moved : Except FileError Proc := match g.value? 'C' with
    | none => .ok p
    | some d =>
      match p.world.files.locate p.cwd d true with
      | .ok place => .ok { p with cwd := place.names }
      | .error e => .error e
  match moved with
  | .error e =>
    (p.complain name (Octets.of "cannot change directory to " ++
      Quoting.always ((g.value? 'C').getD []) ++ Octets.of (": " ++ e.text))).exit 125
  | .ok p =>
    if args.isEmpty then
      p.say name (vars.flatMap fun v =>
        v.1 ++ '=' :: v.2 ++ (if g.has '0' then ['\x00'] else ['\n'])) 0
    else becoming become name "" args p

/-- Runs a program of less importance. -/
def nice : Utility := withOptions 125 [.value 'n' "adjustment"] true fun name g p =>
  if g.operands.isEmpty then p.say name (Octets.of "0\n") 0
  else becoming become name "" g.operands p

/-- Runs a program that does not end with its terminal. -/
def nohup : Utility := withOptions 125 [] true fun name g p =>
  if g.operands.isEmpty then p.misuse name (Octets.of "missing operand") 125
  else
    becoming become name "failed to run command " g.operands
      { p with ignores := 1 :: p.ignores }

/-- Runs a program in a session of its own. -/
def setsid : Utility := withOptions 1 [.flag 'w' "wait", .flag 'f' "fork", .flag 'c' "ctty"]
    true fun name g p =>
  if g.operands.isEmpty then p.misuse name (Octets.of "no command specified") 1
  else becoming become name "failed to execute " g.operands p

/-- Goes out like another process. -/
def follow (d : Death) (p : Proc) : Proc :=
  match d with
  | .exit n => p.exit (exitByte n).toNat
  | .signal n => p.finish (.signal n)

/-- Runs a program for a time at most. -/
def timeout : Utility := withOptions 125 [.value 's' "signal", .value 'k' "kill-after",
    .nameOnly "preserve-status" 'p', .nameOnly "foreground" 'f', .flag 'v' "verbose"] true
    fun name g p =>
  match g.operands with
  | [] => p.hint name 125
  | [_] => p.hint name 125
  | time :: args =>
    let signal := match g.value? 's' with
      | some t => Signal.find? (if (Octets.of "SIG").isPrefixOf t then t.drop 3 else t)
      | none => some Signal.terminate
    match length? time, signal with
    | none, _ =>
      p.misuse name (Octets.of "invalid time interval " ++ Quoting.text time) 125
    | _, none =>
      p.misuse name (Quoting.text ((g.value? 's').getD []) ++ Octets.of ": invalid signal") 125
    | some length, some signal =>
      let q := p.child
      let pid := q.pid
      let q := match launch become args q with
        | .ok q => q
        | .error e =>
          (q.complain name (Octets.of "failed to run command " ++
            Quoting.always (args.headD []) ++ Octets.of (": " ++ e.text))).exit
              (if e = .missing then 127 else 126)
      let p := p.after q
      let limit : Option Nat := match length with
        | .micros 0 => none
        | .micros n => some (p.clock + n)
        | .forever => none
      let ended := (p.world.task? pid).bind Task.ended
      let cutAt : Option Nat := match limit, ended with
        | none, _ => none
        | some t, none => some t
        | some t, some (e, _) =>
          if t < e || p.world.foresight.sent.contains ⟨t, pid, signal⟩ then some t else none
      match cutAt with
      | none =>
        let p := p.until' (ended.map Prod.fst)
        match ended with
        | some (_, d) => follow d p
        | none => p
      | some t =>
        let tell (n : Nat) (p : Proc) : Proc :=
          if g.has 'f' then (p.send pid n).2 else p.sendBelow pid n
        let p := tell signal (p.until' (some t))
        let later : Option Nat := match (g.value? 'k').bind length? with
          | some (.micros n) => if n = 0 then none else some (t + n)
          | _ => none
        let killAt : Option Nat := match later, ended with
          | none, _ => none
          | some k, none => some k
          | some k, some (e, _) =>
            if k < e || p.world.foresight.sent.contains ⟨k, pid, Signal.kill⟩ then some k else none
        let p := match killAt with
          | none => p
          | some k => tell Signal.kill (p.until' (some k))
        let p := p.until' (ended.map Prod.fst)
        let isKilled := signal = Signal.kill || killAt.isSome
        if g.has 'p' then
          match ended with
          | some (_, .exit n) => p.exit (exitByte n).toNat
          | some (_, .signal n) => p.exit (128 + n.toNat)
          | none => p
        else if isKilled && g.has 'f' then p.exit 137
        else if isKilled then p.finish (.signal Signal.kill)
        else p.exit 124

/-- Words between blanks and newlines, with quotes and backslashes. -/
def words : Nat → Octets → List Octets
  | 0, _ => []
  | n + 1, t =>
    let isSeparator (c : Char) : Bool := c = ' ' || c = '\t' || c = '\n'
    let t := t.dropWhile isSeparator
    if t.isEmpty then []
    else
      let rec one : Octets → Octets × Octets
        | [] => ([], [])
        | '\\' :: c :: t => let (w, rest) := one t; (c :: w, rest)
        | '\x27' :: t => quoted '\x27' t
        | '\x22' :: t => quoted '\x22' t
        | c :: t =>
          if isSeparator c then ([], c :: t)
          else
            let (w, rest) := one t
            (c :: w, rest)
      let (w, rest) := one t
      w :: words n rest
where
  /-- A part in quotes, and the rest of its word as it is. -/
  quoted (q : Char) (t : Octets) : Octets × Octets :=
    let inside := t.takeWhile fun c => c != q
    let after := t.drop (inside.length + 1)
    let more := after.takeWhile fun c => !(c = ' ' || c = '\t' || c = '\n')
    (inside ++ more, after.drop more.length)

/-- Runs a program with arguments from standard input. -/
def xargs : Utility := withOptions 1 [.value 'n' "max-args", .value 'I' "replace",
    .flag '0' "null", .flag 'r' "no-run-if-empty", .flag 't' "verbose", .value 'L' "max-lines",
    .value 'd' "delimiter", .value 'P' "max-procs"] true fun name g p =>
  let command := if g.operands.isEmpty then [Octets.of "echo"] else g.operands
  match p.readAll 0 with
  | (.bytes t, p) =>
    let lines := (linesOf t).map bare
    let items :=
      if g.has '0' then (pieces '\x00' t).filter fun w => !w.isEmpty
      else if g.has 'I' then
        (lines.map fun l => l.dropWhile fun c => c = ' ').filter fun l => !l.isEmpty
      else words (t.length + 1) t
    let size := match g.value? 'n' with
      | some v => max 1 (Decimal.value v)
      | none => items.length
    let rec groups : Nat → List Octets → List (List Octets)
      | 0, _ => []
      | k + 1, l => if l.isEmpty then [] else l.take size :: groups k (l.drop size)
    let calls : List (List Octets) := match g.value? 'I' with
      | some mark =>
        items.map fun item => command.map fun a =>
          let rec put : Nat → Octets → Octets
            | 0, t => t
            | k + 1, t =>
              match t with
              | [] => []
              | c :: t =>
                if mark.isPrefixOf (c :: t) then item ++ put k ((c :: t).drop mark.length)
                else c :: put k t
          if mark.isEmpty then a else put (a.length + 1) a
      | none =>
        if items.isEmpty then (if g.has 'r' then [] else [command])
        else (groups (items.length + 1) items).map fun l => command ++ l
    let one (r : Nat × Proc) (args : List Octets) : Nat × Proc :=
      let (status, p) := r
      if !p.runs || 123 < status then r
      else
        let q := (p.child).setFd 0 (some (.device .null))
        let pid := q.pid
        match launch become args q with
        | .error e =>
          let p := p.complain name (args.headD [] ++ Octets.of (": " ++ e.text))
          (if e = .missing then 127 else 126, p)
        | .ok q =>
          let p := p.after q
          match (p.world.task? pid).bind Task.ended with
          | some (t, .exit 0) => (status, p.until' (some t))
          | some (t, .exit 255) =>
            (124, (p.until' (some t)).complain name
              (args.headD [] ++ Octets.of ": exited with status 255; aborting"))
          | some (t, .exit _) => (123, p.until' (some t))
          | some (t, .signal n) =>
            (125, (p.until' (some t)).complain name (args.headD [] ++
              Octets.of ": terminated by signal " ++ Decimal.ofInt n))
          | none => (status, p.stick)
    let (status, p) := calls.foldl one (0, p)
    p.exit status
  | (_, p) => p.exit 0

end launching

/-- Sends signals, or lists them. -/
def kill : Utility := fun name args p =>
  let list (rest : List Octets) : Proc :=
    match rest with
    | [] =>
      p.say name (Octets.join [' '] ((List.range 31).map fun n => Signal.name (n + 1)) ++ ['\n']) 0
    | t :: _ =>
      if t.all Char.isDigit then p.say name (Signal.name (Decimal.value t) ++ ['\n']) 0
      else
        match Signal.find? t with
        | some n => p.say name (Decimal.ofNat n ++ ['\n']) 0
        | none => (p.complain name (Octets.of "unknown signal name " ++ t)).exit 1
  let rec send (signal : Nat) (bad : Bool) : List Octets → Proc → Proc
    | [], p => p.exit (if bad then 1 else 0)
    | t :: rest, p =>
      if !p.runs then p
      else
        let (sent, p) := p.send (Decimal.value t) signal
        if sent then send signal bad rest p
        else
          send signal true rest (p.complain name (Octets.of "sending signal to " ++ t ++
            Octets.of " failed: No such process"))
  match args with
  | ['-', 'l'] :: rest => list rest
  | ['-', 's'] :: t :: rest =>
    match Signal.find? (if (Octets.of "SIG").isPrefixOf t then t.drop 3 else t) with
    | some n => send n false rest p
    | none => (p.complain name (Octets.of "unknown signal name " ++ t)).exit 1
  | ['-', '-'] :: rest => send Signal.terminate false rest p
  | ('-' :: t) :: rest =>
    match Signal.find? (if (Octets.of "SIG").isPrefixOf t then t.drop 3 else t) with
    | some n => send n false rest p
    | none => (p.complain name (Octets.of "unknown signal name " ++ t)).exit 1
  | [] => (p.complain name (Octets.of "not enough arguments")).exit 1
  | rest => send Signal.terminate false rest p

end Offspring.Utility
