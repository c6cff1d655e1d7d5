import Offspring.Text.Octets
/-!
# Options of utilities

Arguments that start with a dash are options, up to a double dash.  Letters can be
written together, and a name can be cut short as long as it is clear.  What an option
takes follows it in the same argument or in the next one.
-/

namespace Offspring

/-- An option that a utility knows. -/
structure OptionForm where
  letter : Option Char
  name : Option String
  /-- Whether it takes a value. -/
  takes : Bool
  /-- What it is known as. -/
  key : Char
  deriving DecidableEq, Repr

namespace OptionForm

/-- An option of a letter and a name that takes nothing. -/
def flag (letter : Char) (name : String) : OptionForm := ⟨some letter, some name, false, letter⟩

/-- An option of a letter and a name with a value. -/
def value (letter : Char) (name : String) : OptionForm := ⟨some letter, some name, true, letter⟩

/-- An option of a letter that takes nothing. -/
def letterOnly (letter : Char) : OptionForm := ⟨some letter, none, false, letter⟩

/-- An option of a name that takes nothing. -/
def nameOnly (name : String) (key : Char) : OptionForm := ⟨none, some name, false, key⟩

/-- An option of a name with a value. -/
def namedValue (name : String) (key : Char) : OptionForm := ⟨none, some name, true, key⟩

end OptionForm

/-- The arguments of a utility: options with their values, and the others. -/
structure Given where
  options : List (Char × Octets)
  operands : List Octets
  deriving DecidableEq, Repr

namespace Given

/-- Whether an option was given. -/
def has (g : Given) (key : Char) : Bool :=
  g.options.any fun o => o.1 = key

/-- The last value of an option. -/
def value? (g : Given) (key : Char) : Option Octets :=
  (g.options.reverse.find? fun o => o.1 = key).map Prod.snd

/-- The letters of an argument, with what the next argument may give. -/
def letters (forms : List OptionForm) : Octets → Option Octets →
    Except Octets (List (Char × Octets) × Bool)
  | [], _ => .ok ([], false)
  | c :: t, next =>
    match forms.find? fun f => f.letter = some c with
    | none => .error (Octets.of "invalid option -- '" ++ [c, '\x27'])
    | some f =>
      if f.takes then
        if !t.isEmpty then .ok ([(f.key, t)], false)
        else
          match next with
          | some v => .ok ([(f.key, v)], true)
          | none => .error (Octets.of "option requires an argument -- '" ++ [c, '\x27'])
      else
        match letters forms t next with
        | .error e => .error e
        | .ok (os, used) => .ok ((f.key, []) :: os, used)

/-- The option of a name, whose dashes are behind. -/
def named (forms : List OptionForm) (t : Octets) (next : Option Octets) :
    Except Octets (List (Char × Octets) × Bool) :=
  let name := t.takeWhile fun c => c != '='
  let given := if name.length < t.length then some (t.drop (name.length + 1)) else none
  let fits := forms.filter fun f => match f.name with
    | some n => name.isPrefixOf n.toList
    | none => false
  let exact := fits.find? fun f => f.name.map String.toList = some name
  let found := match exact, fits with
    | some f, _ => some f
    | none, [f] => some f
    | none, _ => none
  match found with
  | none =>
    if fits.isEmpty then .error (Octets.of "unrecognized option '--" ++ name ++ ['\x27'])
    else
      .error (Octets.of "option '--" ++ name ++ Octets.of "' is ambiguous; possibilities:" ++
        fits.flatMap fun f => Octets.of (" '--" ++ f.name.getD "" ++ "'"))
  | some f =>
    let full := Octets.of ("option '--" ++ f.name.getD "" ++ "'")
    if f.takes then
      match given, next with
      | some v, _ => .ok ([(f.key, v)], false)
      | none, some v => .ok ([(f.key, v)], true)
      | none, none => .error (full ++ Octets.of " requires an argument")
    else
      match given with
      | some _ => .error (full ++ Octets.of " doesn't allow an argument")
      | none => .ok ([(f.key, [])], false)

/-- Reads arguments; an argument that is no option ends the options if `inOrder`. -/
def read (forms : List OptionForm) (inOrder : Bool) : List Octets → Except Octets Given
  | [] => .ok ⟨[], []⟩
  | a :: rest =>
    let operand : Except Octets Given :=
      if inOrder then .ok ⟨[], a :: rest⟩
      else
        match read forms inOrder rest with
        | .error e => .error e
        | .ok g => .ok { g with operands := a :: g.operands }
    match a with
    | ['-', '-'] => .ok ⟨[], rest⟩
    | '-' :: c :: t =>
      let found := match c, t with
        | '-', t => named forms t rest.head?
        | c, t => letters forms (c :: t) rest.head?
      match found with
      | .error e => .error e
      | .ok (os, used) =>
        let more : Except Octets Given := match used, rest with
          | true, _ :: rest => read forms inOrder rest
          | _, rest => read forms inOrder rest
        match more with
        | .error e => .error e
        | .ok g => .ok { g with options := os ++ g.options }
    | _ => operand

end Given

end Offspring
