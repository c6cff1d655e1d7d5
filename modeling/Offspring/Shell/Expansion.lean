import Offspring.Shell.Arithmetic
import Offspring.Shell.Pattern
import Offspring.Shell.State
/-!
# Expanded words

The pieces of a word are replaced by what they stand for.  What came from a
substitution outside quotes is split at separators; then patterns are replaced by the
paths they match.  A word that is empty is left out unless quotes were in it.
-/

namespace Offspring.Shell

/-- A part of an expanded word. -/
inductive Item where
  | glyph (g : Glyph)
  /-- Quotes were here. -/
  | mark
  /-- One word ends and another starts. -/
  | split
  deriving DecidableEq, Repr

namespace Item

/-- The items of a text. -/
def ofText (quoted splits : Bool) (t : Octets) : List Item :=
  t.map fun c => .glyph ⟨c, quoted, splits⟩

/-- The glyphs among some items. -/
def glyphs (is : List Item) : List Glyph :=
  is.filterMap fun
    | .glyph g => some g
    | _ => none

end Item

/-- How a word is expanded. -/
structure Manner where
  /-- It can become several words. -/
  full : Bool
  /-- It stands in double quotes. -/
  quoted : Bool
  deriving DecidableEq, Repr

/-- Cuts off newlines at the end, and drops NULs. -/
def trimmed (t : Octets) : Octets :=
  ((t.filter fun c => c != '\x00').reverse.dropWhile fun c => c = '\n').reverse

/-- Where a tilde leads at the start of a text, and what follows it. -/
def home (s : State) (t : Octets) (ends : Char → Bool) : Option (Octets × Octets) :=
  match t with
  | '~' :: rest =>
    let user := rest.takeWhile fun c => !(c = '/' || ends c)
    let rest := rest.drop user.length
    if user.isEmpty then (s.get? (Octets.of "HOME")).map fun h => (h, rest)
    else if user = Octets.of "root" then some (Octets.of "/root", rest)
    else none
  | _ => none

section expansion

-- Runs a command and gives what it writes.
variable (output : Option Command → State → Octets × State)

/-- The items of a list of parameters. -/
def listed (s : State) (m : Manner) (isEach : Bool) : List Item :=
  let one (t : Octets) : List Item :=
    Item.ofText m.quoted (!m.quoted) t
  if m.full && (isEach || !m.quoted) then
    let parts := s.params.map fun t => if m.quoted then .mark :: one t else one t
    match parts with
    | [] => []
    | p :: ps => p ++ ps.flatMap fun p => .split :: p
  else one (Octets.join (if m.quoted || !m.full then s.between else [' ']) s.params)

/-- The items of a piece. -/
def pieceItems : Nat → Manner → Piece → State → List Item × State
  | 0, _, _, s => ([], s)
  | n + 1, m, p, s =>
    let all (m : Manner) (ps : List Piece) (s : State) : List Item × State :=
      ps.foldl (fun r p =>
        if !r.2.goes then r
        else
          let (is, s) := pieceItems n m p r.2
          (r.1 ++ is, s)) ([], s)
    let text (t : Octets) : List Item := Item.ofText m.quoted (!m.quoted) t
    match p with
    | .plain t => (Item.ofText m.quoted false t, s)
    | .quoted t => (.mark :: Item.ofText true false t, s)
    | .group [.param ['@'] .none] => all { m with quoted := true } [.param ['@'] .none] s
    | .group ps =>
      let (is, s) := all { m with quoted := true } ps s
      (.mark :: is, s)
    | .output c =>
      let (t, s) := output c s
      (text (trimmed t), s)
    | .value ps =>
      let (is, s) := all ⟨false, true⟩ ps s
      if !s.goes then ([], s)
      else
        let t := (Item.glyphs is).map Glyph.char
        match Arithmetic.evaluate (fun name => (s.param? name).getD []) t with
        | .error p => ([], s.fail (p.message t))
        | .ok (v, assigned) =>
          let s := assigned.foldl (fun s a => s.set a.1 (Decimal.ofInt a.2)) s
          (text (Decimal.ofInt v), s)
    | .param name f =>
      let isList := name = ['@'] || name = ['*']
      let value := s.param? name
      let self : List Item :=
        if isList then listed s m (name = ['@']) else text (value.getD [])
      let missing (colon : Bool) : Bool :=
        match value with
        | none => true
        | some t => colon && t.isEmpty
      let unsetIs (s : State) : List Item × State :=
        if value.isNone && s.has 'u' && !isList then
          ([], s.fail (name ++ Octets.of ": parameter not set"))
        else (self, s)
      match f with
      | .none => unsetIs s
      | .unknown => ([], s.fail (Octets.of "Bad substitution"))
      | .length =>
        if value.isNone && s.has 'u' && !isList then
          ([], s.fail (name ++ Octets.of ": parameter not set"))
        else (text (Decimal.ofNat (value.getD []).length), s)
      | .orElse colon w => if missing colon then all m w s else (self, s)
      | .andThen colon w => if missing colon then ([], s) else all m w s
      | .orSet colon w =>
        if !missing colon then (self, s)
        else if !isName name then ([], s.fail (name ++ Octets.of ": bad variable name"))
        else
          let (is, s) := all { m with full := false } w s
          if !s.goes then ([], s)
          else
            let t := (Item.glyphs is).map Glyph.char
            (text t, s.set name t)
      | .orFail colon w =>
        if !missing colon then (self, s)
        else
          let (is, s) := all ⟨false, m.quoted⟩ w s
          let t := (Item.glyphs is).map Glyph.char
          let said :=
            if !t.isEmpty then t
            else if colon then Octets.of "parameter not set or null"
            else Octets.of "parameter not set"
          ([], s.fail (name ++ Octets.of ": " ++ said))
      | .without atEnd longest w =>
        let (is, s) := all ⟨false, false⟩ w s
        if !s.goes then ([], s)
        else if value.isNone && s.has 'u' then
          ([], s.fail (name ++ Octets.of ": parameter not set"))
        else (text (Pattern.strip (Item.glyphs is) atEnd longest (value.getD [])), s)

/-- How deep the pieces of a word may be. -/
def pieceDepth : Nat := 200

/-- The items of a word. -/
def wordItems (m : Manner) (w : Word) (s : State) : List Item × State :=
  w.foldl (fun r p =>
    if !r.2.goes then r
    else
      let (is, s) := pieceItems output pieceDepth m p r.2
      (r.1 ++ is, s)) ([], s)

/-- A word whose tilde is replaced at its start. -/
def withHome (s : State) : Word → Word
  | .plain t :: ps =>
    match home s t (fun _ => false) with
    | some (h, rest) =>
      if !rest.isEmpty || ps.isEmpty then .quoted h :: .plain rest :: ps else .plain t :: ps
    | none => .plain t :: ps
  | ps => ps

/-- The pieces of a text in which tildes are replaced after colons too. -/
def homes (s : State) : Nat → Bool → Octets → Word
  | 0, _, t => [.plain t]
  | n + 1, first, t =>
    match if first then home s t (fun c => c = ':') else none with
    | some (h, rest) => .quoted h :: homes s n false rest
    | none =>
      let part := t.takeWhile fun c => c != ':'
      match t.drop part.length with
      | [] => [.plain part]
      | _ :: rest => .plain (part ++ [':']) :: homes s n true rest

/-- The value of an assignment whose tildes are replaced. -/
def withHomes (s : State) : Word → Word
  | .plain t :: ps => if t.contains '~' then homes s (t.length + 1) true t ++ ps else .plain t :: ps
  | ps => ps

/-- Where the splitting of items stands. -/
structure Splitting where
  /-- The words so far, last first. -/
  done : List (List Glyph)
  /-- The word that is growing, last character first. -/
  word : List Glyph
  /-- Whether there is a word. -/
  started : Bool
  /-- Whether a word has just ended at a blank. -/
  atBlank : Bool

namespace Splitting

/-- Ends the word. -/
def close (p : Splitting) : Splitting :=
  { p with done := p.word.reverse :: p.done, word := [], started := false }

/-- One more item. -/
def take (separators : Octets) (p : Splitting) : Item → Splitting
  | .mark => { p with started := true, atBlank := false }
  | .split => if p.started then { p.close with atBlank := false } else { p with atBlank := false }
  | .glyph g =>
    if g.splits && separators.contains g.char then
      if g.char = ' ' || g.char = '\t' || g.char = '\n' then
        if p.started then { p.close with atBlank := true } else p
      else if p.started then { p.close with atBlank := false }
      else if p.atBlank then { p with atBlank := false }
      else p.close
    else { p with word := g :: p.word, started := true, atBlank := false }

end Splitting

/-- The words that items make. -/
def splitItems (separators : Octets) (is : List Item) : List (List Glyph) :=
  let p := is.foldl (Splitting.take separators) ⟨[], [], false, false⟩
  (if p.started then p.close else p).done.reverse

/-- The words that a word becomes. -/
def fields (w : Word) (s : State) : List Octets × State :=
  let (is, s) := wordItems output ⟨true, false⟩ (withHome s w) s
  let words := splitItems s.separators is
  let found := words.flatMap fun g =>
    let paths := if s.has 'f' then [] else Pattern.found s.proc.world.files s.proc.cwd g
    if paths.isEmpty then [Pattern.text g] else paths
  (found, s)

/-- The words that some words become. -/
def allFields (ws : List Word) (s : State) : List Octets × State :=
  ws.foldl (fun r w =>
    if !r.2.goes then r
    else
      let (ts, s) := fields output w r.2
      (r.1 ++ ts, s)) ([], s)

/-- The text that a word becomes. -/
def single (w : Word) (s : State) : Octets × State :=
  let (is, s) := wordItems output ⟨false, false⟩ (withHome s w) s
  (Pattern.text (Item.glyphs is), s)

/-- The text that the value of an assignment becomes. -/
def assignedText (w : Word) (s : State) : Octets × State :=
  let (is, s) := wordItems output ⟨false, false⟩ (withHomes s w) s
  (Pattern.text (Item.glyphs is), s)

/-- The pattern that a word becomes. -/
def pattern (w : Word) (s : State) : List Glyph × State :=
  let (is, s) := wordItems output ⟨false, false⟩ (withHome s w) s
  (Item.glyphs is, s)

/-- The text that a text of the script becomes. -/
def document (w : Word) (s : State) : Octets × State :=
  let (is, s) := wordItems output ⟨false, true⟩ w s
  (Pattern.text (Item.glyphs is), s)

end expansion

end Offspring.Shell
