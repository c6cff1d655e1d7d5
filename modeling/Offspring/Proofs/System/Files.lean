import Mathlib.Tactic.Common
import Offspring.Proofs.Text.Path
import Offspring.System.Files
/-!
# What is put in a tree is found there

Following a path through links goes by steps (`Files.Step`), and more pieces at the end only
take more steps (`Files.follow_append`).  A place that was reached is where its names lead
from the root (`Place.Sound`).

A file goes where names lead to a file or, in the folder before the last of them, to nothing
(`Entry.Fits`).  Putting it there changes folders and files only, never a link, so every path
that could be followed is followed to the same names afterwards (`Files.follow_put`).  Hence a
path that was opened for writing leads to an empty file, whatever links lie on the way
(`Files.exists_create`).
-/

namespace Offspring

namespace Entry

variable {e e' x inner : Entry} {name : Octets} {names : List Octets}

theorem isFolder_iff : e.isFolder = true ↔ ∃ s es, e = .folder s es := by
  cases e <;> simp [isFolder]

/-- A name that is set in a folder stands for what it was set to, and the others for what they
did. -/
theorem find?_setIn (s : Bool) (es : List (Octets × Entry)) (name : Octets) (x : Entry)
    (other : Octets) :
    (folder s (setIn name (some x) es)).find? other =
      if other = name then some x else (folder s es).find? other := by
  unfold find? setIn
  dsimp only [entries]
  split
  · next hthere =>
    have hfst : (fun y : Octets × Entry => decide (y.1 = other)) ∘
        (fun y => if y.1 = name then (name, x) else y) = fun y => decide (y.1 = other) := by
      funext y
      by_cases hy : y.1 = name
      · simp [hy]
      · simp [hy]
    rw [List.find?_map, hfst]
    by_cases hother : other = name
    · subst hother
      obtain ⟨y, hy⟩ : ∃ y, es.find? (fun y => y.1 = other) = some y :=
        Option.isSome_iff_exists.mp (by simpa using hthere)
      have hname : y.1 = other := by simpa using List.find?_some hy
      simp [hy, hname]
    · cases hfound : es.find? fun y => y.1 = other with
      | none => simp [hother]
      | some y =>
          have hname : y.1 = other := by simpa using List.find?_some hfound
          have hkept : ¬ y.1 = name := fun h => hother (hname.symm.trans h)
          simp [hother, hkept]
  · next hmissing =>
    have hskip : es.find? (fun y => y.1 = name) = none :=
      List.find?_eq_none.mpr fun y hy hname => hmissing (List.any_eq_true.mpr ⟨y, hy, hname⟩)
    by_cases hother : other = name
    · subst hother
      simp [List.find?_append, hskip]
    · simp [List.find?_append, hother, Ne.symm hother]

/-- Names that lead from an entry, folder by folder, to a file or to nothing. -/
inductive Fits : Entry → List Octets → Prop
  | file (content : Octets) (runs : Bool) : Fits (.file content runs) []
  | free {e : Entry} {name : Octets} (hfolder : e.isFolder = true) (hfree : e.find? name = none) :
      Fits e [name]
  | within {e inner : Entry} {name : Octets} {names : List Octets} (hfolder : e.isFolder = true)
      (hfind : e.find? name = some inner) (h : Fits inner names) : Fits e (name :: names)

/-- A tree in a folder is changed where it is. -/
theorem set_within {s : Bool} {es : List (Octets × Entry)}
    (hfind : (folder s es).find? name = some inner) (names : List Octets) (x : Entry) :
    (folder s es).set (name :: names) (some x) =
      .folder s (setIn name (some (inner.set names (some x))) es) := by
  cases names with
  | nil => rfl
  | cons n ns => simp only [set, hfind]

/-- What is put at fitting names changes one name of a folder. -/
theorem Fits.set_cons (h : e.Fits (name :: names)) (x : Entry) :
    ∃ s es y, e = .folder s es ∧
      e.set (name :: names) (some x) = .folder s (setIn name (some y) es) ∧
      (names = [] ∧ e.find? name = none ∧ y = x ∨
        ∃ inner, e.find? name = some inner ∧ inner.Fits names ∧ y = inner.set names (some x)) := by
  cases h with
  | free hfolder hfree =>
      obtain ⟨s, es, rfl⟩ := isFolder_iff.mp hfolder
      exact ⟨s, es, x, rfl, rfl, .inl ⟨rfl, hfree, rfl⟩⟩
  | within hfolder hfind h =>
      obtain ⟨s, es, rfl⟩ := isFolder_iff.mp hfolder
      exact ⟨s, es, _, rfl, set_within hfind names x, .inr ⟨_, hfind, h, rfl⟩⟩

/-- **What is put somewhere is there.** -/
theorem Fits.get?_set (h : e.Fits names) (x : Entry) :
    (e.set names (some x)).get? names = some x := by
  induction names generalizing e with
  | nil => rfl
  | cons name names ih =>
      obtain ⟨s, es, y, -, hset, hy⟩ := h.set_cons x
      have hfind : (e.set (name :: names) (some x)).find? name = some y := by
        rw [hset, find?_setIn, if_pos rfl]
      rw [get?, hfind]
      rcases hy with ⟨rfl, -, rfl⟩ | ⟨inner, -, hinner, rfl⟩
      · rfl
      · exact ih hinner

theorem get?_append (e : Entry) (names more : List Octets) :
    e.get? (names ++ more) = (e.get? names).bind fun inner => inner.get? more := by
  induction names generalizing e with
  | nil => rfl
  | cons name names ih =>
      rw [List.cons_append, get?, get?]
      cases e.find? name with
      | none => rfl
      | some inner => exact ih inner

/-- Only a folder has names. -/
theorem isFolder_of_find? (h : e.find? name = some inner) : e.isFolder = true := by
  cases e with
  | folder s es => rfl
  | file content runs => cases h
  | device d => cases h
  | link path => cases h

/-- What fits in a folder fits at the names that lead there. -/
theorem fits_of_get? {more : List Octets} (h : e.get? names = some inner)
    (hmore : inner.Fits more) : e.Fits (names ++ more) := by
  induction names generalizing e with
  | nil =>
      cases h
      exact hmore
  | cons name names ih =>
      rw [get?] at h
      split at h
      · next next hnext => exact .within (isFolder_of_find? hnext) hnext (ih h)
      · cases h

/-- A tree, and what it is after `x` was put somewhere, if that is in it. -/
def Put (x e e' : Entry) : Prop :=
  e' = e ∨ ∃ names, e.Fits names ∧ e' = e.set names (some x)

theorem Put.isFolder_eq (hx : x.isFolder = false) (h : Put x e e') : e'.isFolder = e.isFolder := by
  rcases h with rfl | ⟨names, hfits, rfl⟩
  · rfl
  · cases names with
    | nil =>
        cases hfits
        exact hx
    | cons name names =>
        obtain ⟨s, es, y, rfl, hset, -⟩ := hfits.set_cons x
        rw [hset]
        rfl

/-- A name keeps standing for something, which changed in the same way. -/
theorem Put.find? (h : Put x e e') (hfind : e.find? name = some inner) :
    ∃ inner', e'.find? name = some inner' ∧ Put x inner inner' := by
  rcases h with rfl | ⟨names, hfits, rfl⟩
  · exact ⟨inner, hfind, .inl rfl⟩
  · cases names with
    | nil =>
        cases hfits
        cases hfind
    | cons first names =>
        obtain ⟨s, es, y, rfl, hset, hy⟩ := hfits.set_cons x
        rw [hset, find?_setIn]
        by_cases hname : name = first
        · subst hname
          rw [if_pos rfl]
          refine ⟨y, rfl, ?_⟩
          rcases hy with ⟨-, hfree, -⟩ | ⟨there, hthere, hinner, rfl⟩
          · cases hfree.symm.trans hfind
          · cases Option.some.inj (hthere.symm.trans hfind)
            exact .inr ⟨names, hinner, rfl⟩
        · rw [if_neg hname]
          exact ⟨inner, hfind, .inl rfl⟩

/-- A link stays what it is. -/
theorem Put.of_link {path : Octets} (h : Put x (.link path) e') : e' = .link path := by
  rcases h with rfl | ⟨names, hfits, -⟩
  · rfl
  · cases hfits with
    | free hfolder => cases hfolder
    | within hfolder => cases hfolder

/-- And nothing becomes one. -/
theorem Put.ne_link {path : Octets} (hx : ∀ path, x ≠ .link path) (h : Put x e e')
    (he : e ≠ .link path) : e' ≠ .link path := by
  rcases h with rfl | ⟨names, hfits, rfl⟩
  · exact he
  · cases names with
    | nil => exact hx path
    | cons name names =>
        obtain ⟨s, es, y, -, hset, -⟩ := hfits.set_cons x
        rw [hset]
        exact nofun

end Entry

namespace Place

variable {root : Entry}

/-- A place whose entries are what its names stand for, each in the folder before it. -/
def Sound (root : Entry) : Place → Prop
  | [] => True
  | x :: p => (Place.entry root p).find? x.1 = some x.2 ∧ Sound root p

theorem Sound.tail {p : Place} (h : Sound root p) : Sound root p.tail := by
  cases p with
  | nil => trivial
  | cons x p => exact h.2

/-- **A sound place is where its names lead.** -/
theorem Sound.get?_names {p : Place} (h : Sound root p) :
    root.get? p.names = some (p.entry root) := by
  induction p with
  | nil => rfl
  | cons x p ih =>
      have hbefore : root.get? (names p) = some (entry root p) := ih h.2
      have hnames : names (x :: p) = names p ++ [x.1] := by simp [names]
      rw [hnames, Entry.get?_append, hbefore, Option.bind_some, Entry.get?, h.1]
      rfl

/-- Places of the same names, in a tree and in what it is after something was put in it. -/
def Alike (x : Entry) (p p' : Place) : Prop :=
  List.Forall₂ (fun a a' => a'.1 = a.1 ∧ Entry.Put x a.2 a'.2) p p'

theorem Alike.names_eq {x : Entry} {p p' : Place} (h : Alike x p p') : p'.names = p.names := by
  have hfst : p'.map Prod.fst = p.map Prod.fst := by
    induction h with
    | nil => rfl
    | cons ha _ ih => rw [List.map_cons, List.map_cons, ha.1, ih]
  rw [names, names, hfst]

theorem Alike.entry {x root' : Entry} (hroot : Entry.Put x root root') {p p' : Place}
    (h : Alike x p p') : Entry.Put x (p.entry root) (p'.entry root') := by
  cases h with
  | nil => exact hroot
  | cons ha _ => exact ha.2

end Place

namespace Files

variable {f : Files} {here there q : Place} {ps ps' : List Octets} {n : Nat}

/-- One step on the way that a path leads through links. -/
inductive Step (f : Files) : Place → List Octets → Place → List Octets → Prop
  | stay {here : Place} {ps : List Octets} (hfolder : (here.entry f.root).isFolder = true) :
      Step f here (['.'] :: ps) here ps
  | up {here : Place} {ps : List Octets} (hfolder : (here.entry f.root).isFolder = true) :
      Step f here (['.', '.'] :: ps) here.tail ps
  | link {here : Place} {name path : Octets} {ps : List Octets}
      (hname : name ≠ ['.'] ∧ name ≠ ['.', '.']) (hshort : name.length ≤ nameLimit)
      (hfind : (here.entry f.root).find? name = some (.link path)) :
      Step f here (name :: ps) (if textPath.isAbsolute path then [] else here)
        (piecesOf path ++ ps)
  | enter {here : Place} {name : Octets} {e : Entry} {ps : List Octets}
      (hname : name ≠ ['.'] ∧ name ≠ ['.', '.']) (hshort : name.length ≤ nameLimit)
      (hfind : (here.entry f.root).find? name = some e) (he : ∀ path, e ≠ .link path) :
      Step f here (name :: ps) ((name, e) :: here) ps

/-- A step takes a round. -/
theorem Step.follow_succ (h : f.Step here ps there ps') (n : Nat) :
    f.follow true (n + 1) here ps = f.follow true n there ps' := by
  cases h with
  | stay hfolder => simp [follow, hfolder]
  | up hfolder => simp [follow, hfolder]
  | link hname hshort hfind =>
      have hfolder := Entry.isFolder_of_find? hfind
      simp [follow, hfolder, hname.1, hname.2, Nat.not_lt.mpr hshort, hfind]
  | enter hname hshort hfind he =>
      have hfolder := Entry.isFolder_of_find? hfind
      simp [follow, hfolder, hname.1, hname.2, Nat.not_lt.mpr hshort, hfind]

/-- And a round that leads on is a step. -/
theorem exists_step {name : Octets} (h : f.follow true (n + 1) here (name :: ps) = .ok q) :
    ∃ there ps', f.Step here (name :: ps) there ps' ∧ f.follow true n there ps' = .ok q := by
  rw [follow] at h
  dsimp only at h
  split at h
  · cases h
  · next hfolder =>
    rw [Bool.not_eq_true', Bool.not_eq_false] at hfolder
    split at h
    · next hdot =>
      subst hdot
      exact ⟨_, _, .stay hfolder, h⟩
    · next hdot =>
      split at h
      · next hdots =>
        subst hdots
        exact ⟨_, _, .up hfolder, h⟩
      · next hdots =>
        split at h
        · cases h
        · next hshort =>
          rw [Nat.not_lt] at hshort
          split at h
          · cases h
          · next path hfind =>
            exact ⟨_, _, .link ⟨hdot, hdots⟩ hshort hfind, h⟩
          · next e he hfind =>
            exact ⟨_, _, .enter ⟨hdot, hdots⟩ hshort hfind he, h⟩

theorem Step.append (h : f.Step here ps there ps') (more : List Octets) :
    f.Step here (ps ++ more) there (ps' ++ more) := by
  cases h with
  | stay hfolder => exact .stay hfolder
  | up hfolder => exact .up hfolder
  | link hname hshort hfind =>
      rw [List.append_assoc]
      exact .link hname hshort hfind
  | enter hname hshort hfind he => exact .enter hname hshort hfind he

/-- **More pieces are followed from where the first ones led**, with the rounds that are left
and those that are added. -/
theorem follow_append (h : f.follow true n here ps = .ok q) :
    ∃ k, 0 < k ∧
      ∀ m more, f.follow true (n + m) here (ps ++ more) = f.follow true (k + m) q more := by
  induction n generalizing here ps with
  | zero => cases h
  | succ n ih =>
      cases ps with
      | nil =>
          cases h
          exact ⟨n + 1, Nat.succ_pos n, fun m more => rfl⟩
      | cons name ps =>
          obtain ⟨there, ps', hstep, hrest⟩ := exists_step h
          obtain ⟨k, hk, hmore⟩ := ih hrest
          refine ⟨k, hk, fun m more => ?_⟩
          rw [Nat.succ_add, (hstep.append more).follow_succ, hmore]

theorem Step.sound (h : f.Step here ps there ps') (hhere : here.Sound f.root) :
    there.Sound f.root := by
  cases h with
  | stay => exact hhere
  | up => exact hhere.tail
  | link =>
      split
      · trivial
      · exact hhere
  | enter hname hshort hfind he => exact ⟨hfind, hhere⟩

/-- What is reached from a sound place is sound. -/
theorem sound_of_follow (h : f.follow true n here ps = .ok q) (hhere : here.Sound f.root) :
    q.Sound f.root := by
  induction n generalizing here ps with
  | zero => cases h
  | succ n ih =>
      cases ps with
      | nil =>
          cases h
          exact hhere
      | cons name ps =>
          obtain ⟨there, ps', hstep, hrest⟩ := exists_step h
          exact ih hrest (hstep.sound hhere)

section Put

variable {x : Entry} {f' : Files} {here' : Place}

/-- After a file was put somewhere, every step can be made as before. -/
theorem Step.put (hx : x.isFolder = false ∧ ∀ path, x ≠ .link path)
    (hroot : Entry.Put x f.root f'.root) (h : f.Step here ps there ps')
    (hhere : here.Alike x here') :
    ∃ there', f'.Step here' ps there' ps' ∧ there.Alike x there' := by
  have hput := hhere.entry hroot
  cases h with
  | stay hfolder => exact ⟨here', .stay ((hput.isFolder_eq hx.1).trans hfolder), hhere⟩
  | up hfolder =>
      refine ⟨here'.tail, .up ((hput.isFolder_eq hx.1).trans hfolder), ?_⟩
      cases hhere with
      | nil => exact .nil
      | cons _ hrest => exact hrest
  | link hname hshort hfind =>
      obtain ⟨inner', hfind', hinner⟩ := hput.find? hfind
      rw [hinner.of_link] at hfind'
      refine ⟨_, .link hname hshort hfind', ?_⟩
      split
      · exact .nil
      · exact hhere
  | enter hname hshort hfind he =>
      obtain ⟨inner', hfind', hinner⟩ := hput.find? hfind
      exact ⟨_, .enter hname hshort hfind' fun path => hinner.ne_link hx.2 (he path),
        .cons ⟨rfl, hinner⟩ hhere⟩

/-- **And every path that was followed is followed to the same names.** -/
theorem follow_put (hx : x.isFolder = false ∧ ∀ path, x ≠ .link path)
    (hroot : Entry.Put x f.root f'.root) (h : f.follow true n here ps = .ok q)
    (hhere : here.Alike x here') : ∃ q', f'.follow true n here' ps = .ok q' ∧ q.Alike x q' := by
  induction n generalizing here here' ps with
  | zero => cases h
  | succ n ih =>
      cases ps with
      | nil =>
          cases h
          exact ⟨here', rfl, hhere⟩
      | cons name ps =>
          obtain ⟨there, ps', hstep, hrest⟩ := exists_step h
          obtain ⟨there', hstep', hthere⟩ := hstep.put hx hroot hhere
          rw [hstep'.follow_succ]
          exact ih hrest hthere

end Put

/-- What can be the name of something in a folder. -/
structure IsName (name : Octets) : Prop where
  noSlash : '/' ∉ name
  names : textPath.names name = true
  notUp : name ≠ ['.', '.']

theorem IsName.plain {name : Octets} (h : IsName name) : name ≠ ['.'] ∧ name ≠ ['.', '.'] := by
  have hnames := h.names
  refine ⟨?_, h.notUp⟩
  rintro rfl
  cases hnames

theorem IsName.ne_nil {name : Octets} (h : IsName name) : name ≠ [] := by
  have hnames := h.names
  rintro rfl
  cases hnames

theorem piecesOf_append_slash (path part : Octets) :
    piecesOf (path ++ '/' :: part) = piecesOf path ++ piecesOf part := by
  rw [piecesOf, pieces_append_sep, List.filter_append]
  rfl

theorem piecesOf_closed (path : Octets) (part : Octets) :
    piecesOf (textPath.closed path ++ part) = piecesOf path ++ piecesOf part := by
  unfold PathSymbols.closed
  split
  · next hlast =>
    obtain ⟨front, rfl⟩ := List.getLast?_eq_some_iff.mp hlast
    have hnil : piecesOf [] = [] := rfl
    change piecesOf ((front ++ ['/']) ++ part) = piecesOf (front ++ '/' :: []) ++ piecesOf part
    rw [piecesOf_append_slash, hnil, List.append_nil, List.append_assoc]
    exact piecesOf_append_slash front part
  · rw [List.append_assoc]
    exact piecesOf_append_slash path part

section Create

variable {dir name : Octets} {s : Bool} {es : List (Octets × Entry)} {e : Entry}

/-- A name that is joined to a path is one piece more. -/
theorem piecesOf_push (hname : IsName name) (dir : Octets) :
    piecesOf (textPath.push dir name) = piecesOf dir ++ [name] := by
  have hone : piecesOf name = [name] := by
    have hpieces : pieces '/' name = [name] := pieces_of_notMem hname.noSlash
    simp [piecesOf, hpieces, hname.ne_nil]
  by_cases hdir : dir = []
  · subst hdir
    have hpush : textPath.push [] name = name := by simp [PathSymbols.push]
    rw [hpush, hone]
    rfl
  · rw [PathSymbols.push_of_relative hdir (PathSymbols.isAbsolute_of_notMem hname.noSlash),
      piecesOf_closed, hone]

theorem push_ne_nil (hname : IsName name) (dir : Octets) : textPath.push dir name ≠ [] := by
  intro hnil
  have hpieces : [] = piecesOf dir ++ [name] := by
    rw [← piecesOf_push hname, hnil]
    rfl
  exact List.append_ne_nil_of_right_ne_nil _ (List.cons_ne_nil name []) hpieces.symm

/-- And the path ends in it, so it asks for no folder. -/
theorem wantsFolder_push (hname : IsName name) (dir : Octets) :
    wantsFolder (textPath.push dir name) = false := by
  have hlast : (textPath.push dir name).getLast? = name.getLast? := by
    rcases PathSymbols.push_cases textPath dir name with h | ⟨front, h⟩
    · rw [h]
    · rw [h, List.getLast?_append_of_ne_nil _ (List.cons_ne_nil _ _),
        List.getLast?_cons_of_ne_nil hname.ne_nil]
  rw [wantsFolder, hlast, ← Bool.not_eq_true, beq_iff_eq]
  exact fun h => hname.noSlash (List.mem_of_getLast? h)

theorem startOf_root (path : Octets) : f.startOf [] path = [] := by
  unfold startOf
  split <;> rfl

/-- A path is followed from the root, as far as its length allows. -/
theorem locate_root {path : Octets} (hsome : path ≠ []) (hlength : path.length ≤ pathLimit)
    (hplain : wantsFolder path = false) :
    f.locate [] path true = f.follow true (rounds (piecesOf path)) [] (piecesOf path) := by
  have hshort : ¬ pathLimit < path.length := Nat.not_lt.mpr hlength
  unfold locate
  simp only [List.isEmpty_iff, hsome, hshort, startOf_root, hplain, Bool.true_or, Bool.false_and,
    if_false]
  split
  · next h => exact h.symm
  · next h => exact h.symm

/-- What a path leads to lies where its pieces were followed. -/
theorem follow_of_lookup {path : Octets} (h : f.lookup [] path = .ok e) :
    ∃ q, f.follow true (rounds (piecesOf path)) [] (piecesOf path) = .ok q ∧
      q.entry f.root = e := by
  unfold lookup locate at h
  rw [startOf_root, Bool.true_or] at h
  split at h
  · cases h
  · split at h
    · cases h
    · dsimp only at h
      cases hfollow : f.follow true (rounds (piecesOf path)) [] (piecesOf path) with
      | error e =>
          rw [hfollow] at h
          cases h
      | ok q =>
          rw [hfollow] at h
          dsimp only at h
          split at h
          · cases h
          · exact ⟨q, rfl, Except.ok.inj h⟩

/-- Behind a path that was followed, the last name is looked for where the path led. -/
theorem exists_follow_push (hname : IsName name)
    (hdir : f.follow true (rounds (piecesOf dir)) [] (piecesOf dir) = .ok q) :
    ∃ k, f.follow true (rounds (piecesOf (textPath.push dir name))) []
        (piecesOf (textPath.push dir name)) = f.follow true (k + 2) q [name] ∧
      f.follow true (rounds (piecesOf (textPath.push dir name))) []
        (piecesOf (textPath.push dir name)).dropLast = .ok q := by
  obtain ⟨k, hk, hmore⟩ := follow_append hdir
  have hrounds : rounds (piecesOf dir ++ [name]) = rounds (piecesOf dir) + 2 := by
    simp only [rounds, List.length_append, List.length_singleton]
    omega
  have hsame := hmore 2 []
  rw [List.append_nil] at hsame
  refine ⟨k, ?_, ?_⟩
  · rw [piecesOf_push hname, hrounds]
    exact hmore 2 [name]
  · rw [piecesOf_push hname, hrounds, List.dropLast_concat, hsame]
    rfl

/-- Whatever is in a folder, a name that is too long is refused. -/
theorem follow_of_tooLong (hname : IsName name) (hfolder : (q.entry f.root).isFolder = true)
    (hlong : nameLimit < name.length) (k : Nat) :
    f.follow true (k + 2) q [name] = .error .tooLong := by
  simp [follow, hfolder, hname.plain.1, hname.plain.2, hlong]

theorem follow_of_missing (hname : IsName name) (hfolder : (q.entry f.root).isFolder = true)
    (hshort : name.length ≤ nameLimit) (hfree : (q.entry f.root).find? name = none) (k : Nat) :
    f.follow true (k + 2) q [name] = .error .missing := by
  simp [follow, hfolder, hname.plain.1, hname.plain.2, Nat.not_lt.mpr hshort, hfree]

theorem follow_of_found (hname : IsName name) (hshort : name.length ≤ nameLimit)
    (hfind : (q.entry f.root).find? name = some e) (he : ∀ path, e ≠ .link path) (k : Nat) :
    f.follow true (k + 2) q [name] = .ok ((name, e) :: q) := by
  have hstep : f.Step q [name] ((name, e) :: q) [] := .enter hname.plain hshort hfind he
  rw [hstep.follow_succ]
  rfl

/-- **A name that is too long cannot be opened for writing.** -/
theorem create_of_tooLong (hname : IsName name) (hdir : f.lookup [] dir = .ok (.folder s es))
    (hlong : nameLimit < name.length) :
    f.create [] (textPath.push dir name) = .error .tooLong := by
  obtain ⟨q, hq, hentry⟩ := follow_of_lookup hdir
  obtain ⟨k, hfollow, -⟩ := exists_follow_push hname hq
  have hfolder : (q.entry f.root).isFolder = true := by rw [hentry]; rfl
  have hsome := push_ne_nil hname dir
  have hlocate : f.locate [] (textPath.push dir name) true = .error .tooLong := by
    by_cases hlength : (textPath.push dir name).length ≤ pathLimit
    · rw [locate_root hsome hlength (wantsFolder_push hname dir), hfollow,
        follow_of_tooLong hname hfolder hlong]
    · rw [locate, if_neg (by simpa using hsome), if_pos (Nat.not_le.mp hlength)]
  rw [create, hlocate]

/-- After a file was put in the folder that a path leads to, the path with the name of the file
leads to it. -/
theorem lookup_put (runs : Bool) (hname : IsName name) (hshort : name.length ≤ nameLimit)
    (hlength : (textPath.push dir name).length ≤ pathLimit)
    (hdir : f.follow true (rounds (piecesOf dir)) [] (piecesOf dir) = .ok q)
    (hfits : (q.entry f.root).Fits [name]) :
    (f.put q name (some (.file [] runs))).lookup [] (textPath.push dir name) =
      .ok (.file [] runs) := by
  have hfile : ∀ path, Entry.file [] runs ≠ .link path := fun path => nofun
  obtain ⟨f', hf'⟩ : ∃ f', f' = f.put q name (some (.file [] runs)) := ⟨_, rfl⟩
  have hwhole : f.root.Fits (q.names ++ [name]) :=
    Entry.fits_of_get? (sound_of_follow hdir trivial).get?_names hfits
  have hroot : Entry.Put (.file [] runs) f.root f'.root := by
    rw [hf']
    exact .inr ⟨q.names ++ [name], hwhole, rfl⟩
  obtain ⟨q', hq', halike⟩ := follow_put ⟨rfl, hfile⟩ hroot hdir .nil
  -- The place is told by its names, at which the tree is what it was made to be.
  have hthere : (q'.entry f'.root).find? name = some (.file [] runs) := by
    have hset : f'.root.get? (q'.names ++ [name]) = some (.file [] runs) := by
      rw [halike.names_eq, hf']
      exact hwhole.get?_set _
    rw [Entry.get?_append, (sound_of_follow hq' trivial).get?_names, Option.bind_some,
      Entry.get?] at hset
    split at hset
    · next e he => rw [he, ← hset]; rfl
    · cases hset
  obtain ⟨k, hfollow, -⟩ := exists_follow_push hname hq'
  have hsome := push_ne_nil hname dir
  rw [← hf', lookup, locate_root hsome hlength (wantsFolder_push hname dir), hfollow,
    follow_of_found hname hshort hthere hfile]
  rfl

/-- A new entry goes into a folder in which its name is free. -/
theorem make_of_free (hname : IsName name) (hparent : f.parent here ps = .ok (q, name))
    (hentry : q.entry f.root = .folder false es)
    (hfree : (Entry.folder false es).find? name = none) (x : Entry) :
    f.make here ps x = .ok (f.put q name (some x)) := by
  simp [make, hparent, hentry, hfree, hname.plain.1, hname.plain.2]

/-- A path whose folder is there and has room for the name: the name is free, or a file's. -/
def HasRoom (f : Files) (dir name : Octets) : Prop :=
  ∃ es, f.lookup [] dir = .ok (.folder false es) ∧
    ∀ e, (Entry.folder false es).find? name = some e → ∃ content runs, e = .file content runs

/-- What a path leads to is an empty file. -/
def EmptyAt (f : Files) (path : Octets) : Prop :=
  ∃ runs, f.lookup [] path = .ok (.file [] runs)

/-- **A path with room can be opened for writing, and leads to an empty file afterwards**,
whatever links it goes through. -/
theorem exists_create (hname : IsName name) (hshort : name.length ≤ nameLimit)
    (hlength : (textPath.push dir name).length ≤ pathLimit) (hroom : f.HasRoom dir name) :
    ∃ f', f.create [] (textPath.push dir name) = .ok f' ∧
      f'.EmptyAt (textPath.push dir name) := by
  obtain ⟨es, hdir, hfree⟩ := hroom
  obtain ⟨q, hq, hentry⟩ := follow_of_lookup hdir
  have hfolder : (q.entry f.root).isFolder = true := by rw [hentry]; rfl
  have hput := fun runs => lookup_put runs hname hshort hlength hq
  obtain ⟨k, hfollow, hbefore⟩ := exists_follow_push hname hq
  have hlocate := locate_root (f := f) (push_ne_nil hname dir) hlength (wantsFolder_push hname dir)
  rw [hfollow] at hlocate
  cases hfind : (Entry.folder false es).find? name with
  | none =>
      have hmissing : (q.entry f.root).find? name = none := by rw [hentry, hfind]
      have hparent : f.parent [] (piecesOf (textPath.push dir name)) = .ok (q, name) := by
        rw [parent, hbefore, piecesOf_push hname]
        simp [hfolder, Nat.not_lt.mpr hshort]
      rw [follow_of_missing hname hfolder hshort hmissing] at hlocate
      refine ⟨_, ?_, false, hput false (.free hfolder hmissing)⟩
      rw [create, hlocate]
      simp only [List.isEmpty_iff, push_ne_nil hname dir, wantsFolder_push hname dir, startOf_root,
        make_of_free hname hparent hentry hfind, if_false, Bool.false_eq_true]
  | some e =>
      obtain ⟨content, runs, rfl⟩ := hfree e hfind
      have hthere : (q.entry f.root).find? name = some (.file content runs) := by
        rw [hentry, hfind]
      have hnames : Place.names ((name, .file content runs) :: q) = q.names ++ [name] := by
        simp [Place.names]
      rw [follow_of_found hname hshort hthere fun path => nofun] at hlocate
      refine ⟨_, ?_, runs, hput runs (.within hfolder hthere (.file content runs))⟩
      rw [create, hlocate]
      dsimp only [Place.entry]
      rw [hnames, put]

end Create

end Files

end Offspring
