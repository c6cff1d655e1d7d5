import Offspring.Proofs.Lists
import Offspring.Proofs.Runner.Logs
import Offspring.Proofs.Text.Path
/-!
# Where the directory of a test is

A module path has one division into pieces: they make up the path again, none holds a double
colon, and only the last may end in a colon (`PiecesOf`, `PiecesOf.modulePieces_eq`).  The
directory of a test is what joining its parts to the common base gives: all of them laid out
behind the base, or, if some start at the root, what follows the last of these
(`workspace_law`).  Parts that are names can be read off the directory, and with them the
package, the module and the test.
-/

namespace Offspring

/-- A character that begins no separator joins the first piece of what follows. -/
theorem modulePieces_cons {c : Char} {t p : Text} {ps : List Text}
    (hc : ¬ [':', ':'] <+: c :: t) (hps : modulePieces t = p :: ps) :
    modulePieces (c :: t) = (c :: p) :: ps := by
  rw [modulePieces, hps]
  intro t' hcolon ht
  exact hc ⟨t', by rw [hcolon, ht]; rfl⟩

/-- The pieces of a module path: with double colons between them they make up the path, none
holds a double colon, and none but the last ends in a colon. -/
structure PiecesOf (ps : List Text) (module : Text) : Prop where
  ne_nil : ps ≠ []
  join : [':', ':'].intercalate ps = module
  whole : ∀ p ∈ ps, ¬ [':', ':'] <:+: p
  leftmost : ∀ p ∈ ps.dropLast, p.getLast? ≠ some ':'

/-- The pieces of a module path come from splitting it. -/
theorem piecesOf_modulePieces (t : Text) : PiecesOf (modulePieces t) t := by
  induction t using modulePieces.induct with
  | case1 => exact ⟨by simp [modulePieces], rfl, by simp [modulePieces], by simp [modulePieces]⟩
  | case2 t ih =>
      obtain ⟨p, ps, hps⟩ := List.exists_cons_of_ne_nil ih.ne_nil
      rw [hps] at ih
      rw [modulePieces, hps]
      refine ⟨List.cons_ne_nil _ _, ?_, ?_, ?_⟩
      · rw [List.intercalate_cons_cons, ih.join]
        rfl
      · intro q hq
        rcases List.mem_cons.mp hq with rfl | hq
        · simp
        · exact ih.whole q hq
      · intro q hq
        rw [List.dropLast_cons_cons] at hq
        rcases List.mem_cons.mp hq with rfl | hq
        · simp
        · exact ih.leftmost q hq
  | case3 c t hc hnone ih => exact absurd hnone ih.ne_nil
  | case4 c t hc p ps hps ih =>
      rw [hps] at ih
      have hstart : p <+: t := by
        rw [← ih.join]
        cases ps with
        | nil =>
            exact ⟨[], by rw [List.intercalate_singleton, List.append_nil]⟩
        | cons q ps =>
            rw [List.intercalate_cons_cons, List.append_assoc]
            exact List.prefix_append p _
      have hjoin : [':', ':'].intercalate ((c :: p) :: ps) =
          c :: [':', ':'].intercalate (p :: ps) := by
        cases ps <;> rfl
      have happart : ¬ [':', ':'] <+: c :: t := by
        rintro ⟨t', ht⟩
        obtain ⟨hcolon, hrest⟩ := List.cons.inj ht
        exact hc t' hcolon.symm hrest.symm
      rw [modulePieces_cons happart hps]
      refine ⟨List.cons_ne_nil _ _, ?_, ?_, ?_⟩
      · rw [hjoin, ih.join]
      · intro q hq
        rcases List.mem_cons.mp hq with rfl | hq
        · rw [List.infix_cons_iff]
          rintro (hin | hin)
          · exact happart (hin.trans ((List.cons_prefix_cons).mpr ⟨rfl, hstart⟩))
          · exact ih.whole p List.mem_cons_self hin
        · exact ih.whole q (List.mem_cons_of_mem p hq)
      · cases ps with
        | nil => simp
        | cons r ps =>
            intro q hq
            rw [List.dropLast_cons_cons] at hq
            rcases List.mem_cons.mp hq with rfl | hq
            · cases p with
              | nil =>
                  intro hlast
                  obtain rfl : c = ':' := Option.some.inj hlast
                  have ht : t = ':' :: ':' :: [':', ':'].intercalate (r :: ps) := by
                    rw [← ih.join, List.intercalate_cons_cons]
                    rfl
                  exact hc _ rfl ht
              | cons d p =>
                  rw [List.getLast?_cons_cons]
                  exact ih.leftmost (d :: p) (by simp)
            · exact ih.leftmost q (List.mem_cons_of_mem p hq)

/-- A text without a double colon is one piece. -/
theorem modulePieces_of_whole {p : Text} (hp : ¬ [':', ':'] <:+: p) : modulePieces p = [p] := by
  induction p with
  | nil => rfl
  | cons c p ih =>
      have hlater := ih fun hin => hp (List.infix_cons hin)
      exact modulePieces_cons (fun hin => hp hin.isInfix) hlater

/-- A piece that does not end in a colon is over at the double colon after it. -/
theorem modulePieces_append {p : Text} (hp : ¬ [':', ':'] <:+: p)
    (hopen : p.getLast? ≠ some ':') (t : Text) :
    modulePieces (p ++ ([':', ':'] ++ t)) = p :: modulePieces t := by
  induction p with
  | nil => rw [List.nil_append, List.cons_append, List.singleton_append, modulePieces]
  | cons c p ih =>
      have hlast : p.getLast? ≠ some ':' := by
        cases p with
        | nil => exact nofun
        | cons d p => rwa [List.getLast?_cons_cons] at hopen
      have hlater := ih (fun hin => hp (List.infix_cons hin)) hlast
      refine modulePieces_cons ?_ hlater
      rintro ⟨t', ht⟩
      obtain ⟨rfl, hrest⟩ := List.cons.inj ht
      cases p with
      | nil => exact hopen rfl
      | cons d p =>
          obtain ⟨rfl, hrest⟩ := List.cons.inj hrest
          exact hp ⟨[], p, rfl⟩

/-- And in no other way. -/
theorem PiecesOf.modulePieces_eq {ps : List Text} {t : Text} (h : PiecesOf ps t) :
    modulePieces t = ps := by
  induction ps generalizing t with
  | nil => exact absurd rfl h.ne_nil
  | cons p ps ih =>
      have hp : ¬ [':', ':'] <:+: p := h.whole p List.mem_cons_self
      cases ps with
      | nil =>
          rw [← h.join, List.intercalate_singleton]
          exact modulePieces_of_whole hp
      | cons q ps =>
          have hopen : p.getLast? ≠ some ':' := h.leftmost p (by simp)
          have hlater : PiecesOf (q :: ps) ([':', ':'].intercalate (q :: ps)) :=
            ⟨List.cons_ne_nil q ps, rfl, fun r hr => h.whole r (List.mem_cons_of_mem p hr),
              fun r hr => h.leftmost r (List.mem_cons_of_mem p hr)⟩
          rw [← h.join, List.intercalate_cons_cons, List.append_assoc,
            modulePieces_append hp hopen, ih hlater]

/-- All directories of tests are below this one, unless a part of them starts at the root. -/
theorem Site.base_eq {s : Site} (hroot : s.root ≠ [])
    (hprofile : textPath.isAbsolute s.profile = false) :
    s.base = textPath.closed s.root ++ "target/fixture/".toList ++ s.profile := by
  have htarget : textPath.isAbsolute "target".toList = false := by decide
  have hfixture : textPath.isAbsolute "fixture".toList = false := by decide
  have hfirst : textPath.push s.root "target".toList =
      textPath.closed s.root ++ "target".toList := PathSymbols.push_of_relative hroot htarget
  have hsecond : textPath.push (textPath.closed s.root ++ "target".toList) "fixture".toList =
      textPath.closed s.root ++ "target/fixture".toList := by
    rw [PathSymbols.push_of_relative (by simp) hfixture, PathSymbols.closed_append (by decide),
      List.append_assoc]
    rfl
  rw [base, List.foldl_cons, List.foldl_cons, List.foldl_cons, List.foldl_nil, hfirst, hsecond,
    PathSymbols.push_of_relative (by simp) hprofile, PathSymbols.closed_append (by decide)]
  rfl

/-- A runner that is obtained has the directory of its test. -/
theorem Runners.dir_of_create {r : Runners} {s : Site} {pkg module test : Text}
    {runner : Runner} (h : (r.create s pkg module test).1 = .ok runner) :
    runner.dir = s.workspace pkg module test := by
  have hprepared := (Bookings.prepare_runners r.take.2 ⟨r.take.1, s.workspace pkg module test⟩).1
  rw [hprepared runner h]

/-- Names are read off the directory. -/
theorem Site.parts_of_workspace {s : Site} (hbase : s.base ≠ [])
    {pkg pkg' module module' test test' : Text}
    (hplain : ∀ p ∈ workspaceParts pkg module test, p ≠ [] ∧ '/' ∉ p)
    (hplain' : ∀ p ∈ workspaceParts pkg' module' test', p ≠ [] ∧ '/' ∉ p)
    (h : s.workspace pkg module test = s.workspace pkg' module' test') :
    workspaceParts pkg module test = workspaceParts pkg' module' test' := by
  have hlaid : ∀ {pkg module test : Text},
      (∀ p ∈ workspaceParts pkg module test, p ≠ [] ∧ '/' ∉ p) →
      s.workspace pkg module test =
        textPath.closed s.base ++ textPath.row (workspaceParts pkg module test) := by
    intro pkg module test hplain
    have hrelative : ∀ p ∈ workspaceParts pkg module test, textPath.isAbsolute p = false :=
      fun p hp => PathSymbols.isAbsolute_of_notMem (hplain p hp).2
    have hkept : (workspaceParts pkg module test).filter (· ≠ []) =
        workspaceParts pkg module test :=
      List.filter_eq_self.mpr fun p hp => by simpa using (hplain p hp).1
    have hlast : (workspaceParts pkg module test).getLast? ≠ some [] := fun hlast =>
      (hplain [] (List.mem_of_getLast? hlast)).1 rfl
    rw [workspace, PathSymbols.foldl_push hbase hrelative, PathSymbols.laid, if_neg hlast, hkept]
    rfl
  rw [hlaid hplain, hlaid hplain'] at h
  have hrow := congrArg (pieces '/') (List.append_cancel_left h)
  have hread : ∀ {pkg module test : Text},
      (∀ p ∈ workspaceParts pkg module test, p ≠ [] ∧ '/' ∉ p) →
      pieces '/' (textPath.row (workspaceParts pkg module test)) =
        workspaceParts pkg module test := fun hplain =>
    PathSymbols.pieces_row (m := textPath) (List.cons_ne_nil _ _) fun p hp => (hplain p hp).2
  rwa [hread hplain, hread hplain'] at hrow

/-- **Where a test works.**  The parts are the package, the pieces of the module path and the
test.  If no part starts at the root, the directory lies below `target/fixture` and the profile
in the project: the parts that are not empty follow in order, each after a slash that is added
only where the text so far does not end in one, and an empty test asks for a slash at the end.
If some part starts at the root, the directory is what follows from the last such part alone.
Parts that are names, neither empty nor with a slash, can be told from the directory, so tests
that differ in their package, module or name have different directories.  A runner that is
obtained for a test has its directory. -/
theorem workspace_law (s : Site) (hroot : s.root.head? = some '/')
    (hprofile : s.profile ≠ [] ∧ '/' ∉ s.profile) (pkg module test : Text) :
    let parts := pkg :: modulePieces module ++ [test]
    let dir := s.workspace pkg module test
    (∀ ps, modulePieces module = ps ↔ PiecesOf ps module) ∧
    ((∀ p ∈ parts, p.head? ≠ some '/') →
      dir = textPath.laid (textPath.closed s.root ++ "target/fixture/".toList ++ s.profile) parts ∧
      textPath.closed s.root ++ "target/fixture/".toList ++ s.profile ++ ['/'] <+: dir) ∧
    ((∃ p ∈ parts, p.head? = some '/') →
      ∃ before a after, parts = before ++ a :: after ∧ a.head? = some '/' ∧
        (∀ p ∈ after, p.head? ≠ some '/') ∧ dir = textPath.laid a after) ∧
    (∀ pkg' module' test', (∀ p ∈ parts, p ≠ [] ∧ '/' ∉ p) →
      (∀ p ∈ pkg' :: modulePieces module' ++ [test'], p ≠ [] ∧ '/' ∉ p) →
      s.workspace pkg' module' test' = dir → pkg' = pkg ∧ module' = module ∧ test' = test) ∧
    ∀ (r : Runners) (runner : Runner), (r.create s pkg module test).1 = .ok runner →
      runner.dir = dir := by
  intro parts dir
  have hrootSome : s.root ≠ [] := by
    rintro hnil
    rw [hnil] at hroot
    cases hroot
  have hprofileRelative : textPath.isAbsolute s.profile = false :=
    PathSymbols.isAbsolute_of_notMem hprofile.2
  have hbase := s.base_eq hrootSome hprofileRelative
  have hbaseSome : s.base ≠ [] := by
    rw [hbase]
    exact List.append_ne_nil_of_right_ne_nil _ hprofile.1
  have hrelative : ∀ {l : List Text}, (∀ p ∈ l, p.head? ≠ some '/') →
      ∀ p ∈ l, textPath.isAbsolute p = false := by
    intro l hl p hp
    rw [← Bool.not_eq_true, PathSymbols.isAbsolute_iff]
    exact hl p hp
  refine ⟨?_, ?_, ?_, ?_, ?_⟩
  · intro ps
    constructor
    · rintro rfl
      exact piecesOf_modulePieces module
    · intro h
      exact h.modulePieces_eq
  · intro hparts
    have hdir : dir = textPath.laid s.base parts :=
      PathSymbols.foldl_push hbaseSome (hrelative hparts)
    have hopen : s.base.getLast? ≠ some '/' := by
      rw [hbase, List.getLast?_append_of_ne_nil _ hprofile.1]
      exact fun hlast => hprofile.2 (List.mem_of_getLast? hlast)
    have hclosed : textPath.closed s.base = s.base ++ ['/'] := if_neg hopen
    have hbelow : s.base ++ ['/'] <+: dir := by
      rw [hdir, ← hclosed]
      exact PathSymbols.closed_prefix_laid (List.cons_ne_nil _ _) s.base
    rw [← hbase]
    exact ⟨hdir, hbelow⟩
  · intro hsome
    obtain ⟨before, a, after, hparts, ha, hafter⟩ := exists_last hsome
    have hfirst : a ≠ [] := by
      rintro rfl
      cases ha
    have hdir : dir =
        after.foldl textPath.push (textPath.push (before.foldl textPath.push s.base) a) := by
      change parts.foldl textPath.push s.base = _
      rw [hparts, List.foldl_append, List.foldl_cons]
    refine ⟨before, a, after, hparts, ha, hafter, ?_⟩
    rw [hdir, PathSymbols.push_of_absolute (PathSymbols.isAbsolute_iff.mpr ha),
      PathSymbols.foldl_push hfirst (hrelative hafter)]
  · intro pkg' module' test' hplain hplain' hsame
    have hparts := Site.parts_of_workspace hbaseSome hplain' hplain hsame
    obtain ⟨hpkg, hrest⟩ := List.cons.inj hparts
    obtain ⟨hmodule, htest⟩ := List.append_inj' hrest rfl
    have hjoin : module' = module := by
      rw [← (piecesOf_modulePieces module').join, hmodule, (piecesOf_modulePieces module).join]
    exact ⟨hpkg, hjoin, List.singleton_inj.mp htest⟩
  · intro r runner h
    exact Runners.dir_of_create h

/-- An empty piece, one that starts with a colon and a package that ends in a slash; and a module
path in which a piece starts at the root. -/
theorem workspace_law_odd_names :
    let s : Site := ⟨"/p".toList, "debug".toList⟩
    let dir := s.workspace "a/".toList "m:::::n:".toList "t".toList
    let elsewhere := s.workspace "a".toList "m::/b::c".toList []
    s.root.head? = some '/' ∧ (s.profile ≠ [] ∧ '/' ∉ s.profile) ∧
    dir = "/p/target/fixture/debug/a/m/:n:/t".toList ∧
    elsewhere = "/b/c/".toList ∧
    ∃ before a after, ["a".toList, "m".toList, "/b".toList, "c".toList, []] =
      before ++ a :: after ∧ a.head? = some '/' ∧ (∀ p ∈ after, p.head? ≠ some '/') ∧
        elsewhere = textPath.laid a after := by
  intro s dir elsewhere
  have hroot : s.root.head? = some '/' := rfl
  have hprofile : s.profile ≠ [] ∧ '/' ∉ s.profile := by decide
  have hbelow := (workspace_law s hroot hprofile "a/".toList "m:::::n:".toList "t".toList).2.1
  have habove := (workspace_law s hroot hprofile "a".toList "m::/b::c".toList []).2.2.1
  exact ⟨hroot, hprofile, (hbelow (by decide)).1.trans (by decide), by decide,
    habove ⟨"/b".toList, by decide, rfl⟩⟩

end Offspring
