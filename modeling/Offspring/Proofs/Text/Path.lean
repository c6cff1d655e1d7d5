import Mathlib.Data.List.Basic
import Mathlib.Data.List.Induction
import Offspring.Text.Path
/-!
# Pieces and file names

A path falls into its pieces at the separators and nowhere else (`pieces_append_sep`,
`pieces_of_notMem`), so a part without a separator that is joined to a path is the last piece
of the whole, whatever the path was (`PathSymbols.getLast?_pieces_push`).

Parts that do not start at the root are laid out behind the path that they are joined to
(`PathSymbols.foldl_push`): those that are not empty, each but the last with one slash more if
it has none at its end, and the last one too when an empty part follows it.  Parts without
slashes can be read off the row that they make (`PathSymbols.pieces_row`).
-/

namespace Offspring

section Pieces

variable {α : Type} [DecidableEq α] {sep : α}

theorem pieces_ne_nil (sep : α) (l : List α) : pieces sep l ≠ [] := by
  induction l with
  | nil => simp [pieces]
  | cons a l ih =>
      rw [pieces]
      split
      · simp
      · split <;> simp

theorem pieces_of_notMem {l : List α} (h : sep ∉ l) : pieces sep l = [l] := by
  induction l with
  | nil => rfl
  | cons a l ih =>
      have ha : ¬ a = sep := fun he => h (he ▸ List.mem_cons_self)
      have hl : sep ∉ l := fun hm => h (List.mem_cons_of_mem a hm)
      rw [pieces, if_neg ha, ih hl]

/-- The pieces are those of the standard library. -/
theorem pieces_eq_splitOn (sep : α) (l : List α) : pieces sep l = l.splitOn sep := by
  induction l with
  | nil => rfl
  | cons a l ih =>
      rw [pieces, List.splitOn_cons_eq_if_modifyHead, ← ih]
      by_cases ha : a = sep
      · rw [if_pos ha, if_pos (beq_iff_eq.mpr ha)]
      · rw [if_neg ha, if_neg fun h => ha (beq_iff_eq.mp h)]
        cases hl : pieces sep l with
        | nil => exact absurd hl (pieces_ne_nil sep l)
        | cons p ps => rfl

/-- A separator ends one row of pieces and begins another. -/
theorem pieces_append_sep (sep : α) (l m : List α) :
    pieces sep (l ++ sep :: m) = pieces sep l ++ pieces sep m := by
  induction l with
  | nil => simp [pieces]
  | cons a l ih =>
      rw [List.cons_append, pieces, pieces, ih]
      split
      · rfl
      · cases hl : pieces sep l with
        | nil => exact absurd hl (pieces_ne_nil sep l)
        | cons p ps => rfl

/-- What has no separator goes to the front of the first piece. -/
theorem pieces_append_of_notMem {front l p : List α} {ps : List (List α)} (h : sep ∉ front)
    (hps : pieces sep l = p :: ps) : pieces sep (front ++ l) = (front ++ p) :: ps := by
  induction front with
  | nil => exact hps
  | cons a front ih =>
      have ha : ¬ a = sep := fun he => h (he ▸ List.mem_cons_self)
      have hfront : sep ∉ front := fun hm => h (List.mem_cons_of_mem a hm)
      rw [List.cons_append, pieces, if_neg ha, ih hfront]
      rfl

/-- A piece has no separator, and no symbol that the whole has not. -/
theorem mem_of_mem_pieces {l p : List α} (h : p ∈ pieces sep l) :
    sep ∉ p ∧ ∀ a ∈ p, a ∈ l := by
  induction l generalizing p with
  | nil =>
      rw [pieces, List.mem_singleton] at h
      subst h
      exact ⟨List.not_mem_nil, nofun⟩
  | cons b l ih =>
      have hlater : p ∈ pieces sep l → sep ∉ p ∧ ∀ a ∈ p, a ∈ b :: l := fun hp =>
        ⟨(ih hp).1, fun a ha => List.mem_cons_of_mem b ((ih hp).2 a ha)⟩
      rw [pieces] at h
      split at h
      · rcases List.mem_cons.mp h with rfl | h
        · exact ⟨List.not_mem_nil, nofun⟩
        · exact hlater h
      · next hb =>
        have hfirst : ∀ q ∈ pieces sep l, sep ∉ b :: q ∧ ∀ a ∈ b :: q, a ∈ b :: l := by
          intro q hq
          obtain ⟨hsep, hmem⟩ := ih hq
          refine ⟨fun hm => ?_, fun a ha => ?_⟩
          · rcases List.mem_cons.mp hm with rfl | hm
            · exact hb rfl
            · exact hsep hm
          · rcases List.mem_cons.mp ha with rfl | ha
            · exact List.mem_cons_self
            · exact List.mem_cons_of_mem b (hmem a ha)
        cases hl : pieces sep l with
        | nil => exact absurd hl (pieces_ne_nil sep l)
        | cons q qs =>
            rw [hl] at h hlater hfirst
            rcases List.mem_cons.mp h with rfl | h
            · exact hfirst q List.mem_cons_self
            · exact hlater (List.mem_cons_of_mem q h)

/-- Every other symbol of the whole is in some piece. -/
theorem exists_mem_pieces {l : List α} {a : α} (ha : a ≠ sep) (h : a ∈ l) :
    ∃ p ∈ pieces sep l, a ∈ p := by
  induction l with
  | nil => cases h
  | cons b l ih =>
      rw [pieces]
      split
      · next hb =>
        have hl : a ∈ l := (List.mem_cons.mp h).resolve_left fun he => ha (he.trans hb)
        obtain ⟨p, hp, hap⟩ := ih hl
        exact ⟨p, List.mem_cons_of_mem [] hp, hap⟩
      · cases hps : pieces sep l with
        | nil => exact absurd hps (pieces_ne_nil sep l)
        | cons q qs =>
            rw [hps] at ih
            rcases List.mem_cons.mp h with rfl | hl
            · exact ⟨a :: q, List.mem_cons_self, List.mem_cons_self⟩
            · obtain ⟨p, hp, hap⟩ := ih hl
              rcases List.mem_cons.mp hp with rfl | hp
              · exact ⟨b :: p, List.mem_cons_self, List.mem_cons_of_mem b hap⟩
              · exact ⟨p, List.mem_cons_of_mem (b :: q) hp, hap⟩

end Pieces

namespace PathSymbols

variable {α : Type} [DecidableEq α] {m : PathSymbols α} {part : List α}

/-- A joined part is all there is, or what follows a slash. -/
theorem push_cases (m : PathSymbols α) (path part : List α) :
    m.push path part = part ∨ ∃ front, m.push path part = front ++ m.slash :: part := by
  unfold push
  split
  · exact .inl rfl
  · split
    · exact .inl rfl
    · next a ha =>
      split
      · next hslash =>
        obtain ⟨front, rfl⟩ := List.getLast?_eq_some_iff.mp ha
        exact .inr ⟨front, by simp [hslash]⟩
      · exact .inr ⟨path, rfl⟩

/-- **A part without a slash stays one piece**, the last one. -/
theorem getLast?_pieces_push (h : m.slash ∉ part) (path : List α) :
    (pieces m.slash (m.push path part)).getLast? = some part := by
  rcases push_cases m path part with hpush | ⟨front, hpush⟩
  · rw [hpush, pieces_of_notMem h]
    rfl
  · rw [hpush, pieces_append_sep, pieces_of_notMem h, List.getLast?_append]
    rfl

/-- If it names something and does not go up, it is the file name. -/
theorem fileName?_push (h : m.slash ∉ part) (hnames : m.names part = true)
    (hup : part ≠ [m.dot, m.dot]) (path : List α) :
    m.fileName? (m.push path part) = some part := by
  obtain ⟨front, hfront⟩ := List.getLast?_eq_some_iff.mp (getLast?_pieces_push h path)
  rw [fileName?, hfront, List.filter_append, List.filter_cons_of_pos hnames, List.filter_nil,
    List.getLast?_append]
  simp [hup]

/-- What starts with something else than a dot names something and does not go up. -/
theorem names_of_head? {a : α} (ha : a ≠ m.dot) (h : part.head? = some a) :
    m.names part = true ∧ part ≠ [m.dot, m.dot] := by
  cases part with
  | nil => cases h
  | cons b rest =>
      cases h
      simp [names, ha]

/-- The file name is the last piece that names something, if that does not go up. -/
theorem fileName?_eq_some_iff {path name : List α} :
    m.fileName? path = some name ↔
      ((pieces m.slash path).filter m.names).getLast? = some name ∧ name ≠ [m.dot, m.dot] := by
  unfold fileName?
  cases ((pieces m.slash path).filter m.names).getLast? with
  | none => simp
  | some p =>
      dsimp only
      rw [Option.some.injEq]
      constructor
      · intro h
        split at h
        · cases h
        · next hup =>
          cases h
          exact ⟨rfl, hup⟩
      · rintro ⟨rfl, hup⟩
        rw [if_neg hup]

theorem fileName?_eq_none_iff {path : List α} :
    m.fileName? path = none ↔
      ((pieces m.slash path).filter m.names).getLast? = none ∨
        ((pieces m.slash path).filter m.names).getLast? = some [m.dot, m.dot] := by
  unfold fileName?
  cases ((pieces m.slash path).filter m.names).getLast? with
  | none => simp
  | some p => simp

/-- Every symbol of a path that has no meaning there is in a piece that names something. -/
theorem mem_iff_exists_names {path : List α} {a : α} (hslash : a ≠ m.slash) (hdot : a ≠ m.dot) :
    a ∈ path ↔ ∃ p ∈ (pieces m.slash path).filter m.names, a ∈ p := by
  constructor
  · intro h
    obtain ⟨p, hp, hap⟩ := exists_mem_pieces hslash h
    have hnames : m.names p = true := by
      have hsome : p ≠ [] := List.ne_nil_of_mem hap
      have hmore : p ≠ [m.dot] := fun hp' => hdot (List.mem_singleton.mp (hp' ▸ hap))
      simp [names, hsome, hmore]
    exact ⟨p, List.mem_filter.mpr ⟨hp, hnames⟩, hap⟩
  · rintro ⟨p, hp, hap⟩
    exact (mem_of_mem_pieces (List.mem_filter.mp hp).1).2 a hap

/-- A file name has no slash, and no symbol that the path has not. -/
theorem mem_of_fileName? {path name : List α} (h : m.fileName? path = some name) :
    m.slash ∉ name ∧ ∀ a ∈ name, a ∈ path := by
  have hlast := (fileName?_eq_some_iff.mp h).1
  exact mem_of_mem_pieces (List.mem_filter.mp (List.mem_of_getLast? hlast)).1

/-- A file name is a path with that name. -/
theorem fileName?_self {path name : List α} (h : m.fileName? path = some name) :
    m.fileName? name = some name := by
  obtain ⟨hlast, hup⟩ := fileName?_eq_some_iff.mp h
  have hnames : m.names name = true := (List.mem_filter.mp (List.mem_of_getLast? hlast)).2
  rw [fileName?_eq_some_iff, pieces_of_notMem (mem_of_fileName? h).1,
    List.filter_cons_of_pos hnames]
  exact ⟨rfl, hup⟩

/-- A directory in front of a path changes no file name. -/
theorem fileName?_under {path name : List α} (h : m.fileName? path = some name) (dir : List α) :
    m.fileName? (dir ++ m.slash :: path) = some name := by
  obtain ⟨hlast, hup⟩ := fileName?_eq_some_iff.mp h
  rw [fileName?_eq_some_iff, pieces_append_sep, List.filter_append, List.getLast?_append, hlast]
  exact ⟨rfl, hup⟩

/-- Slashes, and single dots after slashes, change none behind it. -/
theorem fileName?_append_trail (hdot : m.dot ≠ m.slash) (path : List α) {trail : List (List α)}
    (htrail : ∀ p ∈ trail, p = [m.slash] ∨ p = [m.slash, m.dot]) :
    m.fileName? (path ++ trail.flatten) = m.fileName? path := by
  induction trail generalizing path with
  | nil => rw [List.flatten_nil, List.append_nil]
  | cons p trail ih =>
      have hlater := ih (path ++ p) fun q hq => htrail q (List.mem_cons_of_mem p hq)
      have hsame : (pieces m.slash (path ++ p)).filter m.names =
          (pieces m.slash path).filter m.names := by
        rcases htrail p List.mem_cons_self with rfl | rfl
        · rw [pieces_append_sep, List.filter_append]
          simp [pieces, names]
        · have hone : m.slash ∉ [m.dot] := fun hm => hdot (List.mem_singleton.mp hm).symm
          rw [pieces_append_sep, List.filter_append, pieces_of_notMem hone]
          simp [names]
      rw [List.flatten_cons, ← List.append_assoc, hlater, fileName?, hsame, fileName?]

/-- Where the pieces of two paths correspond, their file names do. -/
theorem fileName?_of_map {β : Type} [DecidableEq β] {n : PathSymbols β} {f : List α → List β}
    {path : List α} {path' : List β}
    (hpieces : pieces n.slash path' = (pieces m.slash path).map f)
    (hnames : ∀ p, n.names (f p) = m.names p)
    (hup : ∀ p, f p = [n.dot, n.dot] ↔ p = [m.dot, m.dot]) :
    n.fileName? path' = (m.fileName? path).map f := by
  have hboth : n.names ∘ f = m.names := funext hnames
  rw [fileName?, fileName?, hpieces, List.filter_map, hboth, List.getLast?_map]
  cases ((pieces m.slash path).filter m.names).getLast? with
  | none => rfl
  | some p =>
      by_cases hp : p = [m.dot, m.dot]
      · have hfp := (hup p).mpr hp
        subst hp
        simp only [Option.map_some, hfp, if_true, Option.map_none]
      · simp only [Option.map_some, mt (hup p).mp hp, hp, if_false]

section Laid

variable (m)

/-- A path with a slash at its end, added if it has none. -/
def closed (path : List α) : List α :=
  if path.getLast? = some m.slash then path else path ++ [m.slash]

/-- Some paths in a row, each but the last with a slash at its end. -/
def row : List (List α) → List α
  | [] => []
  | [p] => p
  | p :: q :: ps => m.closed p ++ row (q :: ps)

/-- The parts that are not empty, in a row behind a first path; an empty part at the end asks
for a slash there. -/
def laid (first : List α) (parts : List (List α)) : List α :=
  let whole := m.row (first :: parts.filter (· ≠ []))
  if parts.getLast? = some [] then m.closed whole else whole

variable {m} {first : List α} {parts : List (List α)}

theorem prefix_closed (path : List α) : path <+: m.closed path := by
  unfold closed
  split
  · exact List.prefix_rfl
  · exact List.prefix_append path [m.slash]

theorem closed_ne_nil (path : List α) : m.closed path ≠ [] := by
  unfold closed
  split
  · next h =>
    rintro rfl
    cases h
  · simp

/-- Only the end of a path decides whether it gets a slash. -/
theorem closed_append (hpart : part ≠ []) (path : List α) :
    m.closed (path ++ part) = path ++ m.closed part := by
  unfold closed
  rw [List.getLast?_append_of_ne_nil path hpart]
  split
  · rfl
  · rw [List.append_assoc]

@[simp] theorem closed_closed (path : List α) : m.closed (m.closed path) = m.closed path := by
  have hend : (m.closed path).getLast? = some m.slash := by
    unfold closed
    split
    · next h => exact h
    · rw [List.getLast?_concat]
  rw [closed, if_pos hend]

theorem isAbsolute_iff : m.isAbsolute part = true ↔ part.head? = some m.slash := by
  simp [isAbsolute]

/-- A part without a slash does not start at the root. -/
theorem isAbsolute_of_notMem (h : m.slash ∉ part) : m.isAbsolute part = false := by
  rw [← Bool.not_eq_true, isAbsolute_iff]
  exact fun hhead => h (List.mem_of_head? hhead)

theorem push_of_absolute (h : m.isAbsolute part = true) (path : List α) :
    m.push path part = part := by
  rw [push, if_pos h]

/-- A part that does not start at the root is joined to the closed path. -/
theorem push_of_relative (hpath : path ≠ []) (h : m.isAbsolute part = false) :
    m.push path part = m.closed path ++ part := by
  rw [push, if_neg (by rw [h]; exact Bool.false_ne_true), closed]
  cases hlast : path.getLast? with
  | none => exact absurd (List.getLast?_eq_none_iff.mp hlast) hpath
  | some a =>
      by_cases ha : a = m.slash
      · simp [ha]
      · simp [ha]

/-- Joining adds no symbol but a slash, and loses none. -/
theorem mem_push_iff (h : m.isAbsolute part = false) {a : α} (ha : a ≠ m.slash) {path : List α} :
    a ∈ m.push path part ↔ a ∈ path ∨ a ∈ part := by
  by_cases hpath : path = []
  · subst hpath
    simp [push, h]
  · rw [push_of_relative hpath h, List.mem_append]
    have hclosed : a ∈ m.closed path ↔ a ∈ path := by
      unfold closed
      split
      · rfl
      · simp [ha]
    rw [hclosed]

/-- All of a row but its last path is closed. -/
theorem row_concat (l : List (List α)) (p : List α) :
    m.row (l ++ [p]) = l.flatMap m.closed ++ p := by
  induction l with
  | nil => rfl
  | cons q l ih =>
      have hrow : m.row (q :: (l ++ [p])) = m.closed q ++ m.row (l ++ [p]) := by
        cases l <;> rfl
      rw [List.cons_append, hrow, ih, List.flatMap_cons, List.append_assoc]

/-- And so is the last, when the row is. -/
theorem closed_row {l : List (List α)} (hl : l ≠ []) (hsome : ∀ p ∈ l, p ≠ []) :
    m.closed (m.row l) = l.flatMap m.closed := by
  obtain ⟨front, p, rfl⟩ := (List.eq_nil_or_concat' l).resolve_left hl
  have hp : p ≠ [] := hsome p (by simp)
  rw [row_concat, closed_append hp, List.flatMap_append, List.flatMap_singleton]

/-- A row whose paths have no slash falls into them again. -/
theorem pieces_row {l : List (List α)} (hl : l ≠ []) (hplain : ∀ p ∈ l, m.slash ∉ p) :
    pieces m.slash (m.row l) = l := by
  induction l with
  | nil => exact absurd rfl hl
  | cons p l ih =>
      have hp : m.slash ∉ p := hplain p List.mem_cons_self
      cases l with
      | nil => exact pieces_of_notMem hp
      | cons q l =>
          have hopen : p.getLast? ≠ some m.slash := fun h => hp (List.mem_of_getLast? h)
          have hlater := ih (List.cons_ne_nil q l) fun r hr => hplain r (List.mem_cons_of_mem p hr)
          rw [row, closed, if_neg hopen, List.append_assoc, List.singleton_append,
            pieces_append_sep, pieces_of_notMem hp, hlater]
          rfl

theorem row_cons_ne_nil (hfirst : first ≠ []) (l : List (List α)) : m.row (first :: l) ≠ [] := by
  cases l with
  | nil => exact hfirst
  | cons p l => exact List.append_ne_nil_of_left_ne_nil (closed_ne_nil first) _

theorem laid_ne_nil (hfirst : first ≠ []) (parts : List (List α)) : m.laid first parts ≠ [] := by
  unfold laid
  dsimp only
  split
  · exact closed_ne_nil _
  · exact row_cons_ne_nil hfirst _

/-- **Joining lays the parts out**, as long as none of them starts at the root. -/
theorem foldl_push (hfirst : first ≠ []) (hparts : ∀ p ∈ parts, m.isAbsolute p = false) :
    parts.foldl m.push first = m.laid first parts := by
  induction parts using List.reverseRecOn with
  | nil => rfl
  | append_singleton parts p ih =>
      have hbefore := ih fun q hq => hparts q (List.mem_append_left [p] hq)
      have hp : m.isAbsolute p = false := hparts p (by simp)
      have hsome : ∀ q ∈ first :: parts.filter (· ≠ []), q ≠ [] := by
        intro q hq
        rcases List.mem_cons.mp hq with rfl | hq
        · exact hfirst
        · simpa using (List.mem_filter.mp hq).2
      have hrow := closed_row (m := m) (List.cons_ne_nil first (parts.filter (· ≠ []))) hsome
      -- closed or not, the path so far is closed before the next part
      have hclosed : m.closed (m.laid first parts) =
          m.closed (m.row (first :: parts.filter (· ≠ []))) := by
        unfold laid
        dsimp only
        split
        · exact closed_closed _
        · rfl
      rw [List.foldl_append, List.foldl_cons, List.foldl_nil, hbefore,
        push_of_relative (laid_ne_nil hfirst parts) hp, hclosed, laid, List.getLast?_concat,
        List.filter_append]
      by_cases hnil : p = []
      · have hdrop : [p].filter (· ≠ []) = [] := by simp [hnil]
        rw [if_pos (congrArg some hnil), hdrop, List.append_nil, hnil, List.append_nil]
      · have hkeep : [p].filter (· ≠ []) = [p] := by simp [hnil]
        rw [if_neg fun h => hnil (Option.some.inj h), hkeep, ← List.cons_append, row_concat, hrow]

/-- Every part goes behind the first path and a slash. -/
theorem closed_prefix_laid (hparts : parts ≠ []) (first : List α) :
    m.closed first <+: m.laid first parts := by
  cases hnames : parts.filter (· ≠ []) with
  | nil =>
      have hlast : parts.getLast? = some [] := by
        obtain ⟨front, p, rfl⟩ := (List.eq_nil_or_concat' parts).resolve_left hparts
        have hp : p = [] := by
          by_contra hp
          have hmem : p ∈ (front ++ [p]).filter (· ≠ []) :=
            List.mem_filter.mpr ⟨by simp, by simpa using hp⟩
          rw [hnames] at hmem
          cases hmem
        rw [List.getLast?_concat, hp]
      rw [laid, if_pos hlast, hnames]
      exact List.prefix_rfl
  | cons p l =>
      have hrow : m.closed first <+: m.row (first :: p :: l) := List.prefix_append _ _
      unfold laid
      rw [hnames]
      dsimp only
      split
      · exact hrow.trans (prefix_closed _)
      · exact hrow

end Laid

end PathSymbols

end Offspring
