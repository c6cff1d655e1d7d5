import Mathlib.Data.List.TakeWhile
import Offspring.Proofs.Runner.Waits
import Offspring.Runner.Session
/-!
# What collecting a program gives

Nothing that comes after a deadline changes what has ended by it (`Trial.upTo_advance`), and
what comes, comes in the order of time.  So the readers and the program have one time and one
way to end each, whenever the program is collected (`Trial.final`), and the trial that runs to
a deadline knows as much of them as is over by then (`Trial.upTo_runTo`).  Collecting then
looks at standard output first, at standard error next and at the program last.

What is noted of the readers is how they stand (`Trial.Told`), and a reader that has ended has
kept its whole channel (`Reader.feedAll_start_cases`).  Waiters do not change either
(`Trial.Watches`).  A test run is a start and, if the program runs, a collection right after it
(`Runner.runTest_law`).
-/

namespace Offspring

section Deadline

variable {α : Type} {deadline : Nat} {ending : Option (Nat × α)}

/-- Something comes after a deadline or never. -/
def Late (deadline : Nat) (ending : Option (Nat × α)) : Prop :=
  ∀ time a, ending = some (time, a) → deadline < time

theorem byDeadline_eq_some_iff {a : α} :
    byDeadline deadline ending = some a ↔ ∃ time, ending = some (time, a) ∧ time ≤ deadline := by
  cases ending with
  | none => simp [byDeadline]
  | some k =>
      obtain ⟨time, b⟩ := k
      by_cases htime : time ≤ deadline <;> simp [byDeadline, htime]

theorem byDeadline_eq_none_iff : byDeadline deadline ending = none ↔ Late deadline ending := by
  constructor
  · intro hnone time a hending
    by_contra hle
    have hsome := byDeadline_eq_some_iff.mpr ⟨time, hending, Nat.le_of_not_lt hle⟩
    rw [hnone] at hsome
    cases hsome
  · intro hlate
    by_contra hsome
    obtain ⟨a, ha⟩ := Option.ne_none_iff_exists'.mp hsome
    obtain ⟨time, hending, hle⟩ := byDeadline_eq_some_iff.mp ha
    have hlt := hlate time a hending
    omega

theorem byDeadline_filter (deadline : Nat) (ending : Option (Nat × α)) :
    byDeadline deadline (ending.filter fun k => decide (k.1 ≤ deadline)) =
      byDeadline deadline ending := by
  cases ending with
  | none => rfl
  | some k =>
      obtain ⟨time, a⟩ := k
      by_cases htime : time ≤ deadline <;> simp [byDeadline, Option.filter, htime]

end Deadline

namespace Endings

variable {deadline : Nat} {e : Endings}

/-- What has ended by a deadline. -/
def upTo (deadline : Nat) (e : Endings) : Endings where
  out := e.out.filter fun k => decide (k.1 ≤ deadline)
  err := e.err.filter fun k => decide (k.1 ≤ deadline)
  exit := e.exit.filter fun k => decide (k.1 ≤ deadline)

/-- How the reader of a channel ends, and when. -/
def reader (e : Endings) : Channel → Option (Nat × Fate)
  | .out => e.out
  | .err => e.err

/-- Collecting sees nothing that comes after the deadline. -/
theorem collect_upTo (deadline : Nat) (e : Endings) (spoilt : Bool) :
    (e.upTo deadline).collect deadline spoilt = e.collect deadline spoilt := by
  simp only [collect, upTo, byDeadline_filter]

theorem byDeadline_upTo (deadline : Nat) (e : Endings) (c : Channel) :
    byDeadline deadline ((e.upTo deadline).reader c) = byDeadline deadline (e.reader c) := by
  cases c <;> exact byDeadline_filter _ _

/-- A failure of standard output is seen first. -/
theorem collect_of_out {time : Nat} {f : Fate} (h : e.out = some (time, f)) (hf : f ≠ .ended)
    (htime : time ≤ deadline) (spoilt : Bool) :
    e.collect deadline spoilt = .failed (if f = .failed then .illFormed else .readerPanicked) := by
  have hout := byDeadline_eq_some_iff.mpr ⟨time, h, htime⟩
  unfold collect
  rw [hout]
  cases f with
  | ended => exact absurd rfl hf
  | failed => rfl
  | panicked => rfl

theorem collect_of_out_late (h : Late deadline e.out) (spoilt : Bool) :
    e.collect deadline spoilt = .failed .timedOut := by
  unfold collect
  rw [byDeadline_eq_none_iff.mpr h]

/-- And one of standard error only once standard output has ended. -/
theorem collect_of_err {time : Nat} (hout : byDeadline deadline e.out = some .ended)
    (h : e.err = some (time, .failed)) (htime : time ≤ deadline) (spoilt : Bool) :
    e.collect deadline spoilt = .failed .illFormed := by
  have herr := byDeadline_eq_some_iff.mpr ⟨time, h, htime⟩
  unfold collect
  rw [hout, herr]

theorem collect_of_err_late (hout : byDeadline deadline e.out = some .ended)
    (h : Late deadline e.err) (spoilt : Bool) :
    e.collect deadline spoilt = .failed .timedOut := by
  unfold collect
  rw [hout, byDeadline_eq_none_iff.mpr h]

theorem collect_of_exit_late (hout : byDeadline deadline e.out = some .ended)
    (herr : byDeadline deadline e.err = some .ended) (h : Late deadline e.exit) (spoilt : Bool) :
    e.collect deadline spoilt = .failed .timedOut := by
  unfold collect
  rw [hout, herr, byDeadline_eq_none_iff.mpr h]

theorem collect_of_ended {d : Death} (hout : byDeadline deadline e.out = some .ended)
    (herr : byDeadline deadline e.err = some .ended) (hexit : byDeadline deadline e.exit = some d)
    (spoilt : Bool) :
    e.collect deadline spoilt = if spoilt then .panicked else .finished d := by
  unfold collect
  rw [hout, herr, hexit]

/-- Only a program that is over with all its channels is finished. -/
theorem ended_of_collect {spoilt : Bool} {d : Death}
    (h : e.collect deadline spoilt = .finished d) :
    byDeadline deadline e.out = some .ended ∧ byDeadline deadline e.err = some .ended ∧
      byDeadline deadline e.exit = some d := by
  unfold collect at h
  split at h
  · cases h
  · cases h
  · cases h
  next hout =>
  split at h
  · cases h
  · cases h
  · cases h
  next herr =>
  split at h
  · cases h
  next d' hexit =>
  split at h
  · cases h
  · cases h
    exact ⟨hout, herr, hexit⟩

end Endings

theorem Reader.isOver_of_fate {r : Reader} {f : Fate} (h : r.fate? = some f) :
    r.isOver = true := by
  rw [isOver, h]
  rfl

/-- **A reader that nobody disturbs never panics, and ends only with its channel.**  What it
has kept then is all that the channel brought before its end. -/
theorem Reader.feedAll_start_cases (reads : List Bytes) :
    (start.feedAll reads).fate? = none ∨ (start.feedAll reads).fate? = some .failed ∨
      ((start.feedAll reads).fate? = some .ended ∧ [] ∈ reads ∧
        (start.feedAll reads).content.encode = (reads.takeWhile (· ≠ [])).flatten) := by
  have hfront : ∀ read ∈ reads.takeWhile (· ≠ []), read ≠ [] := by
    intro read hread
    simpa using List.mem_takeWhile_imp hread
  have hsplit : reads.takeWhile (· ≠ []) ++ reads.dropWhile (· ≠ []) = reads :=
    List.takeWhile_append_dropWhile
  generalize reads.takeWhile (· ≠ []) = front at hfront hsplit ⊢
  cases hrest : reads.dropWhile (· ≠ []) with
  | nil =>
      -- the channel has not ended
      rw [hrest, List.append_nil] at hsplit
      subst hsplit
      rcases sound_start.feedAll rfl rfl hfront with ⟨_, _, hstage, _⟩ | ⟨_, hstage⟩
      · exact .inl (by simp only [fate?, hstage])
      · exact .inr (.inl (by simp only [fate?, hstage]))
  | cons last rest =>
      have hlast : last = [] := by
        have hhead : (reads.dropWhile (· ≠ [])).head? = some last := by rw [hrest]; rfl
        have hstop := List.head?_dropWhile_not (fun read : Bytes => decide (read ≠ [])) reads
        rw [hhead] at hstop
        simpa using hstop
      have hall : reads = (front ++ [[]]) ++ rest := by
        rw [← hsplit, hrest, hlast, List.append_assoc]
        rfl
      have hrun : start.feedAll reads = (start.feedAll (front ++ [[]])).feedAll rest := by
        rw [hall, feedAll_append]
      rcases feedAll_channel hfront with ⟨t, ht, hfate, hcontent, _⟩ | ⟨_, hfate⟩
      · rw [hrun, feedAll_of_isOver (isOver_of_fate hfate), hcontent]
        exact .inr (.inr ⟨hfate, by simp [hall], ht⟩)
      · rw [hrun, feedAll_of_isOver (isOver_of_fate hfate)]
        exact .inr (.inl hfate)

namespace Program

/-- All reads of a channel of a program. -/
def reads (p : Program) (c : Channel) : List Bytes :=
  p.witnessed.flatMap fun a => a.readsOf c

/-- The reads of a channel that come up to a time. -/
def readsBy (p : Program) (time : Nat) (c : Channel) : List Bytes :=
  (p.witnessed.takeWhile fun a => decide (a.time ≤ time)).flatMap fun a => a.readsOf c

/-- When a program is seen to end, and how. -/
def exit? (p : Program) : Option (Nat × Death) :=
  p.witnessed.findSome? fun a => a.exit.map fun d => (a.time, d)

end Program

namespace Trial

variable {t t' : Trial} {come : List Arrival} {deadline : Nat} {p : Program}

/-- When all of a trial ends, if it is watched for long enough. -/
def final (t : Trial) : Endings :=
  (t.coming.foldl advance t).endings

/-- What comes after a deadline is noted as late, or not at all. -/
theorem filter_noted {α : Type} {time : Nat} (h : deadline < time) (known : Option (Nat × α))
    (found : Option α) :
    (noted known time found).filter (fun k => decide (k.1 ≤ deadline)) =
      known.filter (fun k => decide (k.1 ≤ deadline)) := by
  have hlate : ¬ time ≤ deadline := Nat.not_le_of_lt h
  cases known with
  | some k => rfl
  | none =>
      cases found with
      | none => rfl
      | some a => simp [noted, Option.filter, hlate]

/-- **Nothing that comes late changes what has ended by a deadline.** -/
theorem upTo_advance {a : Arrival} (h : deadline < a.time) (t : Trial) :
    (t.advance a).endings.upTo deadline = t.endings.upTo deadline := by
  simp only [advance, Endings.upTo, filter_noted h]

theorem upTo_foldl_advance (h : ∀ a ∈ come, deadline < a.time) (t : Trial) :
    (come.foldl advance t).endings.upTo deadline = t.endings.upTo deadline := by
  induction come generalizing t with
  | nil => rfl
  | cons a come ih =>
      have hrest := ih (fun b hb => h b (List.mem_cons_of_mem a hb)) (t.advance a)
      rw [List.foldl_cons, hrest, upTo_advance (h a List.mem_cons_self)]

/-- Things come in the order of time. -/
def InOrder (come : List Arrival) : Prop :=
  come.Pairwise fun a b => a.time ≤ b.time

theorem inOrder_witnessed (p : Program) : InOrder p.witnessed := by
  have hsorted : p.witnessed.Pairwise fun a b => decide (a.time ≤ b.time) = true := by
    apply List.pairwise_mergeSort
    · intro a b c hab hbc
      simp only [decide_eq_true_eq] at hab hbc ⊢
      exact Nat.le_trans hab hbc
    · intro a b
      simp only [Bool.or_eq_true, decide_eq_true_eq]
      exact Nat.le_total a.time b.time
  exact hsorted.imp fun hab => of_decide_eq_true hab

theorem late_of_mem_dropWhile (h : InOrder come) :
    ∀ a ∈ come.dropWhile (fun a => decide (a.time ≤ deadline)), deadline < a.time := by
  induction come with
  | nil => exact nofun
  | cons b come ih =>
      obtain ⟨hfirst, hrest⟩ := List.pairwise_cons.mp h
      by_cases hb : b.time ≤ deadline
      · rw [List.dropWhile_cons_of_pos (by simpa using hb)]
        exact ih hrest
      · rw [List.dropWhile_cons_of_neg (by simpa using hb)]
        intro a ha
        rcases List.mem_cons.mp ha with rfl | ha
        · omega
        · have hle := hfirst a ha
          omega

/-- What is left to come after a time brings the trial from there to its end. -/
theorem foldl_runTo (t : Trial) (time : Nat) :
    (t.coming.dropWhile fun a => decide (a.time ≤ time)).foldl advance (t.runTo time) =
      t.coming.foldl advance t := by
  rw [runTo, ← List.foldl_append, List.takeWhile_append_dropWhile]

/-- **A trial at a deadline knows all that ends by then.** -/
theorem upTo_runTo (h : InOrder t.coming) (deadline : Nat) :
    (t.runTo deadline).endings.upTo deadline = t.final.upTo deadline := by
  rw [final, ← t.foldl_runTo deadline, upTo_foldl_advance (late_of_mem_dropWhile h)]

/-- And so collecting it tells what the trial comes to in the end. -/
theorem collect_runTo (h : InOrder t.coming) (deadline : Nat) (spoilt : Bool) :
    (t.runTo deadline).endings.collect deadline spoilt = t.final.collect deadline spoilt := by
  rw [← Endings.collect_upTo, upTo_runTo h, Endings.collect_upTo]

/-- What is noted of the readers is how they stand, and was noted in the past. -/
def Told (t : Trial) : Prop :=
  ∀ c, (t.endings.reader c).map Prod.snd = (t.capture.reader c).fate? ∧
    ∀ k ∈ t.endings.reader c, k.1 ≤ t.now

theorem told_start (p : Program) : (start p).Told := by
  intro c
  cases c <;> exact ⟨rfl, nofun⟩

theorem reader_endings_advance (t : Trial) (a : Arrival) (c : Channel) :
    (t.advance a).endings.reader c =
      noted (t.endings.reader c) a.time ((t.advance a).capture.reader c).fate? := by
  cases c <;> rfl

theorem Told.advance (h : t.Told) (a : Arrival) : (t.advance a).Told := by
  intro c
  obtain ⟨htold, hpast⟩ := h c
  rw [reader_endings_advance]
  cases hknown : t.endings.reader c with
  | none =>
      refine ⟨?_, ?_⟩
      · rw [noted]
        generalize ((t.advance a).capture.reader c).fate? = found
        cases found <;> rfl
      · intro k hk
        obtain ⟨f, _, rfl⟩ := Option.map_eq_some_iff.mp hk
        exact Nat.le_max_right t.now a.time
  | some k =>
      -- a reader that has ended stays as it is
      rw [hknown] at htold hpast
      have hover := Reader.isOver_of_fate htold.symm
      rw [reader_advance, Reader.feedAll_of_isOver hover]
      refine ⟨htold, ?_⟩
      intro k' hk'
      exact Nat.le_trans (hpast k' hk') (Nat.le_max_left t.now a.time)

theorem Told.foldl_advance (h : t.Told) (come : List Arrival) :
    (come.foldl Trial.advance t).Told := by
  induction come generalizing t with
  | nil => exact h
  | cons a come ih => exact ih (h.advance a)

theorem Told.later (h : t.Told) {now : Nat} (hnow : t.now ≤ now) (coming : List Arrival) :
    ({ t with now := now, coming := coming } : Trial).Told := by
  intro c
  obtain ⟨htold, hpast⟩ := h c
  exact ⟨htold, fun k hk => Nat.le_trans (hpast k hk) hnow⟩

theorem Told.runTo (h : t.Told) (time : Nat) : (t.runTo time).Told :=
  h.foldl_advance _

theorem now_runTo_le {time : Nat} (hnow : t.now ≤ time) : (t.runTo time).now ≤ time := by
  have hcome : ∀ a ∈ t.coming.takeWhile (fun a => decide (a.time ≤ time)), a.time ≤ time := by
    intro a ha
    have hby := List.mem_takeWhile_imp ha
    exact of_decide_eq_true hby
  rw [Trial.runTo]
  generalize t.coming.takeWhile (fun a => decide (a.time ≤ time)) = come at hcome
  induction come generalizing t with
  | nil => exact hnow
  | cons a come ih =>
      have ha := hcome a List.mem_cons_self
      have hnow' : (t.advance a).now ≤ time := Nat.max_le.mpr ⟨hnow, ha⟩
      exact ih hnow' fun b hb => hcome b (List.mem_cons_of_mem a hb)

theorem Told.byDeadline (h : t.Told) {time : Nat} (hnow : t.now ≤ time) (c : Channel) :
    byDeadline time (t.endings.reader c) = (t.capture.reader c).fate? := by
  obtain ⟨htold, hpast⟩ := h c
  rw [← htold]
  cases hknown : t.endings.reader c with
  | none => rfl
  | some k =>
      have hle : k.1 ≤ time := Nat.le_trans (hpast k (by rw [hknown]; rfl)) hnow
      exact if_pos hle

/-- **The readers stand as the trial comes to note.** -/
theorem fate_runTo (hinOrder : InOrder t.coming) (htold : t.Told) {time : Nat}
    (hnow : t.now ≤ time) (c : Channel) :
    ((t.runTo time).capture.reader c).fate? = byDeadline time (t.final.reader c) := by
  rw [← (htold.runTo time).byDeadline (now_runTo_le hnow), ← Endings.byDeadline_upTo,
    upTo_runTo hinOrder, Endings.byDeadline_upTo]

/-- What comes brings each reader the reads of its channel. -/
theorem reader_foldl_advance (come : List Arrival) (t : Trial) (c : Channel) :
    (come.foldl advance t).capture.reader c =
      (t.capture.reader c).feedAll (come.flatMap fun a => a.readsOf c) := by
  induction come generalizing t with
  | nil => rfl
  | cons a come ih =>
      rw [List.foldl_cons, ih, reader_advance, List.flatMap_cons, Reader.feedAll_append]

theorem exit_foldl_advance (come : List Arrival) (t : Trial) :
    (come.foldl advance t).endings.exit =
      t.endings.exit.or (come.findSome? fun a => a.exit.map fun d => (a.time, d)) := by
  induction come generalizing t with
  | nil => rw [List.foldl_nil, List.findSome?_nil, Option.or_none]
  | cons a come ih =>
      have hstep : (t.advance a).endings.exit =
          t.endings.exit.or (a.exit.map fun d => (a.time, d)) := by
        simp only [advance]
        cases t.endings.exit <;> rfl
      rw [List.foldl_cons, ih, hstep, Option.or_assoc, List.findSome?_cons]
      cases a.exit <;> rfl

/-- **A reader ends with the reads that have come by then.** -/
theorem byDeadline_final_start (p : Program) (time : Nat) (c : Channel) :
    byDeadline time ((start p).final.reader c) =
      (Reader.start.feedAll (p.readsBy time c)).fate? := by
  have hstart : (start p).capture.reader c = Reader.start := by cases c <;> rfl
  rw [← fate_runTo (inOrder_witnessed p) (told_start p) (Nat.zero_le time), runTo,
    reader_foldl_advance, hstart]
  rfl

/-- A trial of a program with which only waiters had to do.  Its readers take the reads of
their channels, the program ends when it does, and what is noted of them is so. -/
structure Watches (t : Trial) (p : Program) : Prop where
  inOrder : InOrder t.coming
  told : t.Told
  exit : t.final.exit = p.exit?
  /-- Waiters can only disturb the reader of standard output. -/
  reads : ∀ c, (c = .out → t.capture.out.spoilt = false) →
    (t.coming.foldl advance t).capture.reader c = Reader.start.feedAll (p.reads c)

theorem watches_start (p : Program) : (start p).Watches p where
  inOrder := inOrder_witnessed p
  told := told_start p
  exit := exit_foldl_advance p.witnessed (start p)
  reads := by
    intro c _
    have hstart : (start p).capture.reader c = Reader.start := by cases c <;> rfl
    rw [reader_foldl_advance, hstart]
    rfl

theorem Lapses.last (h : t.Lapses t') :
    (t'.coming.foldl advance t').capture = (t.coming.foldl advance t).capture ∧
      t'.final = t.final := by
  obtain ⟨come, hcoming, _, heq⟩ := h
  have hcapture := congrArg Trial.capture heq
  have hendings := congrArg Trial.endings heq
  rw [final, final, hcoming, List.foldl_append]
  exact foldl_advance_congr t'.coming hcapture hendings

theorem Lapses.spoilt (h : t.Lapses t') : t'.capture.out.spoilt = t.capture.out.spoilt := by
  obtain ⟨come, _, _, heq⟩ := h
  have hcapture := congrArg Trial.capture heq
  rw [hcapture]
  exact spoilt_foldl_advance come t

theorem Watches.lapses (h : t.Watches p) (hlapse : t.Lapses t') : t'.Watches p := by
  obtain ⟨hcapture, hfinal⟩ := hlapse.last
  have hspoilt := hlapse.spoilt
  obtain ⟨come, hcoming, hle, heq⟩ := hlapse
  refine ⟨?_, ?_, ?_, ?_⟩
  · have hinOrder := h.inOrder
    rw [InOrder, hcoming] at hinOrder
    exact (List.pairwise_append.mp hinOrder).2.1
  · rw [heq]
    exact (h.told.foldl_advance come).later hle _
  · rw [hfinal, h.exit]
  · intro c hclean
    rw [hcapture]
    refine h.reads c fun hc => ?_
    rw [← hspoilt, hclean hc]

theorem Watches.spoil (h : t.Watches p) :
    ({ t with capture := { t.capture with
      out := { t.capture.out with spoilt := true } } } : Trial).Watches p := by
  refine ⟨h.inOrder, ?_, ?_, ?_⟩
  · intro c
    have htold := h.told c
    cases c <;> exact htold
  · rw [← h.exit, final, final, exit_foldl_advance, exit_foldl_advance]
  · intro c hclean
    cases c with
    | out => cases hclean rfl
    | err =>
        have herr := h.reads .err nofun
        rw [reader_foldl_advance] at herr ⊢
        exact herr

/-- **Waits leave a program to itself.** -/
theorem Watches.waits (h : t.Watches p) (wishes : List Wish) : (t.waits wishes).2.Watches p := by
  induction wishes generalizing t with
  | nil => exact h
  | cons c wishes ih =>
      rw [waits_cons]
      apply ih
      by_cases hresult : (t.waitFor c.timeout c.start c.expects).1 = .panicked
      · have hblind := (waitFor_panicked_iff t c.timeout c.start c.expects).mp hresult
        rw [waitFor_of_blind c.timeout c.expects hblind]
        exact h.spoil
      · exact h.lapses (waitFor_lapses t c.timeout c.start c.expects hresult).2

theorem spoilt_waits (hclean : t.capture.out.spoilt = false) (wishes : List Wish) :
    (t.waits wishes).2.capture.out.spoilt = true ↔ .panicked ∈ (t.waits wishes).1 := by
  rcases t.waits_cases wishes with ⟨hgood, hlapse⟩ | ⟨hspoilt, good, n, _, hresults⟩
  · rw [hlapse.spoilt, hclean]
    exact ⟨nofun, fun hbad => absurd hbad hgood⟩
  · refine ⟨fun _ => ?_, fun _ => hspoilt⟩
    rw [hresults]
    exact List.mem_append_right _ (List.mem_replicate.mpr ⟨n.succ_ne_zero, rfl⟩)

/-- The reader of standard error does not panic. -/
theorem Watches.err_fails (h : t.Watches p) {time : Nat} {f : Fate}
    (herr : t.final.err = some (time, f)) (hf : f ≠ .ended) : f = .failed := by
  have htold := ((h.told.foldl_advance t.coming) .err).1
  rw [h.reads .err nofun] at htold
  have hfate : some f = (Reader.start.feedAll (p.reads .err)).fate? := by
    rw [← htold]
    exact (congrArg (Option.map Prod.snd) herr).symm
  rcases Reader.feedAll_start_cases (p.reads .err) with hnone | hfailed | ⟨hended, _⟩
  · rw [hnone] at hfate
    cases hfate
  · rw [hfailed] at hfate
    exact Option.some.inj hfate
  · rw [hended] at hfate
    exact absurd (Option.some.inj hfate) hf

/-- **What a reader that has ended has kept is its channel.** -/
theorem Watches.content (h : t.Watches p) {time : Nat} {c : Channel}
    (hclean : c = .out → t.capture.out.spoilt = false)
    (hended : ((t.runTo time).capture.reader c).fate? = some .ended) :
    [] ∈ p.reads c ∧ ((t.runTo time).capture.reader c).content.encode =
      ((p.reads c).takeWhile (· ≠ [])).flatten := by
  have hover := Reader.isOver_of_fate hended
  have hlast : (t.runTo time).capture.reader c = Reader.start.feedAll (p.reads c) := by
    rw [← h.reads c hclean, ← t.foldl_runTo time, reader_foldl_advance,
      Reader.feedAll_of_isOver hover]
  rw [hlast] at hended ⊢
  rcases Reader.feedAll_start_cases (p.reads c) with hnone | hfailed | ⟨_, hend, hcontent⟩
  · rw [hnone] at hended
    cases hended
  · rw [hfailed] at hended
    cases hended
  · exact ⟨hend, hcontent⟩

/-- Collecting a program tells what it comes to in the end, as far as the deadline shows. -/
theorem Watches.collect (h : t.Watches p) (timeout : Nat) :
    t.collect timeout =
      match t.final.collect (t.now + millis timeout) t.capture.out.spoilt with
      | .finished d =>
        .output ({ t.runTo (t.now + millis timeout) with now := t.now }.output d)
      | .failed f => .failed f
      | .panicked => .panicked := by
  have hspoilt : (t.runTo (t.now + millis timeout)).capture.out.spoilt = t.capture.out.spoilt :=
    spoilt_foldl_advance _ t
  have hsame := collect_runTo h.inOrder (t.now + millis timeout) t.capture.out.spoilt
  cases hcollect : t.final.collect (t.now + millis timeout) t.capture.out.spoilt <;>
    simp only [Trial.collect, hspoilt, hsame, hcollect]

theorem Watches.collect_failed (h : t.Watches p) {timeout : Nat} {f : Failure}
    (hf : t.final.collect (t.now + millis timeout) t.capture.out.spoilt = .failed f) :
    t.collect timeout = .failed f := by
  rw [h.collect, hf]

theorem eq_some_of_filter_eq {α : Type} {x y : Option (Nat × α)} {k : Nat × α}
    (h : x.filter (fun k => decide (k.1 ≤ deadline)) = y.filter fun k => decide (k.1 ≤ deadline))
    (hy : y = some k) (hk : k.1 ≤ deadline) : x = some k := by
  have hfound : y.filter (fun k => decide (k.1 ≤ deadline)) = some k :=
    Option.filter_eq_some_iff.mpr ⟨hy, decide_eq_true hk⟩
  exact (Option.filter_eq_some_iff.mp (h.trans hfound)).1

/-- **What a program leaves.**  It is collected with the whole of both channels. -/
theorem Watches.output (h : t.Watches p) {outTime errTime exitTime : Nat} {d : Death}
    (hclean : t.capture.out.spoilt = false)
    (hout : t.final.out = some (outTime, .ended)) (houtTime : outTime ≤ deadline)
    (herr : t.final.err = some (errTime, .ended)) (herrTime : errTime ≤ deadline)
    (hexit : t.final.exit = some (exitTime, d)) (hexitTime : exitTime ≤ deadline)
    (hnow : t.now ≤ deadline) :
    let o := { t.runTo deadline with now := t.now }.output d
    o.death = d ∧ o.elapsed = max t.now (max outTime (max errTime exitTime)) ∧
      (∀ c, [] ∈ p.reads c) ∧
      o.stdout.encode = ((p.reads .out).takeWhile (· ≠ [])).flatten ∧
      o.stderr.encode = ((p.reads .err).takeWhile (· ≠ [])).flatten := by
  intro o
  have hsame := upTo_runTo h.inOrder deadline
  have hlastOut := eq_some_of_filter_eq (congrArg Endings.out hsame) hout houtTime
  have hlastErr := eq_some_of_filter_eq (congrArg Endings.err hsame) herr herrTime
  have hlastExit := eq_some_of_filter_eq (congrArg Endings.exit hsame) hexit hexitTime
  have hended : ∀ c, ((t.runTo deadline).capture.reader c).fate? = some .ended := by
    intro c
    rw [fate_runTo h.inOrder h.told hnow]
    cases c with
    | out => exact byDeadline_eq_some_iff.mpr ⟨outTime, hout, houtTime⟩
    | err => exact byDeadline_eq_some_iff.mpr ⟨errTime, herr, herrTime⟩
  have hcontent := fun c => h.content (fun _ => hclean) (hended c)
  refine ⟨rfl, ?_, fun c => (hcontent c).1, (hcontent .out).2, (hcontent .err).2⟩
  simp only [o, Trial.output, hlastOut, hlastErr, hlastExit, timeOf]

end Trial

/-- **The law of collecting.**  Let a program be started, waited for in any way, and then
collected under a deadline.  Its readers and itself have one time and one way to end each, or
they never do; where no wait panicked, a reader ends so with the reads that come up to then,
as if nobody had waited.

If standard output fails by the deadline, collecting fails as it did, whatever becomes of the
rest.  If it does not end by then, collecting times out, even if standard error failed long
before.  Once standard output has ended, it is the same with standard error, and once both
have, with the program itself.  When all three have ended by the deadline, and no wait
panicked, the program is collected: with the way it died, and with the texts whose bytes are
all that its channels brought before their ends, so none is cut short.  It is collected in no
other case, so never while somebody still holds one of its channels. -/
theorem collecting_law (p : Program) (wishes : List Trial.Wish) (timeout : Nat) :
    let results := ((Trial.start p).waits wishes).1
    let t := ((Trial.start p).waits wishes).2
    let deadline := t.now + millis timeout
    let e := t.final
    let outcome := t.collect timeout
    (∀ time, t.now ≤ time → ∀ c,
      byDeadline time (e.reader c) = ((t.runTo time).capture.reader c).fate?) ∧
    (.panicked ∉ results → ∀ time c,
      byDeadline time (e.reader c) = (Reader.start.feedAll (p.readsBy time c)).fate?) ∧
    e.exit = p.exit? ∧
    (∀ outTime f, e.out = some (outTime, f) → f ≠ .ended → outTime ≤ deadline →
      outcome = .failed (if f = .failed then .illFormed else .readerPanicked)) ∧
    (Late deadline e.out → outcome = .failed .timedOut) ∧
    (∀ outTime, e.out = some (outTime, .ended) → outTime ≤ deadline →
      (∀ errTime f, e.err = some (errTime, f) → f ≠ .ended → errTime ≤ deadline →
        outcome = .failed .illFormed) ∧
      (Late deadline e.err → outcome = .failed .timedOut) ∧
      ∀ errTime, e.err = some (errTime, .ended) → errTime ≤ deadline →
        (Late deadline e.exit → outcome = .failed .timedOut) ∧
        ∀ exitTime d, e.exit = some (exitTime, d) → exitTime ≤ deadline →
          (.panicked ∈ results → outcome = .panicked) ∧
          (.panicked ∉ results → ∃ o, outcome = .output o ∧ o.death = d ∧
            o.elapsed = max t.now (max outTime (max errTime exitTime)) ∧
            (∀ c, [] ∈ p.reads c) ∧
            o.stdout.encode = ((p.reads .out).takeWhile (· ≠ [])).flatten ∧
            o.stderr.encode = ((p.reads .err).takeWhile (· ≠ [])).flatten)) ∧
    (∀ o, outcome = .output o → .panicked ∉ results ∧ ∃ outTime errTime exitTime,
      e.out = some (outTime, .ended) ∧ e.err = some (errTime, .ended) ∧
      e.exit = some (exitTime, o.death) ∧ max outTime (max errTime exitTime) ≤ deadline) ∧
    Failure.illFormed.message = "invalid utf-8".toList ∧
    Failure.timedOut.message = "command timed out".toList := by
  intro results t deadline e outcome
  have hwatches : t.Watches p := (Trial.watches_start p).waits wishes
  have hspoilt : t.capture.out.spoilt = true ↔ .panicked ∈ results :=
    Trial.spoilt_waits rfl wishes
  have hnow : t.now ≤ deadline := Nat.le_add_right _ _
  refine ⟨?_, ?_, hwatches.exit, ?_, ?_, ?_, ?_, rfl, rfl⟩
  · intro time htime c
    exact (Trial.fate_runTo hwatches.inOrder hwatches.told htime c).symm
  · intro hgood time c
    rcases (Trial.start p).waits_cases wishes with ⟨_, hlapse⟩ | ⟨hbad, _⟩
    · have hsame : e = (Trial.start p).final := hlapse.last.2
      rw [hsame]
      exact Trial.byDeadline_final_start p time c
    · exact absurd (hspoilt.mp hbad) hgood
  · intro outTime f hout hf htime
    exact hwatches.collect_failed (Endings.collect_of_out hout hf htime _)
  · intro hlate
    exact hwatches.collect_failed (Endings.collect_of_out_late hlate _)
  · intro outTime hout houtTime
    have houtEnded := byDeadline_eq_some_iff.mpr ⟨outTime, hout, houtTime⟩
    refine ⟨?_, ?_, ?_⟩
    · intro errTime f herr hf htime
      rw [hwatches.err_fails herr hf] at herr
      exact hwatches.collect_failed (Endings.collect_of_err houtEnded herr htime _)
    · intro hlate
      exact hwatches.collect_failed (Endings.collect_of_err_late houtEnded hlate _)
    · intro errTime herr herrTime
      have herrEnded := byDeadline_eq_some_iff.mpr ⟨errTime, herr, herrTime⟩
      refine ⟨?_, ?_⟩
      · intro hlate
        exact hwatches.collect_failed
          (Endings.collect_of_exit_late houtEnded herrEnded hlate _)
      · intro exitTime d hexit hexitTime
        have hexitEnded := byDeadline_eq_some_iff.mpr ⟨exitTime, hexit, hexitTime⟩
        have hcollect := Endings.collect_of_ended houtEnded herrEnded hexitEnded
          t.capture.out.spoilt
        have houtcome : outcome = _ := hwatches.collect timeout
        rw [hcollect] at houtcome
        refine ⟨?_, ?_⟩
        · intro hbad
          rw [houtcome, hspoilt.mpr hbad]
          rfl
        · intro hgood
          have hclean : t.capture.out.spoilt = false := by
            rw [← Bool.not_eq_true, hspoilt]
            exact hgood
          rw [hclean] at houtcome
          exact ⟨_, houtcome, hwatches.output hclean hout houtTime herr herrTime hexit
            hexitTime hnow⟩
  · intro o ho
    have houtcome : outcome = _ := hwatches.collect timeout
    rw [ho] at houtcome
    split at houtcome
    · next d hfinished =>
      obtain ⟨hout, herr, hexit⟩ := Endings.ended_of_collect hfinished
      obtain ⟨outTime, hout, houtTime⟩ := byDeadline_eq_some_iff.mp hout
      obtain ⟨errTime, herr, herrTime⟩ := byDeadline_eq_some_iff.mp herr
      obtain ⟨exitTime, hexit, hexitTime⟩ := byDeadline_eq_some_iff.mp hexit
      have hdeath : o.death = d := by
        rw [Outcome.output.inj houtcome]
        rfl
      refine ⟨?_, outTime, errTime, exitTime, hout, herr, ?_, ?_⟩
      · intro hbad
        have hnever := Trial.collect_of_spoilt (hspoilt.mpr hbad) timeout o
        exact hnever ho
      · rw [hdeath]
        exact hexit
      · omega
    · cases houtcome
    · cases houtcome

/-- Standard error fails at once, but somebody still holds standard output at the deadline. -/
example : Endings.collect ⟨some (5, .ended), some (1, .failed), some (2, .exit 0)⟩ 4 false =
    .failed .timedOut := by
  decide

/-- **The law of a test run.**  A test run fails as its start does.  Once the program runs,
standard output is looked at first, standard error next and the program last, each with what has
come of it by the deadline.  There is an output just when both channels and the program have
ended by then, and it is whole.  Otherwise a channel was ill-formed or the time was up, and
nothing panics. -/
theorem Runner.runTest_law (r : Runner) (h : Host Program) (program : Text) (args : List Text)
    (timeout : Nat) :
    let outcome := r.runTest h program args timeout
    (∀ f, (r.launch h program args = .unlogged f ∨
        ∃ log, r.launch h program args = .unstarted log f) → outcome = .failed f) ∧
    ∀ log p, r.launch h program args = .started log p →
      let fate (c : Channel) := (Reader.start.feedAll (p.readsBy (millis timeout) c)).fate?
      let death := byDeadline (millis timeout) p.exit?
      ((∃ o, outcome = .output o) ↔
        fate .out = some .ended ∧ fate .err = some .ended ∧ death ≠ none) ∧
      (outcome = .failed .illFormed ↔
        fate .out = some .failed ∨ fate .out = some .ended ∧ fate .err = some .failed) ∧
      (outcome = .failed .timedOut ↔
        fate .out = none ∨ fate .out = some .ended ∧
          (fate .err = none ∨ fate .err = some .ended ∧ death = none)) ∧
      outcome ≠ .panicked ∧
      (∀ o, outcome = .output o →
        death = some o.death ∧ o.elapsed ≤ millis timeout ∧ (∀ c, [] ∈ p.reads c) ∧
        o.stdout.encode = ((p.reads .out).takeWhile (· ≠ [])).flatten ∧
        o.stderr.encode = ((p.reads .err).takeWhile (· ≠ [])).flatten) := by
  intro outcome
  refine ⟨fun f hf => ?_, fun log p hp => ?_⟩
  · rcases hf with hf | ⟨log, hf⟩ <;> simp only [outcome, runTest, hf, Launch.trial]
  intro fate death
  have hwatches := Trial.watches_start p
  have hdeadline : (Trial.start p).now + millis timeout = millis timeout := Nat.zero_add _
  have hout : byDeadline (millis timeout) (Trial.start p).final.out = fate .out :=
    Trial.byDeadline_final_start p _ .out
  have herr : byDeadline (millis timeout) (Trial.start p).final.err = fate .err :=
    Trial.byDeadline_final_start p _ .err
  have hexit : byDeadline (millis timeout) (Trial.start p).final.exit = death := by
    rw [hwatches.exit]
  have houtcome : outcome = (Trial.start p).collect timeout := by
    simp only [outcome, runTest, hp, Launch.trial]
  rw [hwatches.collect, hdeadline, Endings.collect, hout, herr, hexit] at houtcome
  have hfates (c : Channel) : fate c = none ∨ fate c = some .failed ∨ fate c = some .ended := by
    rcases Reader.feedAll_start_cases (p.readsBy (millis timeout) c) with hc | hc | ⟨hc, _⟩
    · exact .inl hc
    · exact .inr (.inl hc)
    · exact .inr (.inr hc)
  rcases hfates .out with ho | ho | ho
  · rw [ho] at houtcome
    simp [houtcome, ho]
  · rw [ho] at houtcome
    simp [houtcome, ho]
  rcases hfates .err with he | he | he
  · rw [ho, he] at houtcome
    simp [houtcome, ho, he]
  · rw [ho, he] at houtcome
    simp [houtcome, ho, he]
  cases hd : death with
  | none =>
      rw [ho, he, hd] at houtcome
      simp [houtcome, ho, he]
  | some d =>
      rw [ho, he, hd] at houtcome
      obtain ⟨outTime, hout, houtTime⟩ := byDeadline_eq_some_iff.mp (hout.trans ho)
      obtain ⟨errTime, herr, herrTime⟩ := byDeadline_eq_some_iff.mp (herr.trans he)
      obtain ⟨exitTime, hexit, hexitTime⟩ := byDeadline_eq_some_iff.mp (hexit.trans hd)
      obtain ⟨hdeath, helapsed, hended, hcontents⟩ := hwatches.output rfl hout houtTime herr
        herrTime hexit hexitTime (Nat.zero_le _)
      let o := { (Trial.start p).runTo (millis timeout) with now := (Trial.start p).now }.output d
      replace houtcome : outcome = .output o := houtcome
      have hintime : o.elapsed ≤ millis timeout := by
        rw [helapsed]
        exact Nat.max_le.mpr ⟨Nat.zero_le _, by omega⟩
      refine ⟨by simp [houtcome, ho, he], by simp [houtcome, ho, he], by simp [houtcome, ho, he],
        by simp [houtcome], fun o' ho' => ?_⟩
      obtain rfl := Outcome.output.inj (houtcome.symm.trans ho')
      exact ⟨congrArg some hdeath.symm, hintime, hended, hcontents⟩

end Offspring
