import Offspring.Proofs.Capture.Vigil
import Offspring.Proofs.Runner.Wait
/-!
# What waiting does to what is collected

A wait of a trial panics just when its first look at the content cannot be made
(`Trial.waitFor_panicked_iff`).  A wait that does not panic lets things come and takes
time, and that is all (`Trial.Lapses`), so what is collected afterwards is what it would
have been.  A wait that panics spoils the content, every later wait panics, and the program
is never collected (`Trial.waits_cases`).  `waiting_law` has this together with what holds of
any number of waiters that move in any order (`Vigil`).
-/

namespace Offspring

namespace Trial

variable {t t' : Trial}

/-- A wait for some content from a byte on, with a timeout or without. -/
def waitFor (t : Trial) (timeout : Option Nat) (start : Nat) (expects : Text → Bool) :
    Waited × Trial :=
  await (timeout.map fun n => t.now + millis n) t.coming (.new start expects) t

/-- What a wait wants. -/
structure Wish where
  timeout : Option Nat
  start : Nat
  expects : Text → Bool

/-- One wait after the other. -/
def waits (t : Trial) : List Wish → List Waited × Trial
  | [] => ([], t)
  | c :: wishes =>
    let (result, t) := t.waitFor c.timeout c.start c.expects
    let (results, t) := t.waits wishes
    (result :: results, t)

theorem settle_of_blind {start : Nat} {expects : Text → Bool} {r : Reader}
    (h : r.spoilt = true ∨ r.content.fromByte? start = none) :
    (Waiter.new start expects).settle r =
      (⟨start, expects, .panicked⟩, { r with spoilt := true }) := by
  obtain ⟨stage, tail, shown, logged, content, published, spoilt⟩ := r
  cases spoilt with
  | true => rfl
  | false =>
      have hnone : content.fromByte? start = none := by simpa using h
      simp [Waiter.settle, Waiter.steps, Waiter.step, Waiter.new, Waiter.check, hnone]

/-- A wait whose first look cannot be made panics and spoils the content, and nothing
comes. -/
theorem waitFor_of_blind (timeout : Option Nat) {start : Nat} (expects : Text → Bool)
    (h : t.capture.out.spoilt = true ∨ t.capture.out.content.fromByte? start = none) :
    t.waitFor timeout start expects =
      (.panicked, { t with capture := { t.capture with
        out := { t.capture.out with spoilt := true } } }) := by
  unfold waitFor
  rw [await, settle, settle_of_blind h]

/-- **A wait panics at its first look or not at all.** -/
theorem waitFor_panicked_iff (t : Trial) (timeout : Option Nat) (start : Nat)
    (expects : Text → Bool) :
    (t.waitFor timeout start expects).1 = .panicked ↔
      t.capture.out.spoilt = true ∨ t.capture.out.content.fromByte? start = none := by
  constructor
  · intro hpanicked
    cases hr : t.capture.out.spoilt with
    | true => exact .inl rfl
    | false =>
        refine .inr (Option.eq_none_iff_forall_not_mem.mpr fun text htext => ?_)
        obtain ⟨events, w', hmoves, htells⟩ :=
          (awaits_await _ t.coming (.new start expects) t).schedule
        change (t.waitFor timeout start expects).1.Tells _ _ _ at htells
        rw [hpanicked] at htells
        have hgood : (watchRun (.new start expects, t.capture.out) events).1.stage ≠ .panicked :=
          Waiter.not_panicked hr htext events
        rw [hmoves] at hgood
        exact hgood htells
  · intro h
    rw [waitFor_of_blind timeout expects h]

/-- What comes does not depend on the time, nor on what is to come later. -/
theorem foldl_advance_with (come : List Arrival) (t : Trial) {now : Nat} (h : t.now ≤ now)
    (coming : List Arrival) :
    let s := come.foldl advance { t with now := now, coming := coming }
    (come.foldl advance t).now ≤ s.now ∧ now ≤ s.now ∧
      s = { come.foldl advance t with now := s.now, coming := coming } := by
  induction come generalizing t now with
  | nil => exact ⟨h, Nat.le_refl now, rfl⟩
  | cons a come ih =>
      have hlater : (t.advance a).now ≤ max now a.time := by
        simp only [advance]
        omega
      obtain ⟨hle, hnow, heq⟩ := ih (t.advance a) hlater
      exact ⟨hle, Nat.le_trans (Nat.le_max_left _ _) hnow, heq⟩

/-- One trial has become another with nothing done to it: some of what was to come has come,
and time has gone by. -/
def Lapses (t t' : Trial) : Prop :=
  ∃ come, t.coming = come ++ t'.coming ∧ (come.foldl advance t).now ≤ t'.now ∧
    t' = { come.foldl advance t with now := t'.now, coming := t'.coming }

theorem Lapses.refl (t : Trial) : t.Lapses t :=
  ⟨[], rfl, Nat.le_refl _, rfl⟩

theorem Lapses.trans {t'' : Trial} (h : t.Lapses t') (h' : t'.Lapses t'') : t.Lapses t'' := by
  obtain ⟨come, hcoming, hle, heq⟩ := h
  obtain ⟨come', hcoming', hle', heq'⟩ := h'
  obtain ⟨hfold, _, hsame⟩ := foldl_advance_with come' (come.foldl advance t) hle t'.coming
  rw [← heq] at hfold hsame
  refine ⟨come ++ come', ?_, ?_, ?_⟩
  · rw [hcoming, hcoming', List.append_assoc]
  · rw [List.foldl_append]
    exact Nat.le_trans hfold hle'
  · rw [List.foldl_append]
    rw [hsame] at heq'
    exact heq'

theorem waitFor_lapses (t : Trial) (timeout : Option Nat) (start : Nat) (expects : Text → Bool)
    (h : (t.waitFor timeout start expects).1 ≠ .panicked) :
    t.capture.out.spoilt = false ∧ t.Lapses (t.waitFor timeout start expects).2 := by
  rw [Ne, waitFor_panicked_iff, not_or, Bool.not_eq_true] at h
  obtain ⟨hclean, hcut⟩ := h
  obtain ⟨text, htext⟩ := Option.ne_none_iff_exists'.mp hcut
  obtain ⟨come, hcoming, heq, hlater⟩ :=
    (awaits_await (timeout.map fun n => t.now + millis n) t.coming (.new start expects) t).come
      hclean htext
  refine ⟨hclean, come, hcoming, hlater ?_, heq⟩
  intro d hd
  obtain ⟨n, _, rfl⟩ := Option.map_eq_some_iff.mp hd
  exact Nat.le_add_right _ _

theorem spoilt_foldl_advance (come : List Arrival) (t : Trial) :
    (come.foldl advance t).capture.out.spoilt = t.capture.out.spoilt := by
  induction come generalizing t with
  | nil => rfl
  | cons a come ih => rw [List.foldl_cons, ih, spoilt_advance]

theorem now_le_foldl_advance (come : List Arrival) (t : Trial) :
    t.now ≤ (come.foldl advance t).now :=
  (foldl_advance_with come t (Nat.le_refl t.now) t.coming).2.1

theorem time_le_foldl_advance (come : List Arrival) (t : Trial) :
    ∀ a ∈ come, a.time ≤ (come.foldl advance t).now := by
  induction come generalizing t with
  | nil => exact nofun
  | cons b come ih =>
      intro a ha
      rw [List.foldl_cons]
      rcases List.mem_cons.mp ha with rfl | ha
      · have hnow : a.time ≤ (t.advance a).now := Nat.le_max_right _ _
        exact Nat.le_trans hnow (now_le_foldl_advance come _)
      · exact ih (t.advance b) a ha

/-- What the readers and the endings come to depends on what they were and on what comes. -/
theorem foldl_advance_congr (come : List Arrival) (hcapture : t.capture = t'.capture)
    (hendings : t.endings = t'.endings) :
    (come.foldl advance t).capture = (come.foldl advance t').capture ∧
      (come.foldl advance t).endings = (come.foldl advance t').endings := by
  induction come generalizing t t' with
  | nil => exact ⟨hcapture, hendings⟩
  | cons a come ih => exact ih (by simp only [advance, hcapture]) (by simp only [advance, *])

theorem collect_congr {timeout : Nat} (hnow : t.now = t'.now)
    (hcapture : (t.runTo (t.now + millis timeout)).capture =
      (t'.runTo (t'.now + millis timeout)).capture)
    (hendings : (t.runTo (t.now + millis timeout)).endings =
      (t'.runTo (t'.now + millis timeout)).endings) :
    t.collect timeout = t'.collect timeout := by
  rw [hnow] at hcapture hendings
  simp only [collect, output, hnow, hcapture, hendings]

/-- **Watching does not show.**  Collecting a program after a lapse gives what it would have
given at that time without one. -/
theorem Lapses.collect (h : t.Lapses t') (timeout : Nat) :
    t'.collect timeout = ({ t with now := t'.now } : Trial).collect timeout := by
  obtain ⟨come, hcoming, hle, heq⟩ := h
  let deadline := t'.now + millis timeout
  have hcome : ∀ a ∈ come, decide (a.time ≤ deadline) = true := by
    intro a ha
    have htime := time_le_foldl_advance come t a ha
    simp only [decide_eq_true_eq, deadline]
    omega
  -- both go on from what has come by now, with what comes by the deadline
  have hrun : ({ t with now := t'.now } : Trial).runTo deadline =
      (t'.coming.takeWhile fun a => decide (a.time ≤ deadline)).foldl advance
        (come.foldl advance { t with now := t'.now }) := by
    rw [runTo, ← List.foldl_append, hcoming, List.takeWhile_append_of_pos hcome]
  have hsame : (come.foldl advance t).capture =
        (come.foldl advance { t with now := t'.now }).capture ∧
      (come.foldl advance t).endings = (come.foldl advance { t with now := t'.now }).endings :=
    foldl_advance_congr come rfl rfl
  have hcapture' := (congrArg Trial.capture heq).trans hsame.1
  have hendings' := (congrArg Trial.endings heq).trans hsame.2
  obtain ⟨hlastCapture, hlastEndings⟩ := foldl_advance_congr
    (t'.coming.takeWhile fun a => decide (a.time ≤ deadline)) hcapture' hendings'
  rw [← hrun] at hlastCapture hlastEndings
  exact collect_congr rfl hlastCapture hlastEndings

theorem collect_of_spoilt (h : t.capture.out.spoilt = true) (timeout : Nat) (o : Output) :
    t.collect timeout ≠ .output o := by
  have hspoilt : (t.runTo (t.now + millis timeout)).capture.out.spoilt = true := by
    rw [runTo, spoilt_foldl_advance, h]
  simp only [Trial.collect, hspoilt]
  split
  · next d hd => exact absurd hd (Endings.collect_of_spoilt _ _ d)
  · exact nofun
  · exact nofun

theorem waits_cons (t : Trial) (c : Wish) (wishes : List Wish) :
    t.waits (c :: wishes) =
      let wait := t.waitFor c.timeout c.start c.expects
      (wait.1 :: (wait.2.waits wishes).1, (wait.2.waits wishes).2) := rfl

/-- After a panic every wait panics, and none of them does anything more. -/
theorem waits_of_spoilt (h : t.capture.out.spoilt = true) (wishes : List Wish) :
    t.waits wishes = (List.replicate wishes.length .panicked, t) := by
  have hsame : ({ t with capture := { t.capture with
      out := { t.capture.out with spoilt := true } } } : Trial) = t := by
    rw [← h]
  induction wishes with
  | nil => rfl
  | cons c wishes ih =>
      rw [waits_cons, waitFor_of_blind c.timeout c.expects (.inl h), hsame]
      simp only [ih, List.length_cons, List.replicate_succ]

/-- **Waits in a row.**  Until one panics they only let time go by, and from then on all
panic. -/
theorem waits_cases (t : Trial) (wishes : List Wish) :
    (.panicked ∉ (t.waits wishes).1 ∧ t.Lapses (t.waits wishes).2) ∨
      ((t.waits wishes).2.capture.out.spoilt = true ∧ ∃ good n,
        .panicked ∉ good ∧ (t.waits wishes).1 = good ++ List.replicate (n + 1) .panicked) := by
  induction wishes generalizing t with
  | nil => exact .inl ⟨List.not_mem_nil, .refl t⟩
  | cons c wishes ih =>
      by_cases hresult : (t.waitFor c.timeout c.start c.expects).1 = .panicked
      · right
        have hblind := (waitFor_panicked_iff t c.timeout c.start c.expects).mp hresult
        have hwait := waitFor_of_blind c.timeout c.expects hblind
        rw [waits_cons, hwait]
        simp only [waits_of_spoilt]
        exact ⟨trivial, [], wishes.length, List.not_mem_nil, rfl⟩
      · obtain ⟨_, hlapse⟩ := waitFor_lapses t c.timeout c.start c.expects hresult
        rcases ih (t.waitFor c.timeout c.start c.expects).2 with ⟨hgood, hlater⟩ |
          ⟨hspoilt, good, n, hgood, hresults⟩
        · refine .inl ⟨?_, hlapse.trans hlater⟩
          rw [waits_cons, List.mem_cons, not_or]
          exact ⟨fun he => hresult he.symm, hgood⟩
        · refine .inr ⟨hspoilt, _ :: good, n, ?_, congrArg (_ :: ·) hresults⟩
          rw [List.mem_cons, not_or]
          exact ⟨fun he => hresult he.symm, hgood⟩

end Trial

/-- **The law of waiting.**  Let any number of waiters watch standard output, each from a byte
of its own, while both readers work, and let all of them move in any order.

A waiter panics at a check of content that is not spoilt just when its byte is beyond the
content or inside a character, and never once such a check has gone through.  If none has
panicked, the capture is the one that the moves of the readers alone give.

Once one has panicked, the waiters change nothing more, every check panics, and so does a
waiter that is called later, at its second move.  If the reader of standard output was still
at work, it keeps nothing more; it ends with a failure and nothing else shown or logged, or it
shows and logs the one piece that it had or that comes next and then panics.  If it was
not, it stays as it was.  Collecting the program fails as the reader did, or panics when the
reader had ended; in no case is the program collected.

In a trial, where waits come one after the other, a wait panics at its first look or not at
all.  As long as none does, the program is collected as if nobody had waited; as soon as one
does, all later ones do and the program is never collected. -/
theorem waiting_law :
    (∀ before i w seen,
      let v := Vigil.start.run before
      v.waiters[i]? = some w → w.stage = .checking seen → v.capture.out.spoilt = false →
      ((w.step v.capture.out).1.stage = .panicked ↔
        ∀ front back, v.capture.out.content = front ++ back → front.size ≠ w.start) ∧
      ((w.step v.capture.out).1.stage ≠ .panicked → ∀ more w' seen',
        let z := v.run (.wait i :: more)
        z.waiters[i]? = some w' → w'.stage = .checking seen' → z.capture.out.spoilt = false →
        (w'.step z.capture.out).1.stage ≠ .panicked)) ∧
    (∀ events, (∀ w ∈ (Vigil.start.run events).waiters, w.stage ≠ .panicked) →
      (Vigil.start.run events).capture = Capture.start.run (Vigil.readerEvents events)) ∧
    (∀ before i after,
      let u := Vigil.start.run before
      let v := u.step (.wait i)
      let z := v.run after
      let r := v.capture.out
      let r' := z.capture.out
      (∀ w ∈ u.waiters, w.stage ≠ .panicked) → (∃ w ∈ v.waiters, w.stage = .panicked) →
      z.capture = v.capture.run (Vigil.readerEvents after) ∧ r'.spoilt = true ∧
      (∀ (j : Nat) w seen, z.waiters[j]? = some w → w.stage = .checking seen →
        (w.step r').1.stage = .panicked) ∧
      (∀ mid start expects rest, after = mid ++ .call start expects :: rest →
        let j := (v.run mid).waiters.length
        ∃ w, z.waiters[j]? = some w ∧ Vigil.Late w (rest.countP (Vigil.moves j))) ∧
      ((∀ f, r.stage ≠ .leaving f ∧ r.stage ≠ .stopped f) →
        let pieces := r.stage.piece?.toList ++
          r.pieces (Capture.eventsOf .out (Vigil.readerEvents after))
        r'.content = r.content ∧ ∀ f, r'.fate? = some f →
          (f = .failed ∧ pieces = [] ∧ r'.shown = r.content ∧ r'.logged = r.content) ∨
            (f = .panicked ∧ ∃ t, pieces = [t] ∧ r'.shown = r.content ++ t ∧
              r'.logged = r.content ++ t)) ∧
      (∀ f, r.stage = .leaving f ∨ r.stage = .stopped f →
        r'.content = r.content ∧ r'.shown = r.shown ∧ r'.logged = r.logged ∧
          ∀ g, r'.fate? = some g → g = f) ∧
      (∀ f, r'.fate? = some f → f ≠ .ended → ∀ exit, z.capture.collect exit =
        .failed (if f = .failed then .illFormed else .readerPanicked)) ∧
      (r'.fate? = some .ended → z.capture.err.fate? = some .ended →
        ∀ d, z.capture.collect (some d) = .panicked) ∧
      ∀ exit d, z.capture.collect exit ≠ .finished d) ∧
    ∀ t : Trial,
      (∀ expected timeout,
        t.waitLines expected timeout = t.waitFor (some timeout) 0 (Text.hasLines expected)) ∧
      (∀ start part, t.waitText start part = t.waitFor none start (Text.holds part)) ∧
      (∀ timeout start expects, (t.waitFor timeout start expects).1 = .panicked ↔
        t.capture.out.spoilt = true ∨
          ∀ front back, t.capture.out.content = front ++ back → front.size ≠ start) ∧
      ∀ wishes,
        let results := (t.waits wishes).1
        let t' := (t.waits wishes).2
        (.panicked ∉ results → ∀ timeout,
          t'.collect timeout = ({ t with now := t'.now } : Trial).collect timeout) ∧
        (.panicked ∈ results →
          (∃ good n, .panicked ∉ good ∧ results = good ++ List.replicate (n + 1) .panicked) ∧
          ∀ timeout o, t'.collect timeout ≠ .output o) := by
  refine ⟨?_, ?_, ?_, fun t => ⟨fun _ _ => rfl, fun _ _ => rfl, ?_, ?_⟩⟩
  · intro before i w seen v hw hs hclean
    refine ⟨?_, fun hgood => ?_⟩
    · rw [Waiter.check_panics_iff hs hclean, Text.fromByte?_eq_none_iff]
    · intro more w' seen' z hw' hs' hclean'
      exact Vigil.check_again hw hs hgood hclean hw' hs' hclean'
  · intro events hgood
    exact (Vigil.capture_run_of_clean (Vigil.clean_of_calm hgood)).2
  · intro before i after u v z r r' hgood hbad
    have hclean : u.capture.out.spoilt = false := Vigil.clean_of_calm hgood
    have hspoilt : v.capture.out.spoilt = true :=
      ((Vigil.blamed_run before).step (.wait i)).mpr hbad
    have hcapture : z.capture = v.capture.run (Vigil.readerEvents after) :=
      Vigil.capture_run_of_spoilt hspoilt after
    have hspoilt' : r'.spoilt = true := Vigil.spoilt_run_of_spoilt hspoilt after
    refine ⟨hcapture, hspoilt', ?_, ?_, ?_, fun f hf => Vigil.stays_done hspoilt hf after,
      fun f hf hne => Capture.collect_of_gave_up hf hne,
      fun hout herr d => Capture.collect_of_ended hspoilt' hout herr d,
      Capture.collect_of_spoilt hspoilt'⟩
    · intro j w seen _ hs
      simp [Waiter.step, Waiter.check, hs, hspoilt']
    · intro mid start expects rest hafter j
      have hrun : z = ((v.run mid).step (.call start expects)).run rest := by
        rw [← Vigil.run_cons, ← Vigil.run_append, ← hafter]
      rw [hrun]
      exact Vigil.late_call (Vigil.spoilt_run_of_spoilt hspoilt mid) start expects rest
    · exact fun hwork => Vigil.gave_up after hclean hspoilt hwork
  · intro timeout start expects
    rw [Trial.waitFor_panicked_iff, Text.fromByte?_eq_none_iff]
  · intro wishes results t'
    rcases t.waits_cases wishes with ⟨hgood, hlapse⟩ | ⟨hspoilt, good, n, hgood, hresults⟩
    · exact ⟨fun _ => hlapse.collect, fun hbad => absurd hbad hgood⟩
    · have hbad : .panicked ∈ results := by
        rw [show results = _ from hresults]
        exact List.mem_append_right _ (List.mem_replicate.mpr ⟨n.succ_ne_zero, rfl⟩)
      exact ⟨fun hnone => absurd hbad hnone,
        fun _ => ⟨⟨good, n, hgood, hresults⟩, Trial.collect_of_spoilt hspoilt⟩⟩

/-- A look beyond the end of the content, before the reader takes its first read. -/
theorem waiting_law_beyond_the_end :
    let v := Vigil.start.run [.call 1 (Text.holds ['b']), .wait 0, .wait 0]
    let z := v.run ((.call 0 (Text.holds []) :: .wait 1 :: .wait 1 ::
      (Capture.wholeRead .out [0x61]).map .reader))
    (∃ w ∈ v.waiters, w.stage = .panicked) ∧ z.capture.out.fate? = some .panicked ∧
      z.capture.out.content = [] ∧ z.capture.out.shown = ['a'] ∧ z.capture.out.logged = ['a'] ∧
      (∃ w, z.waiters[1]? = some w ∧ w.stage = .panicked) ∧
      z.capture.collect none = .failed .readerPanicked := by
  intro v z
  have hgood : ∀ w ∈ (Vigil.start.run [.call 1 (Text.holds ['b']), .wait 0]).waiters,
      w.stage ≠ .panicked := by
    intro w hw
    rw [List.mem_singleton.mp hw]
    exact nofun
  have hbad : ∃ w ∈ v.waiters, w.stage = .panicked := ⟨_, List.mem_singleton_self _, rfl⟩
  obtain ⟨_, _, _, hlate, hwork, _, hfails, _⟩ := waiting_law.2.2.1
    [.call 1 (Text.holds ['b']), .wait 0] 0
    (.call 0 (Text.holds []) :: .wait 1 :: .wait 1 ::
      (Capture.wholeRead .out [0x61]).map .reader) hgood hbad
  obtain ⟨hcontent, hend⟩ := hwork fun f => ⟨nofun, nofun⟩
  have hfate : z.capture.out.fate? = some .panicked := by decide
  obtain ⟨w, hw, hpanicked⟩ := hlate [] 0 (Text.holds []) _ rfl
  have hcollect := hfails _ hfate nofun none
  rcases hend _ hfate with ⟨hfailed, _⟩ | ⟨_, t, hpieces, hshown, hlogged⟩
  · cases hfailed
  · obtain rfl : ['a'] = t := (List.cons.inj hpieces).1
    exact ⟨hbad, hfate, hcontent, hshown, hlogged, ⟨w, hw, hpanicked⟩, hcollect⟩

end Offspring
