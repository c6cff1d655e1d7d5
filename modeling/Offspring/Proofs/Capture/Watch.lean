import Offspring.Capture.Watch
import Offspring.Proofs.Capture.Reader
/-!
# No change is missed

A waiter and a reader run side by side in any order.  `looks` lists what the waiter saw
of the content, check by check, and `Waiter.Sound` is the invariant that ties what the
waiter concludes to what it saw: while it awaits a change, either the content is still
the one of its last check, or a length has been published since its mark and it will
look again.

Two things follow.  A waiter ends with success only on content that was as expected
when it last looked, and with closure only when the final content is not as expected
(`sound_watchRun`).  And once the reader is over, five moves of the waiter end the wait
(`rank_watchRun`).  The last part draws the conclusions for a waiter before its first
mark: `Waiter.look_of_met`, `Waiter.content_of_closed`, `Waiter.not_panicked` and
`Waiter.met_of_isOver`.
-/

namespace Offspring

namespace Reader

variable {r : Reader}

theorem content_take (r : Reader) (read : Bytes) : (r.take read).content = r.content := by
  unfold take
  repeat' split
  all_goals rfl

theorem version_take (r : Reader) (read : Bytes) : (r.take read).version = r.version := by
  unfold take
  repeat' split
  all_goals rfl

/-- A move either leaves the content and the lengths published alone, or adds a piece
and publishes a length. -/
theorem move_publishes (r : Reader) :
    (r.move.content = r.content ∧ r.move.version = r.version) ∨
    (∃ t, r.move.content = r.content ++ t ∧ r.move.version = r.version + 1) := by
  unfold move
  split
  · exact .inl ⟨rfl, rfl⟩
  · exact .inl ⟨rfl, rfl⟩
  · split
    · exact .inl ⟨rfl, rfl⟩
    · exact .inr ⟨_, rfl, rfl⟩
  · exact .inl ⟨rfl, rfl⟩
  · exact .inl ⟨rfl, rfl⟩

/-- A reader that is over is at rest. -/
theorem take_of_isOver (h : r.isOver = true) (read : Bytes) : r.take read = r := by
  apply take_of_not_reading
  intro hr
  simp [isOver, fate?, hr] at h

theorem move_of_isOver (h : r.isOver = true) : r.move = r := by
  unfold isOver fate? at h
  split at h
  · next hr => simp [move, hr]
  · simp at h

theorem feedAll_of_isOver (h : r.isOver = true) (reads : List Bytes) : r.feedAll reads = r := by
  unfold isOver fate? at h
  split at h
  · next hr => exact feedAll_of_stopped hr reads
  · simp at h

/-- Content only ever grows. -/
theorem content_prefix_move (r : Reader) : r.content <+: r.move.content := by
  rcases r.move_publishes with ⟨hcontent, _⟩ | ⟨t, hcontent, _⟩
  · simp [hcontent]
  · simp [hcontent]

end Reader

/-- A byte where a text can be cut stays one when the text grows. -/
theorem Text.fromByte?_append {n : Nat} {s t : Text} (h : s.fromByte? n = some t) (more : Text) :
    (s ++ more).fromByte? n = some (t ++ more) := by
  induction s generalizing n with
  | nil =>
      cases n with
      | zero => simpa [fromByte?] using h
      | succ n => simp [fromByte?] at h
  | cons c s ih =>
      cases n with
      | zero =>
          obtain rfl : c :: s = t := by simpa [fromByte?] using h
          rfl
      | succ n =>
          simp only [fromByte?, List.cons_append] at h ⊢
          split at h
          · next hc => simpa [hc] using ih h
          · cases h

/-- The content that a waiter looks at in one event, if it looks. -/
def look? (s : Waiter × Reader) : WatchEvent → Option Text
  | .wait =>
    match s.1.stage with
    | .checking _ => some s.2.content
    | _ => none
  | _ => none

/-- What a waiter looks at in a schedule, in order. -/
def looks (s : Waiter × Reader) : List WatchEvent → List Text
  | [] => []
  | e :: events => (look? s e).toList ++ looks (watchStep s e) events

theorem watchRun_cons (s : Waiter × Reader) (e : WatchEvent) (events : List WatchEvent) :
    watchRun s (e :: events) = watchRun (watchStep s e) events := rfl

theorem watchRun_append (s : Waiter × Reader) (events more : List WatchEvent) :
    watchRun s (events ++ more) = watchRun (watchRun s events) more :=
  List.foldl_append

/-- A waiter only ever looks at the content as it is. -/
theorem content_of_look? {s : Waiter × Reader} {e : WatchEvent} {c : Text}
    (h : look? s e = some c) : s.2.content = c := by
  unfold look? at h
  split at h
  · split at h
    · exact Option.some.inj h
    · cases h
  · cases h

namespace Waiter

/-- What a waiter may conclude, told from the content that it last looked at. -/
def Sound (w : Waiter) (r : Reader) (last : Option Text) : Prop :=
  match w.stage with
  | .marking => True
  | .checking seen => seen ≤ r.version
  | .awaiting seen =>
    seen ≤ r.version ∧ ∃ c t, last = some c ∧ c.fromByte? w.start = some t ∧
      w.expects t = false ∧ (seen = r.version → c = r.content)
  | .met => ∃ c t, last = some c ∧ c.fromByte? w.start = some t ∧ w.expects t = true
  | .closed =>
    r.isOver = true ∧ ∃ t, r.content.fromByte? w.start = some t ∧ w.expects t = false
  | .panicked => ∃ c, last = some c ∧ c.fromByte? w.start = none

variable {w : Waiter} {r : Reader} {last : Option Text}

/-- Reading more makes no conclusion wrong. -/
theorem Sound.take (h : w.Sound r last) (read : Bytes) : w.Sound (r.take read) last := by
  unfold Sound at h ⊢
  split
  · trivial
  · next hs => simpa [hs, Reader.version_take] using h
  · next hs => simpa [hs, Reader.version_take, Reader.content_take] using h
  · next hs => simpa [hs] using h
  · next hs =>
    simp only [hs] at h
    rw [Reader.take_of_isOver h.1]
    exact h
  · next hs => simpa [hs] using h

/-- Nor does a move of the reader: if it adds to the content, it also publishes. -/
theorem Sound.move (h : w.Sound r last) : w.Sound r.move last := by
  unfold Sound at h ⊢
  split
  · trivial
  · next seen hs =>
    simp only [hs] at h
    rcases r.move_publishes with ⟨_, hv⟩ | ⟨_, _, hv⟩ <;> omega
  · next seen hs =>
    simp only [hs] at h
    obtain ⟨hle, c, t, hlast, hc, ht, hsame⟩ := h
    rcases r.move_publishes with ⟨hcontent, hv⟩ | ⟨_, _, hv⟩
    · exact ⟨by omega, c, t, hlast, hc, ht, by rw [hcontent, hv]; exact hsame⟩
    · exact ⟨by omega, c, t, hlast, hc, ht, fun hseen => by omega⟩
  · next hs => simpa [hs] using h
  · next hs =>
    simp only [hs] at h
    rw [Reader.move_of_isOver h.1]
    exact h
  · next hs => simpa [hs] using h

/-- The waiter alone never changes what it wants. -/
theorem start_step (w : Waiter) (r : Reader) :
    (w.step r).1.start = w.start ∧ (w.step r).1.expects = w.expects := by
  unfold step check
  repeat' split
  all_goals exact ⟨rfl, rfl⟩

/-- A move of the waiter can do one thing to the reader: spoil its content. -/
theorem step_reader (w : Waiter) (r : Reader) :
    (w.step r).2 = r ∨ (w.step r).2 = { r with spoilt := true } := by
  unfold step check
  repeat' split
  all_goals first | exact .inl rfl | exact .inr rfl

/-- Content is spoilt by a check that could not be made. -/
theorem spoilt_step (h : r.spoilt = true → w.stage = .panicked)
    (hs : (w.step r).2.spoilt = true) : (w.step r).1.stage = .panicked := by
  unfold step check at hs ⊢
  repeat' split at hs
  all_goals simp_all

/-- A check that goes through finds the content as expected, or awaits a change. -/
theorem check_of_fromByte {seen : Nat} {t : Text} (hs : r.spoilt = false)
    (ht : r.content.fromByte? w.start = some t) :
    w.check seen r = ({ w with stage := if w.expects t then .met else .awaiting seen }, r) := by
  simp [check, hs, ht]

/-- A move of the waiter, on content that is not spoilt, concludes only what it sees. -/
theorem Sound.step (h : w.Sound r last) (hspoilt : r.spoilt = true → w.stage = .panicked) :
    (w.step r).1.Sound (w.step r).2 ((look? (w, r) .wait).or last) := by
  unfold Sound at h
  cases hs : w.stage with
  | marking =>
      simp [Waiter.step, hs, Sound]
  | checking seen =>
      simp only [hs] at h
      have hclean : r.spoilt = false := by simpa [hs] using hspoilt
      simp only [Waiter.step, hs, look?, Option.some_or]
      cases ht : r.content.fromByte? w.start with
      | none => simp [check, hclean, ht, Sound]
      | some t =>
          rw [check_of_fromByte hclean ht]
          cases hexp : w.expects t with
          | true => simp [Sound, ht, hexp]
          | false => simp [Sound, ht, hexp, h]
  | awaiting seen =>
      simp only [hs] at h
      obtain ⟨hle, c, t, hlast, hc, ht, hsame⟩ := h
      simp only [Waiter.step, hs, look?, Option.none_or]
      by_cases hv : r.version = seen
      · -- nothing was published since the mark, so the check saw this very content
        obtain rfl := hsame hv.symm
        cases hover : r.isOver with
        | true => simp [hv, Sound, hover, hc, ht]
        | false => simp [hv, Sound, hs, hlast, hc, ht]
      · simp [hv, Sound]
  | met => simpa [Waiter.step, hs, look?, Sound] using h
  | closed => simpa [Waiter.step, hs, look?, Sound] using h
  | panicked => simpa [Waiter.step, hs, look?, Sound] using h

/-- How many moves a waiter needs at most once the reader is over. -/
def rank (w : Waiter) (r : Reader) : Nat :=
  match w.stage with
  | .marking => 3
  | .checking seen => if seen = r.version then 2 else 5
  | .awaiting seen => if seen = r.version then 1 else 4
  | _ => 0

theorem rank_le_five (w : Waiter) (r : Reader) : w.rank r ≤ 5 := by
  unfold rank
  repeat' split
  all_goals omega

/-- A waiter that needs no more moves is done. -/
theorem done_of_rank_eq_zero (h : w.rank r = 0) :
    w.stage = .met ∨ w.stage = .closed ∨ w.stage = .panicked := by
  unfold rank at h
  split at h
  · omega
  · split at h <;> omega
  · split at h <;> omega
  · next hm hc ha =>
    cases hs : w.stage with
    | marking => exact absurd hs hm
    | checking seen => exact absurd hs (hc seen)
    | awaiting seen => exact absurd hs (ha seen)
    | met => exact .inl rfl
    | closed => exact .inr (.inl rfl)
    | panicked => exact .inr (.inr rfl)

/-- A move of the waiter brings it nearer to its end, unless it awaits a change that may
still come. -/
theorem rank_step (w : Waiter) (r : Reader) :
    (w.step r).1.rank (w.step r).2 ≤ w.rank r - 1 ∨
    (w.step r = (w, r) ∧ w.rank r = 1 ∧ r.isOver = false) := by
  cases hs : w.stage with
  | marking => exact .inl (by simp [step, hs, rank])
  | checking seen =>
      refine .inl ?_
      simp only [step, hs, check]
      by_cases hr : r.spoilt = true
      · simp [hr, rank]
      · cases ht : r.content.fromByte? w.start with
        | none => simp [hr, rank]
        | some t =>
            cases hexp : w.expects t with
            | true => simp [hr, hexp, rank]
            | false =>
                simp only [hr, hexp, rank, hs]
                by_cases hv : seen = r.version <;> simp [hv]
  | awaiting seen =>
      simp only [step, hs]
      by_cases hv : r.version = seen
      · cases hover : r.isOver with
        | true => simp [hv, rank]
        | false => simp [hv, rank, hs]
      · simp [hv, rank, hs, Ne.symm hv]
  | met => simp [step, hs, rank]
  | closed => simp [step, hs, rank]
  | panicked => simp [step, hs, rank]

end Waiter

/-- **The invariant of a schedule.**  Whatever the order of the moves, a waiter ends up
with what the content it last looked at tells it, and spoils that content only by a
check that could not be made. -/
theorem sound_watchRun {s : Waiter × Reader} {last : Option Text}
    (h : s.1.Sound s.2 last) (hspoilt : s.2.spoilt = true → s.1.stage = .panicked)
    (events : List WatchEvent) :
    (watchRun s events).1.Sound (watchRun s events).2
      ((looks s events).getLast?.or last) := by
  induction events generalizing s last with
  | nil => simpa [looks, watchRun] using h
  | cons e events ih =>
      have hlook : (looks s (e :: events)).getLast?.or last =
          (looks (watchStep s e) events).getLast?.or ((look? s e).or last) := by
        simp only [looks, List.getLast?_append]
        cases look? s e <;> simp
      rw [watchRun_cons, hlook]
      cases e with
      | read bytes =>
          exact ih (h.take bytes) (fun hs => hspoilt (by rwa [← s.2.spoilt_take bytes]))
      | move => exact ih h.move (fun hs => hspoilt (by rwa [← s.2.spoilt_move]))
      | wait => exact ih (h.step hspoilt) (fun hs => Waiter.spoilt_step hspoilt hs)

/-- A schedule does not change what the waiter wants. -/
theorem start_watchRun (s : Waiter × Reader) (events : List WatchEvent) :
    (watchRun s events).1.start = s.1.start ∧ (watchRun s events).1.expects = s.1.expects := by
  induction events generalizing s with
  | nil => exact ⟨rfl, rfl⟩
  | cons e events ih =>
      rw [watchRun_cons, (ih (watchStep s e)).1, (ih (watchStep s e)).2]
      cases e with
      | read bytes => exact ⟨rfl, rfl⟩
      | move => exact ⟨rfl, rfl⟩
      | wait => exact s.1.start_step s.2

/-- The content only grows in a schedule. -/
theorem content_prefix_watchStep (s : Waiter × Reader) (e : WatchEvent) :
    s.2.content <+: (watchStep s e).2.content := by
  cases e with
  | read bytes => simp [watchStep, Reader.content_take]
  | move => exact s.2.content_prefix_move
  | wait => rcases s.1.step_reader s.2 with hr | hr <;> simp [watchStep, hr]

theorem content_prefix_watchRun (s : Waiter × Reader) (events : List WatchEvent) :
    s.2.content <+: (watchRun s events).2.content := by
  induction events generalizing s with
  | nil => exact List.prefix_rfl
  | cons e events ih => exact (content_prefix_watchStep s e).trans (ih (watchStep s e))

/-- All that a waiter looks at lies between the content at first and the content at last. -/
theorem content_prefix_of_mem_looks {s : Waiter × Reader} {events : List WatchEvent} {c : Text}
    (h : c ∈ looks s events) :
    s.2.content <+: c ∧ c <+: (watchRun s events).2.content := by
  induction events generalizing s with
  | nil => cases h
  | cons e events ih =>
      rw [looks, List.mem_append, Option.mem_toList] at h
      rcases h with h | h
      · obtain rfl := content_of_look? h
        exact ⟨List.prefix_rfl, content_prefix_watchRun s (e :: events)⟩
      · obtain ⟨hfirst, hlast⟩ := ih h
        exact ⟨(content_prefix_watchStep s e).trans hfirst, hlast⟩

/-- Nothing but a spoilt content happens to a reader that is over. -/
theorem watchStep_of_isOver {s : Waiter × Reader} (h : s.2.isOver = true) (e : WatchEvent) :
    (watchStep s e).2.isOver = true ∧ (watchStep s e).2.content = s.2.content := by
  cases e with
  | read bytes => simpa [watchStep, Reader.take_of_isOver h] using h
  | move => simpa [watchStep, Reader.move_of_isOver h] using h
  | wait =>
      rcases s.1.step_reader s.2 with hr | hr
      · simpa [watchStep, hr] using h
      · simpa [watchStep, hr, Reader.isOver, Reader.fate?] using h

/-- The content is final once the reader is over. -/
theorem watchRun_of_isOver {s : Waiter × Reader} (h : s.2.isOver = true)
    (events : List WatchEvent) :
    (watchRun s events).2.isOver = true ∧ (watchRun s events).2.content = s.2.content := by
  induction events generalizing s with
  | nil => exact ⟨h, rfl⟩
  | cons e events ih =>
      obtain ⟨hover, hcontent⟩ := watchStep_of_isOver h e
      obtain ⟨hover', hcontent'⟩ := ih hover
      exact ⟨hover', hcontent'.trans hcontent⟩

/-- **A wait ends once the reader is over.**  Every move of the waiter counts. -/
theorem rank_watchRun {s : Waiter × Reader} (h : s.2.isOver = true)
    (events : List WatchEvent) :
    (watchRun s events).1.rank (watchRun s events).2 ≤
      s.1.rank s.2 - events.count .wait := by
  induction events generalizing s with
  | nil => simp [watchRun]
  | cons e events ih =>
      have hrest := ih (watchStep_of_isOver h e).1
      rw [watchRun_cons]
      cases e with
      | read bytes =>
          simp only [watchStep, Reader.take_of_isOver h] at hrest ⊢
          simpa using hrest
      | move =>
          simp only [watchStep, Reader.move_of_isOver h] at hrest ⊢
          simpa using hrest
      | wait =>
          simp only [watchStep, List.count_cons_self] at hrest ⊢
          rcases s.1.rank_step s.2 with hstep | ⟨_, _, hnot⟩
          · omega
          · simp [h] at hnot

namespace Waiter

variable {start : Nat} {expects : Text → Bool} {r : Reader}

/-- What a whole wait concludes is told from what it last looked at. -/
theorem sound_new (start : Nat) (expects : Text → Bool) (hr : r.spoilt = false)
    (events : List WatchEvent) :
    (watchRun (new start expects, r) events).1.Sound
      (watchRun (new start expects, r) events).2
      (looks (new start expects, r) events).getLast? := by
  have hspoilt : r.spoilt = true → (new start expects).stage = .panicked := by simp [hr]
  have hnew : (new start expects).Sound r none := trivial
  have h := sound_watchRun (s := (new start expects, r)) hnew hspoilt events
  simpa using h

/-- A wait that succeeds found the content as expected when it last looked. -/
theorem look_of_met (hr : r.spoilt = false) {events : List WatchEvent}
    (h : (watchRun (new start expects, r) events).1.stage = .met) :
    ∃ c t, (looks (new start expects, r) events).getLast? = some c ∧
      c.fromByte? start = some t ∧ expects t = true := by
  have hsound := sound_new start expects hr events
  simp only [Sound, h] at hsound
  rwa [(start_watchRun _ events).1, (start_watchRun _ events).2] at hsound

/-- A wait that ends with closure leaves a final content that is not as expected. -/
theorem content_of_closed (hr : r.spoilt = false) {events : List WatchEvent}
    (h : (watchRun (new start expects, r) events).1.stage = .closed) :
    (watchRun (new start expects, r) events).2.isOver = true ∧
      ∃ t, (watchRun (new start expects, r) events).2.content.fromByte? start = some t ∧
        expects t = false := by
  have hsound := sound_new start expects hr events
  simp only [Sound, h] at hsound
  rwa [(start_watchRun _ events).1, (start_watchRun _ events).2] at hsound

/-- A wait that panics looked at a content that cannot be cut at its byte. -/
theorem look_of_panicked (hr : r.spoilt = false) {events : List WatchEvent}
    (h : (watchRun (new start expects, r) events).1.stage = .panicked) :
    ∃ c, (looks (new start expects, r) events).getLast? = some c ∧
      c.fromByte? start = none := by
  have hsound := sound_new start expects hr events
  simp only [Sound, h] at hsound
  rwa [(start_watchRun _ events).1] at hsound

/-- A wait whose byte is a place to cut the content at from the first cannot panic. -/
theorem not_panicked (hr : r.spoilt = false) {t : Text} (ht : r.content.fromByte? start = some t)
    (events : List WatchEvent) :
    (watchRun (new start expects, r) events).1.stage ≠ .panicked := by
  intro h
  obtain ⟨c, hlast, hnone⟩ := look_of_panicked hr h
  obtain ⟨⟨more, rfl⟩, _⟩ := content_prefix_of_mem_looks (List.mem_of_getLast? hlast)
  rw [Text.fromByte?_append ht more] at hnone
  cases hnone

/-- Five moves of the waiter after the reader is over end any wait. -/
theorem done_of_isOver {s : Waiter × Reader} (h : s.2.isOver = true) {events : List WatchEvent}
    (hcount : 5 ≤ events.count .wait) :
    (watchRun s events).1.stage = .met ∨ (watchRun s events).1.stage = .closed ∨
      (watchRun s events).1.stage = .panicked := by
  have hrank := rank_watchRun h events
  have hfive := s.1.rank_le_five s.2
  exact done_of_rank_eq_zero (r := (watchRun s events).2) (by omega)

/-- A waiter whose final content is as expected succeeds once the reader is over. -/
theorem met_of_isOver (hr : r.spoilt = false) {t₀ t : Text} {events more : List WatchEvent}
    (ht₀ : r.content.fromByte? start = some t₀)
    (hover : (watchRun (new start expects, r) events).2.isOver = true)
    (ht : (watchRun (new start expects, r) events).2.content.fromByte? start = some t)
    (hexp : expects t = true) (hcount : 5 ≤ more.count .wait) :
    (watchRun (watchRun (new start expects, r) events) more).1.stage = .met := by
  rcases done_of_isOver hover hcount with hs | hs | hs
  · exact hs
  · have hfinal := (watchRun_of_isOver hover more).2
    rw [← watchRun_append] at hs hfinal
    obtain ⟨_, t', ht', hfalse⟩ := content_of_closed hr hs
    rw [hfinal, ht] at ht'
    rw [← Option.some.inj ht', hexp] at hfalse
    cases hfalse
  · rw [← watchRun_append] at hs
    exact absurd hs (not_panicked hr ht₀ (events ++ more))

end Waiter

end Offspring
