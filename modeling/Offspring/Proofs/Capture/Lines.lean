import Offspring.Proofs.Capture.Watch
import Offspring.Proofs.Text.Lines
/-!
# Lines that a waiter has seen

A waiter for lines looks at what has been kept so far, and that is only the front of what
the program writes (`Reader.content_prefix_of_readBytes`).  The last of the lines it sees
may still be open: it counts as a line of the content, and the program may go on with it.
So a wait for lines can succeed on a line that the program never writes
(`met_on_open_line`), and it does so in exactly one case: the rest after the last newline
of what the waiter saw is expected, and is no line of the whole output (`lines_of_met`).
-/

namespace Offspring

/-- The bytes that an event brings to a reader. -/
def broughtBytes (r : Reader) : WatchEvent → Bytes
  | .read bytes => if r.stage = .reading then bytes else []
  | _ => []

/-- The bytes that the reader takes in a schedule. -/
def readBytes (s : Waiter × Reader) : List WatchEvent → Bytes
  | [] => []
  | e :: events => broughtBytes s.2 e ++ readBytes (watchStep s e) events

/-- A reader whose end is settled reads no more. -/
theorem Stage.not_reading_of_fate {stage : Stage} {f : Fate} (h : stage.fate? = some f) :
    stage ≠ .reading := by
  rintro rfl
  cases h

/-- And it stays settled. -/
theorem fate_watchStep {s : Waiter × Reader} {f : Fate} (h : s.2.stage.fate? = some f)
    (e : WatchEvent) : (watchStep s e).2.stage.fate? = some f := by
  cases e with
  | read bytes => rwa [watchStep, Reader.take_of_not_reading (Stage.not_reading_of_fate h)]
  | move =>
      unfold Stage.fate? at h
      split at h
      · next hs => simpa [watchStep, Reader.move, hs, Stage.fate?] using h
      · next hs => simpa [watchStep, Reader.move, hs, Stage.fate?] using h
      · cases h
  | wait => rcases s.1.step_reader s.2 with hs | hs <;> simpa [watchStep, hs] using h

/-- So nothing more is taken. -/
theorem readBytes_of_fate {s : Waiter × Reader} {f : Fate} (h : s.2.stage.fate? = some f)
    (events : List WatchEvent) : readBytes s events = [] := by
  induction events generalizing s with
  | nil => rfl
  | cons e events ih =>
      have hr := Stage.not_reading_of_fate h
      rw [readBytes, ih (fate_watchStep h e), List.append_nil]
      cases e <;> simp [broughtBytes, hr]

namespace Reader

variable {r : Reader} {taken : Bytes}

/-- Spoiling the content leaves what the reader has done. -/
theorem Sound.spoil (h : r.Sound taken) : ({ r with spoilt := true } : Reader).Sound taken :=
  { h with panicked := fun _ => rfl }

/-- Whoever waits, a reader holds what the bytes it has taken tell. -/
theorem Sound.watchRun {s : Waiter × Reader} (h : s.2.Sound taken) (events : List WatchEvent) :
    ∃ front, (watchRun s events).2.Sound front ∧ front <+: taken ++ readBytes s events := by
  induction events generalizing s taken with
  | nil => exact ⟨taken, h, by simp [readBytes]⟩
  | cons e events ih =>
      rw [watchRun_cons, readBytes]
      cases e with
      | read bytes =>
          by_cases hr : s.2.stage = .reading
          · rcases h.take hr bytes with ⟨hsound, _⟩ | ⟨hsound, hstage, _⟩
            · obtain ⟨front, hfront, hbegins⟩ := ih (s := watchStep s (.read bytes)) hsound
              exact ⟨front, hfront, by simpa [broughtBytes, hr] using hbegins⟩
            · -- the read that fails is the last one, and nothing of it is kept
              obtain ⟨front, hfront, hbegins⟩ := ih (s := watchStep s (.read bytes)) hsound
              have hfate : (watchStep s (.read bytes)).2.stage.fate? = some .failed := by
                simp [watchStep, hstage, Stage.fate?]
              rw [readBytes_of_fate hfate, List.append_nil] at hbegins ⊢
              exact ⟨front, hfront, hbegins.trans (List.prefix_append _ _)⟩
          · have hsame : (watchStep s (.read bytes)).2 = s.2 := take_of_not_reading hr bytes
            obtain ⟨front, hfront, hbegins⟩ :=
              ih (s := watchStep s (.read bytes)) (by rw [hsame]; exact h)
            exact ⟨front, hfront, by simpa [broughtBytes, hr] using hbegins⟩
      | move => exact ih (s := watchStep s .move) h.move
      | wait =>
          refine ih (s := watchStep s .wait) ?_
          rcases s.1.step_reader s.2 with hs | hs
          · rw [watchStep, hs]
            exact h
          · rw [watchStep, hs]
            exact h.spoil

/-- What is kept begins every text whose bytes begin with the bytes taken. -/
theorem Sound.content_prefix (h : r.Sound taken) {out : Text} (hout : taken <+: out.encode) :
    r.content <+: out := by
  obtain ⟨more, hmore⟩ := h.content
  apply Utf8.prefix_of_encode_prefix
  refine List.IsPrefix.trans ⟨Text.encode more ++ (Utf8.scan .start taken).2.held, ?_⟩ hout
  rw [← List.append_assoc, ← Text.encode_append, hmore]
  exact Utf8.encode_of_scan h.decodes

end Reader

/-- What is kept at the end of a schedule begins the text that is being read. -/
theorem content_prefix_of_readBytes {w : Waiter} {events : List WatchEvent} {out : Text}
    {unread : Bytes} (hout : readBytes (w, Reader.start) events ++ unread = out.encode) :
    (watchRun (w, Reader.start) events).2.content <+: out := by
  obtain ⟨front, hsound, hbegins⟩ :=
    Reader.Sound.watchRun (s := (w, Reader.start)) Reader.sound_start events
  rw [List.nil_append] at hbegins
  exact hsound.content_prefix (hbegins.trans ⟨unread, hout⟩)

/-- **When a wait for lines may be believed.**  A waiter for lines that succeeds saw some
front of the output.  Every line that it expects is a line of the whole output, but for
one that may not be: the rest of what it saw after the last newline, when that is
expected and turns out to be no line. -/
theorem lines_of_met (expected : List Text) (events : List WatchEvent) (out : Text)
    (unread : Bytes)
    (hout : readBytes (.forLines expected, .start) events ++ unread = out.encode)
    (hmet : (watchRun (.forLines expected, .start) events).1.stage = .met) :
    ∃ seen, (looks (.forLines expected, .start) events).getLast? = some seen ∧ seen <+: out ∧
      (∀ l ∈ expected, l ∈ out.lines ∨ l = seen.cutAfterNewline.2) ∧
      ((∀ l ∈ expected, l ∈ out.lines) ↔
        (seen.cutAfterNewline.2 ≠ [] → seen.cutAfterNewline.2 ∈ expected →
          seen.cutAfterNewline.2 ∈ out.lines)) := by
  obtain ⟨seen, t, hlast, hcut, hexp⟩ := Waiter.look_of_met (r := Reader.start) rfl hmet
  rw [Text.fromByte?_zero] at hcut
  obtain rfl := Option.some.inj hcut
  have hbegins : seen <+: out :=
    (content_prefix_of_mem_looks (List.mem_of_getLast? hlast)).2.trans
      (content_prefix_of_readBytes hout)
  have hlines : ∀ l ∈ expected, l ∈ out.lines ∨
      (l = seen.cutAfterNewline.2 ∧ seen.cutAfterNewline.2 ≠ []) := by
    obtain ⟨more, rfl⟩ := hbegins
    intro l hl
    exact Text.mem_lines_append ((Text.hasLines_iff expected seen).mp hexp l hl) more
  refine ⟨seen, hlast, hbegins, fun l hl => (hlines l hl).imp_right And.left, ?_⟩
  constructor
  · intro hall _ hrest
    exact hall _ hrest
  · intro hrest l hl
    rcases hlines l hl with hline | ⟨rfl, hne⟩
    · exact hline
    · exact hrest hne hl

/-- A wait that may be believed: the line has ended when it is seen. -/
theorem lines_of_met_ended_line :
    let events := [.read [0x61, 0x0A, 0x62], .move, .move, .move, .wait, .wait]
    readBytes (.forLines [['a']], .start) events ++ [0x0A] = Text.encode ['a', '\n', 'b', '\n'] ∧
    (watchRun (.forLines [['a']], .start) events).1.stage = .met ∧
    (looks (.forLines [['a']], .start) events).getLast? = some ['a', '\n', 'b'] ∧
    ∀ l ∈ [['a']], l ∈ Text.lines ['a', '\n', 'b', '\n'] := by
  intro events
  have hout : readBytes (.forLines [['a']], .start) events ++ [0x0A] =
      Text.encode ['a', '\n', 'b', '\n'] := by decide
  have hmet : (watchRun (.forLines [['a']], .start) events).1.stage = .met := by decide
  obtain ⟨seen, hlast, _, _, hiff⟩ := lines_of_met [['a']] events _ [0x0A] hout hmet
  have hseen : (looks (.forLines [['a']], .start) events).getLast? = some ['a', '\n', 'b'] := by
    decide
  obtain rfl := Option.some.inj (hseen.symm.trans hlast)
  exact ⟨hout, hmet, hseen, hiff.mpr (by decide)⟩

/-- A wait that may not: the line is seen before it has ended, and goes on. -/
theorem met_on_open_line :
    let events := [.read [0x61], .move, .move, .move, .wait, .wait]
    let rest := [.read [0x62, 0x0A], .move, .move, .move, .read [], .move, .move, .move, .move]
    let s := watchRun (.forLines [['a']], .start) events
    s.1.stage = .met ∧
    readBytes (.forLines [['a']], .start) (events ++ rest) = Text.encode ['a', 'b', '\n'] ∧
    (watchRun s rest).2.fate? = some .ended ∧
    (watchRun s rest).2.content = ['a', 'b', '\n'] ∧
    ['a'] ∉ Text.lines ['a', 'b', '\n'] := by
  decide

end Offspring
