import Mathlib.Data.List.TakeWhile
import Offspring.Process.Wait
import Offspring.Proofs.System.WaitStatus
/-!
# Repeated waits

A reply is idle when it is an interruption, when it reports on no process, or when it
reports that a process was stopped or resumed.  A wait takes one call for every idle
reply and one for the first that is not, and that one alone settles how it ends
(`waitOn_cases`).  What it settles is told by the error number or by the fields of the
status (`System.waitPid_law`).
-/

namespace Offspring

namespace WaitReply

/-- Whether a reply decides nothing, for whatever process one waits. -/
def isIdle : WaitReply → Bool
  | .failed errno => errno = Errno.interrupted
  | .returned pid raw =>
    pid = 0 ||
      match Report.decode raw with
      | .ok (.stopped _) => true
      | .ok .traced => true
      | .ok .continued => true
      | _ => false

/-- An idle reply, and no other, makes a process wait again. -/
theorem judge_eq_again_iff (target : Pid) (r : WaitReply) :
    r.judge target = .again ↔ r.isIdle = true := by
  unfold judge isIdle
  cases r with
  | failed errno =>
      by_cases he : errno = Errno.interrupted <;> simp [he]
  | returned pid raw =>
      by_cases hp : pid = 0
      · simp [hp]
      · simp only [hp, decide_false, Bool.false_or, if_false]
        cases Report.decode raw with
        | ok report => cases report <;> simp [Verdict.ended]
        | error refusal => cases refusal <;> simp

end WaitReply

/-- **The first reply that is not idle ends a wait.**  If there is none, the wait ends for
want of children. -/
theorem waitOn_cases (target : Pid) (rs : List WaitReply) :
    ∃ idle e, (∀ r ∈ idle, r.isIdle = true) ∧
      waitOn target rs = (e, idle.length + 1, rs.drop (idle.length + 1)) ∧
      ((rs = idle ∧ e = .error .noChildProcess) ∨
        ∃ r rest, rs = idle ++ r :: rest ∧ r.judge target = .ends e) := by
  induction rs with
  | nil => exact ⟨[], .error .noChildProcess, nofun, rfl, .inl ⟨rfl, rfl⟩⟩
  | cons r rs ih =>
      cases hr : r.judge target with
      | ends e => exact ⟨[], e, nofun, by simp [waitOn, hr], .inr ⟨r, rs, rfl, hr⟩⟩
      | again =>
          obtain ⟨idle, e, hidle, hwait, hend⟩ := ih
          have hall : ∀ r' ∈ r :: idle, r'.isIdle = true := by
            intro r' hr'
            rcases List.mem_cons.mp hr' with rfl | hr'
            · exact (r'.judge_eq_again_iff target).mp hr
            · exact hidle r' hr'
          refine ⟨r :: idle, e, hall, by simp [waitOn, hr, hwait], ?_⟩
          rcases hend with ⟨rfl, he⟩ | ⟨r', rest, rfl, hjudge⟩
          · exact .inl ⟨rfl, he⟩
          · exact .inr ⟨r', rest, rfl, hjudge⟩

/-- However many idle replies come first, a wait goes on to the one that ends it. -/
theorem waitOn_append_idle {target : Pid} {idle : List WaitReply} {r : WaitReply} {e : WaitEnd}
    (hidle : ∀ i ∈ idle, i.isIdle = true) (hr : r.judge target = .ends e)
    (later : List WaitReply) :
    waitOn target (idle ++ r :: later) = (e, idle.length + 1, later) := by
  induction idle with
  | nil => simp only [List.nil_append, waitOn, hr, List.length_nil, Nat.zero_add]
  | cons i idle ih =>
      have hi : i.judge target = .again :=
        (i.judge_eq_again_iff target).mpr (hidle i List.mem_cons_self)
      have hrest := ih fun j hj => hidle j (List.mem_cons_of_mem i hj)
      simp only [List.cons_append, waitOn, hi, hrest, List.length_cons]

namespace WaitReply

/-- The first reply that is not idle; after all others a wait fails for want of children. -/
def decider (rs : List WaitReply) : WaitReply :=
  (rs.dropWhile isIdle).headD (.failed Errno.noChild)

variable {target pid : Pid} {f : StatusFields}

theorem isIdle_failed (errno : Int) :
    (WaitReply.failed errno).isIdle = true ↔ errno = Errno.interrupted :=
  decide_eq_true_iff

/-- A status is idle when all its low bits are set and the rest is as in a stop by a known
signal, at a traced call, or in a resumption. -/
theorem isIdle_returned (pid : Pid) (f : StatusFields) :
    (WaitReply.returned pid f.raw).isIdle = true ↔
      pid = 0 ∨ f.low.val = 127 ∧
        if f.core then f.second.val = 255 ∧ f.above = 0
        else f.second.val = 0x85 ∨ 1 ≤ f.second.val ∧ f.second.val ≤ 31 := by
  have hlow := f.low.isLt
  simp only [isIdle, f.decode_raw, Bool.or_eq_true, decide_eq_true_iff]
  refine or_congr_right ?_
  by_cases hzero : f.low.val = 0
  · simp [hzero]
  by_cases hkill : f.low.val < 127
  · have hne : f.low.val ≠ 127 := by omega
    by_cases hknown : f.low.val ≤ 31 <;> simp [hzero, hkill, hknown, hne]
  · have hall : f.low.val = 127 := by omega
    cases hcore : f.core
    · by_cases htraced : f.second.val = 0x85
      · simp [hall, htraced]
      · by_cases hstop : 1 ≤ f.second.val ∧ f.second.val ≤ 31 <;> simp [hall, htraced, hstop]
    · by_cases hresumed : f.second.val = 255 ∧ f.above = 0 <;> simp [hall, hresumed]

/-- How a status that is not idle ends a wait for `target`. -/
def ending (target pid : Pid) (f : StatusFields) : WaitEnd :=
  if f.low.val ≤ 31 then
    if pid = target then .status ⟨if f.low.val = 0 then f.second.val else 128 + f.low.val⟩
    else .otherProcess
  else if f.low.val = 127 ∧ f.core = true then .noStatus
  else .error .invalidInput

theorem judge_returned (hidle : ¬ (WaitReply.returned pid f.raw).isIdle = true) :
    (WaitReply.returned pid f.raw).judge target = .ends (ending target pid f) := by
  have hlow := f.low.isLt
  rw [isIdle_returned, not_or] at hidle
  obtain ⟨hpid, hidle⟩ := hidle
  simp only [judge, if_neg hpid, f.decode_raw, ending]
  by_cases hzero : f.low.val = 0
  · simp [hzero, Verdict.ended]
  by_cases hkill : f.low.val < 127
  · have hne : f.low.val ≠ 127 := by omega
    by_cases hknown : f.low.val ≤ 31
    · simp [hzero, hkill, hknown, Verdict.ended, ExitStatus.ofSignal]
    · simp [hzero, hkill, hknown, hne]
  · have hall : f.low.val = 127 := by omega
    cases hcore : f.core
    · simp only [hall, hcore, true_and, Bool.false_eq_true, if_false, not_or] at hidle
      simp [hall, hidle]
    · simp only [hall, hcore, true_and, if_true] at hidle
      simp [hall, hidle]

/-- A report that a signal has killed the process waited for ends the wait, with or without a
core dump: with the status of the signal if that is known, and with an error if it is not. -/
theorem judge_killed (htarget : target ≠ 0) {signal : Nat} (hpos : 1 ≤ signal)
    (hlow : signal < 127) (core : Bool) :
    (WaitReply.returned target (signal + if core then 128 else 0)).judge target =
      .ends (if signal ≤ 31 then .status ⟨128 + signal⟩ else .error .invalidInput) := by
  let f : StatusFields := ⟨⟨signal, by omega⟩, core, 0, 0⟩
  have hraw : f.raw = signal + if core then 128 else 0 := by
    have hfields : f.raw = 0 * 65536 + 0 * 256 + (if core then 128 else 0) + (signal : Int) := rfl
    omega
  have hne : signal ≠ 0 := by omega
  have hall : signal ≠ 127 := by omega
  have hidle : ¬ (WaitReply.returned target f.raw).isIdle = true := by
    rw [isIdle_returned]
    simp [f, htarget, hall]
  rw [← hraw, judge_returned hidle]
  simp [ending, f, hne, hall]

end WaitReply

/-- **One reply decides a wait.** -/
theorem waitOn_decider (target : Pid) (rs : List WaitReply) :
    ∃ e, (WaitReply.decider rs).judge target = .ends e ∧
      waitOn target rs = (e, (rs.takeWhile WaitReply.isIdle).length + 1,
        (rs.dropWhile WaitReply.isIdle).tail) := by
  obtain ⟨idle, e, hidle, hwait, hend⟩ := waitOn_cases target rs
  refine ⟨e, ?_⟩
  rcases hend with ⟨rfl, rfl⟩ | ⟨r, rest, rfl, hjudge⟩
  · have htake := List.takeWhile_eq_self_iff.mpr hidle
    have hdrop := List.dropWhile_eq_nil_iff.mpr hidle
    rw [hwait, WaitReply.decider, htake, hdrop]
    exact ⟨rfl, by simp⟩
  · have hr : ¬ r.isIdle = true := by
      rw [← r.judge_eq_again_iff target, hjudge]
      exact nofun
    have htake : (idle ++ r :: rest).takeWhile WaitReply.isIdle = idle := by
      rw [List.takeWhile_append_of_pos hidle, List.takeWhile_cons_of_neg hr, List.append_nil]
    have hdrop : (idle ++ r :: rest).dropWhile WaitReply.isIdle = r :: rest := by
      rw [List.dropWhile_append_of_pos hidle, List.dropWhile_cons_of_neg hr]
    rw [hwait, WaitReply.decider, htake, hdrop]
    exact ⟨hjudge, by simp⟩

/-- **The law of a wait.**  Idle replies are an interruption, one on no process, and one on
a process that was stopped, traced or resumed, whatever process it is.  A wait makes one
call for each idle reply that comes first and one for the reply that decides, all for the
same process, and leaves the later replies.  A failure then ends it with that error, and so
does the end of the replies, as one for want of children.  A signal that is not known is an
invalid input for any process, and a status of no known form is a panic.  The exit code of
the process waited for is the second byte of the status, a death by a signal counts 128 more
than the signal, with or without a core dump, and the end of another process is a panic. -/
theorem System.waitPid_law (s : System) (target : Pid) :
    let idle := s.script.waits.takeWhile WaitReply.isIdle
    let rest := s.script.waits.dropWhile WaitReply.isIdle
    let decider := rest.headD (.failed Errno.noChild)
    let did := s.waitPid target
    (∀ errno, (WaitReply.failed errno).isIdle = true ↔ errno = Errno.interrupted) ∧
    (∀ pid f, (WaitReply.returned pid (StatusFields.raw f)).isIdle = true ↔
      pid = 0 ∨ f.low.val = 127 ∧
        if f.core then f.second.val = 255 ∧ f.above = 0
        else f.second.val = 0x85 ∨ 1 ≤ f.second.val ∧ f.second.val ≤ 31) ∧
    (∀ raw, ∃ f : StatusFields, f.raw = raw) ∧
    did.calls = List.replicate (idle.length + 1) ⟨.waitpid target, s.out.bytesWritten⟩ ∧
    did.after = { s with script := { s.script with waits := rest.tail } } ∧
    (∀ errno, decider = .failed errno → did.result = .error (.ofErrno errno)) ∧
    ∀ pid f, decider = .returned pid (StatusFields.raw f) →
      let ended status := if pid = target then .status ⟨status⟩ else .otherProcess
      (f.low.val = 0 → did.result = ended f.second.val) ∧
      (1 ≤ f.low.val → f.low.val ≤ 31 → did.result = ended (128 + f.low.val)) ∧
      (32 ≤ f.low.val → f.low.val ≤ 126 → did.result = .error .invalidInput) ∧
      (f.low.val = 127 → f.core = false → did.result = .error .invalidInput) ∧
      (f.low.val = 127 → f.core = true → did.result = .noStatus) ∧
      (did.result.panics = true ↔
        f.low.val ≤ 31 ∧ pid ≠ target ∨ f.low.val = 127 ∧ f.core = true) ∧
      (did.result.panicMessage? =
          some "The waited process ID does not match the target process ID".toList ↔
        f.low.val ≤ 31 ∧ pid ≠ target) := by
  intro idle rest decider did
  obtain ⟨e, hjudge, hwait⟩ := waitOn_decider target s.script.waits
  have hresult : did.result = e := by
    simp only [did, System.waitPid, hwait]
  have hidle : ¬ decider.isIdle = true := by
    rw [← decider.judge_eq_again_iff target, show decider.judge target = _ from hjudge]
    exact nofun
  refine ⟨WaitReply.isIdle_failed, WaitReply.isIdle_returned, StatusFields.exists_fields, ?_, ?_,
    fun errno hfailed => ?_, fun pid f hreturned => ?_⟩
  · simp only [did, System.waitPid, hwait]
    rfl
  · simp only [did, System.waitPid, hwait]
    rfl
  · have herrno : errno ≠ Errno.interrupted := by
      rwa [hfailed, WaitReply.isIdle_failed] at hidle
    have hends : decider.judge target = .ends (.error (.ofErrno errno)) := by
      rw [hfailed, WaitReply.judge, if_neg herrno]
    rw [hresult]
    exact Verdict.ends.inj (hjudge.symm.trans hends)
  rw [hreturned] at hidle
  have hends : decider.judge target = .ends (WaitReply.ending target pid f) := by
    rw [hreturned, WaitReply.judge_returned hidle]
  have hend : e = WaitReply.ending target pid f := Verdict.ends.inj (hjudge.symm.trans hends)
  rw [hresult, hend]
  unfold WaitReply.ending
  intro ended
  refine ⟨fun hzero => ?_, fun hpos hknown => ?_, fun hpos hlow => ?_, fun hall hcore => ?_,
    fun hall hcore => ?_, ?_⟩
  · simp [hzero, ended]
  · have hne : f.low.val ≠ 0 := by omega
    simp [hne, hknown, ended]
  · have hgt : ¬ f.low.val ≤ 31 := by omega
    have hne : f.low.val ≠ 127 := by omega
    simp [hgt, hne]
  · simp [hall, hcore]
  · simp [hall, hcore]
  · by_cases hknown : f.low.val ≤ 31
    · have hne : f.low.val ≠ 127 := by omega
      by_cases hpid : pid = target <;>
        simp [hknown, hne, hpid, WaitEnd.panics, WaitEnd.panicMessage?]
    · by_cases hpanic : f.low.val = 127 ∧ f.core = true <;>
        simp [hknown, hpanic, WaitEnd.panics, WaitEnd.panicMessage?]

end Offspring
