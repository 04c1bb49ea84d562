import Muster.Log.RotatingLog

/-!
# Generations — the shape of a log's two files

The writer rotates only where a line ends, and ends a line itself that has run too far past the cap.
So every rotated file ends in a line feed, every live file begins on a line, and neither grows past
the cap by more than an open line's overrun, one chunk and the line end.

The frames of a call change the writer's memory one after the other.  `Orderly` says of a memory and
the frames still to do that every write keeps within the bound, that a rotation finds the file ending
a line, and what the memory is like when the call is done; one frame is one step of it.
-/

namespace Muster.Log

def EndsLine (bytes : Bytes) : Prop := bytes = [] ∨ bytes.getLast? = some lineFeed

theorem endsLine_iff (bytes : Bytes) : endsLine bytes bytes.length = true ↔ EndsLine bytes := by
  unfold EndsLine
  cases hlen : bytes.length with
  | zero => simp [endsLine, List.eq_nil_of_length_eq_zero hlen]
  | succ last =>
    have hne : bytes ≠ [] := List.ne_nil_of_length_eq_add_one hlen
    simp [endsLine, hne, List.getLast?_eq_getElem?, hlen]

namespace RotatingLog

variable {log : RotatingLog} {bytes : Bytes}

theorem wrote_endsLine {content : Bytes} (h : log.endsLine = true ↔ EndsLine content)
    (bytes : Bytes) : (log.wrote bytes).endsLine = true ↔ EndsLine (content ++ bytes) := by
  cases hlast : bytes.getLast? with
  | none =>
    obtain rfl := List.getLast?_eq_none_iff.1 hlast
    simpa [wrote] using h
  | some byte =>
    have hne : content ++ bytes ≠ [] := by
      rintro hnil
      simp [(List.append_eq_nil_iff.1 hnil).2] at hlast
    simp [wrote, EndsLine, hlast, hne, List.getLast?_append]

theorem wrote_head {feed : ℕ} (hfeed : bytes.findIdx? (· == lineFeed) = some feed) :
    (log.wrote (bytes.take (feed + 1))).endsLine = true := by
  obtain ⟨hlt, hbyte, -⟩ := List.findIdx?_eq_some_iff_getElem.1 hfeed
  have hlast : (bytes.take (feed + 1)).getLast? = some bytes[feed] := by
    rw [List.getLast?_take]
    simp [hlt]
  simpa [wrote, hlast] using hbyte

theorem wrote_tail {feed : ℕ} (hfeed : bytes.findIdx? (· == lineFeed) = some feed)
    (log' : RotatingLog) (fresh : Inode) :
    ((log'.reopened fresh).wrote (bytes.drop (feed + 1))).endsLine =
      (log.wrote bytes).endsLine := by
  obtain ⟨hlt, hbyte, -⟩ := List.findIdx?_eq_some_iff_getElem.1 hfeed
  by_cases hend : bytes.length ≤ feed + 1
  · have hlast : bytes.getLast? = some bytes[feed] := by
      rw [List.getLast?_eq_getElem?, show bytes.length - 1 = feed by omega, List.getElem?_eq_getElem]
    simpa [wrote, reopened, hlast, List.drop_eq_nil_of_le hend] using hbyte.symm
  · have hsome : bytes.getLast? ≠ none := by
      intro hnone
      simp [List.getLast?_eq_none_iff.1 hnone] at hlt
    obtain ⟨byte, hlast⟩ := Option.ne_none_iff_exists'.1 hsome
    simp [wrote, List.getLast?_drop, hend, hlast]

end RotatingLog

namespace Writer

/-- The bound on both files: the cap, an open line's overrun, the longest chunk and the line end. -/
def mostBytes (cap longest : ℕ) : ℕ := cap + maxOpenLineOverrun + longest + endOpenLine.length

/-- The memory between two calls: a line left open has not run too far past the cap. -/
structure Rests (cap longest : ℕ) (log : RotatingLog) : Prop where
  fixed : log.cap = cap
  small : log.written ≤ mostBytes cap longest
  line : log.endsLine = false → log.written ≤ cap + maxOpenLineOverrun

/-- The frames still to do keep every write within `most`, rotate only a file that ends a line, and
leave the memory as `Q` says. -/
inductive Orderly (most : ℕ) (Q : RotatingLog → Prop) : RotatingLog → List Frame → Prop
  | done {log : RotatingLog} (h : Q log) : Orderly most Q log []
  | append {log : RotatingLog} {bytes : Bytes} {rest : List Frame}
    (h : Orderly most Q log (log.append bytes ++ rest)) : Orderly most Q log (.append bytes :: rest)
  | endOpenLine {log : RotatingLog} {rest : List Frame}
    (h : Orderly most Q log (log.endOverrun ++ rest)) : Orderly most Q log (.endOpenLine :: rest)
  | write {log : RotatingLog} {bytes : Bytes} {rest : List Frame}
    (small : log.written + bytes.length ≤ most) (h : Orderly most Q (log.wrote bytes) rest) :
    Orderly most Q log (.write bytes :: rest)
  | rotate {log : RotatingLog} {rest : List Frame} (line : log.endsLine) (filled : 0 < log.written)
    (h : Orderly most Q log (.reopen :: .recordBase :: rest)) : Orderly most Q log (.rotate :: rest)
  | reopen {log : RotatingLog} {rest : List Frame}
    (h : ∀ fresh, Orderly most Q (log.reopened fresh) rest) : Orderly most Q log (.reopen :: rest)
  | recordBase {log : RotatingLog} {rest : List Frame} (h : Orderly most Q log rest) :
    Orderly most Q log (.recordBase :: rest)
  | markRunStart {log : RotatingLog} {rest : List Frame}
    (h : Orderly most Q { log with runStart := log.stop } rest) :
    Orderly most Q log (.markRunStart :: rest)

namespace Orderly

variable {most : ℕ} {Q : RotatingLog → Prop} {log : RotatingLog} {bytes : Bytes} {rest : List Frame}

theorem rotate_to (line : log.endsLine) (filled : 0 < log.written)
    (h : ∀ fresh, Orderly most Q (log.reopened fresh) rest) : Orderly most Q log (.rotate :: rest) :=
  .rotate line filled (.reopen fun fresh => .recordBase (h fresh))

/-- What an append comes to: either the chunk is in a file that keeps to the cap or holds nothing
else, or it went on with a line that was open and still is. -/
theorem append_of (capped : log.cap ≤ most) (small : log.written ≤ most) (chunk : bytes.length ≤ most)
    (line : log.endsLine = false → log.written + bytes.length ≤ most)
    (h : ∀ log' : RotatingLog, log'.cap = log.cap → log'.endsLine = (log.wrote bytes).endsLine →
      (log'.written ≤ max log.cap bytes.length ∨
        log.endsLine = false ∧ log'.written = log.written + bytes.length) → Orderly most Q log' rest) :
    Orderly most Q log (.append bytes :: rest) := by
  refine .append ?_
  unfold RotatingLog.append
  split
  · next hfits =>
    have hwritten : log.written + bytes.length ≤ max log.cap bytes.length := by omega
    exact .write (by omega) (h _ rfl rfl (.inl hwritten))
  · next hpast =>
    have hsome : 0 < log.written := by omega
    split
    · next hends =>
      simp only [List.take_zero, List.drop_zero, List.cons_append, List.nil_append]
      refine .write (by simpa using small) (.rotate_to hends hsome fun fresh => ?_)
      refine .write (by simpa [RotatingLog.reopened] using chunk) (h _ rfl ?_ (.inl ?_))
      · simp [RotatingLog.wrote, RotatingLog.reopened, hends]
      · simp only [RotatingLog.wrote, RotatingLog.reopened]
        omega
    · next hopen =>
      have hopen : log.endsLine = false := by simpa using hopen
      have hline := line hopen
      split
      · next feed hfeed =>
        simp only [List.cons_append, List.nil_append]
        have hhead : (bytes.take (feed + 1)).length ≤ bytes.length := List.length_take_le' ..
        refine .write (by omega) (.rotate_to (RotatingLog.wrote_head hfeed) ?_ fun fresh => ?_)
        · exact Nat.lt_of_lt_of_le hsome (Nat.le_add_right _ _)
        · have htail : (bytes.drop (feed + 1)).length ≤ bytes.length := by simp
          refine .write ?_ (h _ rfl (RotatingLog.wrote_tail hfeed _ fresh) (.inl ?_))
          · simp only [RotatingLog.reopened]
            omega
          · simp only [RotatingLog.reopened, RotatingLog.wrote]
            omega
      · next hnone => exact .write hline (h _ rfl rfl (.inr ⟨hopen, rfl⟩))

theorem endOpenLine_of {cap longest : ℕ} (fixed : log.cap = cap)
    (small : log.written ≤ cap + maxOpenLineOverrun + longest) :
    Orderly (mostBytes cap longest) (Rests cap longest) log [.endOpenLine] := by
  refine .endOpenLine ?_
  unfold RotatingLog.endOverrun
  split
  · simp only [List.cons_append, List.nil_append]
    refine .write ?_ (.rotate_to rfl ?_ fun fresh => .done ⟨fixed, Nat.zero_le _, fun h => nomatch h⟩)
    · unfold mostBytes
      omega
    · exact Nat.lt_of_lt_of_le (by decide) (Nat.le_add_left _ _)
  · next hwithin =>
    refine .done ⟨fixed, ?_, fun hopen => ?_⟩
    · unfold mostBytes
      omega
    · rw [hopen, fixed] at hwithin
      simpa using hwithin

theorem of_appendHeld {cap longest : ℕ} (hrests : Rests cap longest log)
    (hchunk : bytes.length ≤ longest) :
    Orderly (mostBytes cap longest) (Rests cap longest) log (LogCall.appendHeld bytes).frames := by
  have hcap := hrests.fixed
  refine .append_of ?_ hrests.small ?_ (fun hopen => ?_) fun log' hfixed hends hwritten => ?_
  · unfold mostBytes
    omega
  · unfold mostBytes
    omega
  · have hline := hrests.line hopen
    unfold mostBytes
    omega
  · refine .endOpenLine_of (hfixed.trans hcap) ?_
    obtain hwritten | ⟨hopen, hwritten⟩ := hwritten
    · omega
    · have hline := hrests.line hopen
      omega

theorem of_startRun {cap longest : ℕ} (hrests : Rests cap longest log) :
    Orderly (mostBytes cap longest) (Rests cap longest) log LogCall.startRun.frames := by
  have hcap := hrests.fixed
  have hend : (runStartBytes.take runResetAt).length = Muster.Log.endOpenLine.length := rfl
  have hreset : (runStartBytes.drop runResetAt).length = 2 := rfl
  refine .append_of ?_ hrests.small ?_ (fun hopen => ?_) fun log' hfixed hends hwritten => ?_
  · unfold mostBytes
    omega
  · unfold mostBytes
    omega
  · have hline := hrests.line hopen
    unfold mostBytes
    omega
  · -- the line end leaves a line ended, so the reset begins one
    have hends : log'.endsLine = true := hends
    have hsmall : log'.written ≤ mostBytes cap longest := by
      unfold mostBytes
      obtain hwritten | ⟨hopen, hwritten⟩ := hwritten
      · omega
      · have hline := hrests.line hopen
        omega
    refine .markRunStart (.append_of ?_ hsmall ?_ (fun hopen => ?_)
      fun log'' hfixed' _ hwritten' => .done ?_)
    · unfold mostBytes
      simp only [hfixed]
      omega
    · have hlength : Muster.Log.endOpenLine.length = 5 := rfl
      unfold mostBytes
      omega
    · cases hends.symm.trans hopen
    · obtain hwritten' | ⟨hopen, -⟩ := hwritten'
      · have hbound : log''.written ≤ cap + maxOpenLineOverrun := by
          simp only [hfixed, hcap, hreset] at hwritten'
          have : 2 ≤ maxOpenLineOverrun := by decide
          omega
        refine ⟨(hfixed'.trans hfixed).trans hcap, ?_, fun _ => hbound⟩
        unfold mostBytes
        omega
      · cases hends.symm.trans hopen

end Orderly

/-! ### Runs -/

/-- The steps of a run with one cap, chunks of at most `longest` bytes taken by `append_held`, and
deaths only between calls. -/
def Careful (cap longest : ℕ) (w : Writer) : WriterEvent → Prop
  | .openLog c => c = cap
  | .call (.appendHeld bytes) => bytes.length ≤ longest
  | .call .startRun => True
  | .call (.append _) => False
  | .work _ => True
  | .die => w.todo = []

instance (cap longest : ℕ) (w : Writer) : ∀ e, Decidable (Careful cap longest w e)
  | .openLog _ => inferInstanceAs (Decidable (_ = _))
  | .call (.appendHeld _) => inferInstanceAs (Decidable (_ ≤ _))
  | .call .startRun => isTrue trivial
  | .call (.append _) => isFalse id
  | .work _ => isTrue trivial
  | .die => inferInstanceAs (Decidable (_ = _))

/-- What is left of an `open` with the run's cap. -/
def Opens (cap : ℕ) (todo : List Frame) : Prop :=
  todo = [] ∨ todo = [.openLive cap] ∨ ∃ file, todo = [.load file cap]

/-- The process's memory and its frames, or, where no process runs, the live file it will find. -/
def Calls (cap longest : ℕ) (w : Writer) : Prop :=
  match w.log with
  | some log => Orderly (mostBytes cap longest) (Rests cap longest) log w.todo
  | none => Opens cap w.todo ∧ ∀ file, w.disk.live = some file →
      EndsLine (w.disk.content file) ∨
        (w.disk.content file).length ≤ cap + maxOpenLineOverrun

/-- The shape of the two files. -/
structure Shaped (cap longest : ℕ) (w : Writer) : Prop where
  line : ∀ log file, w.log = some log → w.disk.live = some file →
    (log.endsLine = true ↔ EndsLine (w.disk.content file))
  rotated : ∀ file, w.disk.rotated = some file →
    (w.disk.content file).getLast? = some lineFeed
  small : ∀ file, w.disk.live = some file ∨ w.disk.rotated = some file →
    (w.disk.content file).length ≤ mostBytes cap longest
  calls : w.Calls cap longest

variable {cap longest : ℕ} {w : Writer} {log : RotatingLog} {f : Frame} {rest : List Frame}

theorem Calls.orderly {todo : List Frame} (h : w.Calls cap longest) (hlog : w.log = some log)
    (htodo : w.todo = todo) :
    Orderly (mostBytes cap longest) (Rests cap longest) log todo := by
  simpa only [Calls, hlog, htodo] using h

theorem Inv.live_file (h : w.Inv) (hlog : w.log = some log) (htodo : w.todo = f :: rest)
    (hf : Plain f) : w.disk.live = some log.file ∧ w.disk.rotated ≠ some log.file ∧
      log.written = (w.disk.content log.file).length := by
  obtain ⟨starts, phase, hs, hfits⟩ := h
  simp only [hlog, htodo] at hfits
  obtain ⟨-, hm, -⟩ := hfits.plain hf
  exact ⟨hm.live, (Stored.reaches_sound hs).live_ne _ hm.live, hm.written⟩

theorem Shaped.write {bytes : Bytes} (h : w.Shaped cap longest) (hinv : w.Inv)
    (hlog : w.log = some log) (htodo : w.todo = .write bytes :: rest) (fresh : Inode) :
    (w.frame log fresh rest (.write bytes)).Shaped cap longest := by
  obtain ⟨hlive, hrotated, hwritten⟩ := hinv.live_file hlog htodo trivial
  obtain ⟨hsmall, hnext⟩ : log.written + bytes.length ≤ mostBytes cap longest ∧
      Orderly (mostBytes cap longest) (Rests cap longest) (log.wrote bytes) rest := by
    cases h.calls.orderly hlog htodo with
    | write small hnext => exact ⟨small, hnext⟩
  refine ⟨fun log' file hlog' hfile => ?_, fun file hfile => ?_, fun file hfile => ?_, hnext⟩
  · obtain rfl : log.wrote bytes = log' := Option.some.inj hlog'
    obtain rfl : log.file = file := Option.some.inj (hlive.symm.trans hfile)
    have hcontent : (w.frame log fresh rest (.write bytes)).disk.content log.file =
        w.disk.content log.file ++ bytes := Disk.write_content_self ..
    rw [hcontent]
    exact RotatingLog.wrote_endsLine (h.line log log.file hlog hlive) bytes
  · have hne : file ≠ log.file := by
      rintro rfl
      exact hrotated hfile
    have hcontent : (w.frame log fresh rest (.write bytes)).disk.content file =
        w.disk.content file := Disk.write_content_ne _ _ hne
    rw [hcontent]
    exact h.rotated file hfile
  · show ((w.disk.write log.file bytes).content file).length ≤ _
    by_cases hne : file = log.file
    · subst hne
      rw [Disk.write_content_self, List.length_append, ← hwritten]
      exact hsmall
    · rw [Disk.write_content_ne _ _ hne]
      exact h.small file hfile

theorem Shaped.frame (h : w.Shaped cap longest) (hinv : w.Inv) (hlog : w.log = some log)
    (htodo : w.todo = f :: rest) {fresh : Inode} (hfresh : w.disk.rotated ≠ some fresh) :
    (w.frame log fresh rest f).Shaped cap longest := by
  cases h.calls.orderly hlog htodo with
  | append hnext | endOpenLine hnext =>
    refine ⟨h.line, h.rotated, h.small, ?_⟩
    simpa only [Calls, Writer.frame, hlog] using hnext
  | write small hnext => exact h.write hinv hlog htodo fresh
  | rotate line filled hnext =>
    obtain ⟨hlive, hrotated, hwritten⟩ := hinv.live_file hlog htodo trivial
    refine ⟨fun _ _ _ hnone => (by cases hnone), fun file hfile => ?_, fun file hfile => ?_, ?_⟩
    · -- the file that ends a line and holds something is the rotated one now
      obtain rfl : log.file = file := Option.some.inj (hlive.symm.trans hfile)
      refine ((h.line log log.file hlog hlive).1 line).resolve_left fun hnil => ?_
      simp [hwritten, hnil] at filled
    · obtain hnone | hfile := hfile
      · cases hnone
      · exact h.small file (.inl hfile)
    · simpa only [Calls, Writer.frame, hlog] using hnext
  | reopen hnext =>
    have hkept : ∀ file, w.disk.rotated = some file →
        (w.disk.createLive fresh).content file = w.disk.content file := fun file hfile =>
      Disk.createLive_content_ne _ (by rintro rfl; exact hfresh hfile)
    have hempty : (w.disk.createLive fresh).content fresh = [] := Disk.createLive_content_self ..
    refine ⟨fun log' file hlog' hfile => ?_, fun file hfile => ?_, fun file hfile => ?_, hnext fresh⟩
    · obtain rfl : log.reopened fresh = log' := Option.some.inj hlog'
      obtain rfl : fresh = file := Option.some.inj hfile
      show true = true ↔ EndsLine ((w.disk.createLive fresh).content fresh)
      rw [hempty]
      exact iff_of_true rfl (.inl rfl)
    · show ((w.disk.createLive fresh).content file).getLast? = _
      rw [hkept file hfile]
      exact h.rotated file hfile
    · show ((w.disk.createLive fresh).content file).length ≤ _
      obtain hfile | hfile := hfile
      · obtain rfl : fresh = file := Option.some.inj hfile
        simp
      · rw [hkept file hfile]
        exact h.small file (.inr hfile)
  | recordBase hnext =>
    refine ⟨h.line, h.rotated, h.small, ?_⟩
    simpa only [Calls, Writer.frame, hlog] using hnext
  | markRunStart hnext =>
    refine ⟨fun log' file hlog' hfile => ?_, h.rotated, h.small, hnext⟩
    obtain rfl := Option.some.inj hlog'
    exact h.line log file hlog hfile

theorem Shaped.openFrame (h : w.Shaped cap longest) (hinv : w.Inv) (hlog : w.log = none)
    (htodo : w.todo = f :: rest) {fresh : Inode} (hfresh : w.disk.rotated ≠ some fresh) :
    (w.openFrame fresh rest f).Shaped cap longest := by
  obtain ⟨hopens, hrests⟩ : Opens cap (f :: rest) ∧ ∀ file, w.disk.live = some file →
      EndsLine (w.disk.content file) ∨
        (w.disk.content file).length ≤ cap + maxOpenLineOverrun := by
    simpa only [Calls, hlog, htodo] using h.calls
  obtain hnil | hlive | ⟨file, hload⟩ := hopens
  · cases hnil
  · obtain ⟨rfl, rfl⟩ := List.cons_eq_cons.1 hlive
    cases hfound : w.disk.live with
    | some file =>
      simp only [Writer.openFrame, hfound]
      refine ⟨fun log file hsome => ?_, h.rotated, h.small, ?_⟩
      · simp [hlog] at hsome
      · simp only [Calls, hlog]
        exact ⟨.inr (.inr ⟨file, rfl⟩), hrests⟩
    | none =>
      have hkept : ∀ file, w.disk.rotated = some file →
          (w.disk.createLive fresh).content file = w.disk.content file := fun file hfile =>
        Disk.createLive_content_ne _ (by rintro rfl; exact hfresh hfile)
      simp only [Writer.openFrame, hfound]
      refine ⟨fun log file hsome => ?_, fun file hfile => ?_, fun file hfile => ?_, ?_⟩
      · simp [hlog] at hsome
      · simp only [hkept file hfile]
        exact h.rotated file hfile
      · obtain hfile | hfile := hfile
        · obtain rfl : fresh = file := Option.some.inj hfile
          simp
        · simp only [hkept file hfile]
          exact h.small file (.inr hfile)
      · simp only [Calls, hlog]
        refine ⟨.inr (.inr ⟨fresh, rfl⟩), fun file hfile => ?_⟩
        obtain rfl : fresh = file := Option.some.inj hfile
        exact .inl (.inl (Disk.createLive_content_self ..))
  · obtain ⟨rfl, rfl⟩ := List.cons_eq_cons.1 hload
    have hlive : w.disk.live = some file := by
      obtain ⟨starts, phase, -, hopening⟩ := hinv
      simpa only [hlog, htodo, Opening] using hopening
    have hbytes : w.disk.bytesOf w.disk.live = w.disk.content file := by simp [Disk.bytesOf, hlive]
    have hends : (RotatingLog.load w.disk file cap).endsLine = true ↔
        EndsLine (w.disk.content file) := by
      show endsLine (w.disk.bytesOf w.disk.live) (w.disk.content file).length = true ↔ _
      rw [hbytes]
      exact endsLine_iff _
    refine ⟨fun log' file' hlog' hfile => ?_, h.rotated, h.small, ?_⟩
    · obtain rfl := Option.some.inj hlog'
      obtain rfl : file = file' := Option.some.inj (hlive.symm.trans hfile)
      exact hends
    · have hrest : Rests cap longest (RotatingLog.load w.disk file cap) := by
        refine ⟨rfl, h.small file (.inl hlive), fun hopen => ?_⟩
        refine (hrests file hlive).resolve_left fun hline => ?_
        cases hopen.symm.trans (hends.2 hline)
      show Orderly _ _ _ (if _ then _ else _)
      split
      · exact .done hrest
      · exact .recordBase (.done hrest)

theorem Shaped.next {e : WriterEvent} (h : w.Shaped cap longest) (hinv : w.Inv)
    (he : machine.Enabled w e) (hok : Careful cap longest w e) :
    (machine.next w e).Shaped cap longest := by
  cases e with
  | openLog c =>
    obtain rfl : c = cap := hok
    obtain ⟨hlog, -⟩ : w.log = none ∧ w.todo = [] := he
    refine ⟨h.line, h.rotated, h.small, ?_⟩
    have hcalls := h.calls
    simp only [Calls, machine, hlog] at hcalls ⊢
    exact ⟨.inr (.inl rfl), hcalls.2⟩
  | call c =>
    obtain ⟨hlog, htodo⟩ : w.log ≠ none ∧ w.todo = [] := he
    obtain ⟨log, hlog⟩ := Option.ne_none_iff_exists'.1 hlog
    have hrests : Rests cap longest log := by
      cases h.calls.orderly hlog htodo with
      | done hrests => exact hrests
    refine ⟨h.line, h.rotated, h.small, ?_⟩
    simp only [Calls, machine, hlog]
    cases c with
    | startRun => exact .of_startRun hrests
    | append bytes => exact hok.elim
    | appendHeld bytes => exact .of_appendHeld hrests hok
  | work fresh =>
    have hfresh : w.disk.rotated ≠ some fresh := he.2
    simp only [machine, work]
    cases htodo : w.todo with
    | nil => exact h
    | cons f rest =>
      cases hlog : w.log with
      | some log => exact h.frame hinv hlog htodo hfresh
      | none => exact h.openFrame hinv hlog htodo hfresh
  | die =>
    have htodo : w.todo = [] := hok
    refine ⟨fun _ _ hnone => (by cases hnone), h.rotated, h.small, .inl rfl, fun file hfile => ?_⟩
    cases hlog : w.log with
    | none =>
      have hcalls := h.calls
      simp only [Calls, hlog] at hcalls
      exact hcalls.2 file hfile
    | some log =>
      have hrests : Rests cap longest log := by
        cases h.calls.orderly hlog htodo with
        | done hrests => exact hrests
      cases hends : log.endsLine with
      | true => exact .inl ((h.line log file hlog hfile).1 hends)
      | false =>
        obtain ⟨starts, phase, hs, hfits⟩ := hinv
        simp only [hlog, htodo] at hfits
        obtain ⟨-, hm, -⟩ := hfits
        obtain rfl : log.file = file := Option.some.inj (hm.live.symm.trans hfile)
        exact .inr (hm.written ▸ hrests.line hends)

theorem shaped_of_reaches (hr : (machine.restrict (Careful cap longest)).Reaches new w) :
    w.Shaped cap longest := by
  refine (hr.invariant_restrict (P := fun w => w.Inv ∧ w.Shaped cap longest)
    (fun a e ha he hok => ⟨step_inv ha.1 he, ha.2.next ha.1 he hok⟩) ⟨new_inv, ?_⟩).2
  refine ⟨fun _ _ hnone => (nomatch hnone), fun _ hnone => (nomatch hnone), fun _ hnone => ?_, .inl rfl,
    fun _ hnone => (nomatch hnone)⟩
  obtain hnone | hnone := hnone <;> cases hnone

theorem Shaped.begins (h : w.Shaped cap longest) (hinv : w.Inv) {file : Inode}
    (hlive : w.disk.live = some file) :
    EndsLine (w.stream.take (w.stream.length - (w.disk.content file).length)) := by
  obtain ⟨starts, phase, hs, -⟩ := hinv
  have hsound := Stored.reaches_sound hs
  have hstop := hsound.live_stop file hlive
  simp only [Stored.stop] at hstop
  have hstart : w.stream.length - (w.disk.content file).length = starts file := by omega
  rw [hstart]
  cases hrotated : w.disk.rotated with
  | none =>
    have hfirst : starts file = 0 := hsound.live_first file hlive hrotated
    exact .inl (by simp [hfirst])
  | some old =>
    have hends := h.rotated old hrotated
    obtain ⟨hplaced, hle⟩ := hsound.placed old (.inr (.inl hrotated))
    have hmeet : starts old + (w.disk.content old).length = starts file :=
      hsound.rotated_stop file old hlive hrotated
    -- the stream before the live file ends with the rotated one
    have hbefore : w.stream.take (starts file) =
        w.stream.take (starts old) ++ w.disk.content old := by
      have hstretch : w.disk.content old = w.stream.extract (starts old) (starts file) :=
        hmeet ▸ hplaced
      rw [hstretch]
      simpa [List.extract_eq_take_drop] using
        (extract_append_extract w.stream (Nat.zero_le (starts old)) (k := starts file)
          (by omega)).symm
    rw [hbefore]
    exact .inr (by simp [List.getLast?_append, hends])

/-- **The shape of the generations.**  In every run with one cap in which the process dies only
between calls, the writer's `ends_line` says whether the live file is empty or ends in a line feed;
the rotated file ends in a line feed, so that the live one begins on a line of the stream; and
neither is longer than the cap, the overrun, the longest chunk and the line end together. -/
theorem generations_shaped (hr : (machine.restrict (Careful cap longest)).Reaches new w) :
    (∀ log file, w.log = some log → w.disk.live = some file →
      (log.endsLine = true ↔
        w.disk.content file = [] ∨ (w.disk.content file).getLast? = some lineFeed)) ∧
    (∀ file, w.disk.rotated = some file → (w.disk.content file).getLast? = some lineFeed) ∧
    (∀ file, w.disk.live = some file →
      EndsLine (w.stream.take (w.stream.length - (w.disk.content file).length))) ∧
    ∀ file, w.disk.live = some file ∨ w.disk.rotated = some file →
      (w.disk.content file).length ≤
        cap + maxOpenLineOverrun + longest + endOpenLine.length := by
  have hshaped := shaped_of_reaches hr
  exact ⟨hshaped.line, hshaped.rotated, fun file => hshaped.begins (reaches_inv hr.of_restrict),
    hshaped.small⟩

def rotatedRun : List WriterEvent :=
  [.openLog 2, .work 1, .work 2, .work 2, .call (.appendHeld [97, lineFeed]), .work 2, .work 2,
    .work 2, .die, .openLog 2, .work 2, .work 2, .call (.appendHeld [98, 99]), .work 2, .work 2,
    .work 2, .work 2, .work 3, .work 3, .work 3]

theorem generations_shaped_rotated :
    (machine.play new rotatedRun).disk.rotated = some 1 ∧
    ((machine.play new rotatedRun).disk.content 1).getLast? = some lineFeed :=
  have hrotated : (machine.play new rotatedRun).disk.rotated = some 1 := by decide
  have hr : (machine.restrict (Careful 2 2)).Reaches new (machine.play new rotatedRun) :=
    Machine.reaches_play_restrict (by decide)
  ⟨hrotated, (generations_shaped hr).2.1 1 hrotated⟩

end Writer

end Muster.Log
