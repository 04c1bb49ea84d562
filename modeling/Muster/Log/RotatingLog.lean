import Muster.Log.Span

/-!
# RotatingLog — the holder's writer, stopped anywhere, and its readers

The holder appends a process's output to the live file and rotates it past a cap.  A call of the
writer is a list of frames, each at most one file step, so that the process may die between any two
of them and the log be opened again over what it left.  The main result is that the offsets never
drift: at every point of every such run the writer's end and every read agree with the stream of all
bytes ever written.
-/

namespace Muster.Log

def maxOpenLineOverrun : ℕ := 64 * 1024

/-- The writer's memory: the file it appends to, its length, where it starts, and whether it ends in
a line feed. -/
structure RotatingLog where
  file : Inode
  written : ℕ
  base : ℕ
  cap : ℕ
  runStart : ℕ
  endsLine : Bool
  deriving DecidableEq, Repr

/-- Whether the file's byte before `len` is a line feed; an empty file ends a line. -/
def endsLine (bytes : Bytes) : ℕ → Bool
  | 0 => true
  | last + 1 => bytes[last]? = some lineFeed

/-- What a call still has to do.  `reopen` and `recordBase` finish a rotation after its rename. -/
inductive Frame where
  | append (bytes : Bytes)
  | write (bytes : Bytes)
  | rotate
  | reopen
  | recordBase
  | markRunStart
  | endOpenLine
  | openLive (cap : ℕ)
  | load (file : Inode) (cap : ℕ)
  deriving DecidableEq, Repr

namespace RotatingLog

def stop (log : RotatingLog) : ℕ := log.base + log.written

/-- `append`: past the cap the line being written is finished, the log rotated, and the rest goes
to the new file; with no line feed in sight nothing is rotated yet. -/
def append (log : RotatingLog) (bytes : Bytes) : List Frame :=
  if log.written = 0 ∨ log.written + bytes.length ≤ log.cap then [.write bytes]
  else if log.endsLine then [.write (bytes.take 0), .rotate, .write (bytes.drop 0)]
  else
    match bytes.findIdx? (· == lineFeed) with
    | some feed => [.write (bytes.take (feed + 1)), .rotate, .write (bytes.drop (feed + 1))]
    | none => [.write bytes]

/-- `append_held` after its append: an open line that overran the cap too far is ended. -/
def endOverrun (log : RotatingLog) : List Frame :=
  if !log.endsLine && log.cap + maxOpenLineOverrun < log.written then
    [.write Muster.Log.endOpenLine, .rotate]
  else []

def wrote (log : RotatingLog) (bytes : Bytes) : RotatingLog :=
  { log with
    written := log.written + bytes.length
    endsLine := (bytes.getLast?.map (· == lineFeed)).getD log.endsLine }

def reopened (log : RotatingLog) (file : Inode) : RotatingLog :=
  { log with file, base := log.base + log.written, written := 0, endsLine := true }

/-- `open` after the live file is there: where it starts is resolved from the sidecar. -/
def load (d : Disk) (file : Inode) (cap : ℕ) : RotatingLog :=
  let live := d.generation file
  let base := (LogBase.resolve d.sidecar (some live) d.rotatedGeneration).offset
  { file, written := live.len, base, cap
    runStart := base + live.len
    endsLine := Muster.Log.endsLine (d.bytesOf d.live) live.len }

/-- Whether the sidecar already says what `open` resolved. -/
def recorded (d : Disk) (log : RotatingLog) : Bool :=
  d.sidecar = some ⟨log.base, log.file⟩

end RotatingLog

inductive LogCall where
  | startRun
  | append (bytes : Bytes)
  | appendHeld (bytes : Bytes)
  deriving DecidableEq, Repr

def LogCall.frames : LogCall → List Frame
  | .startRun =>
    [.append (runStartBytes.take runResetAt), .markRunStart,
      .append (runStartBytes.drop runResetAt)]
  | .append bytes => [.append bytes]
  | .appendHeld bytes => [.append bytes, .endOpenLine]

/-- The files, all bytes ever written, and the process writing them, if one is alive. -/
structure Writer where
  disk : Disk
  stream : Bytes
  log : Option RotatingLog
  todo : List Frame

inductive WriterEvent where
  | openLog (cap : ℕ)
  | call (call : LogCall)
  /-- The process does its next frame; a file it creates gets the inode `fresh`. -/
  | work (fresh : Inode)
  | die
  deriving DecidableEq, Repr

namespace Writer

def new : Writer := ⟨Disk.empty, [], none, []⟩

/-- One frame of an open log's call. -/
def frame (w : Writer) (log : RotatingLog) (fresh : Inode) (rest : List Frame) : Frame → Writer
  | .append bytes => { w with todo := log.append bytes ++ rest }
  | .write bytes =>
    { w with
      disk := w.disk.write log.file bytes
      stream := w.stream ++ bytes
      log := some (log.wrote bytes)
      todo := rest }
  | .rotate => { w with disk := w.disk.renameLive, todo := .reopen :: .recordBase :: rest }
  | .reopen =>
    { w with
      disk := w.disk.createLive fresh
      log := some (log.reopened fresh)
      todo := rest }
  | .recordBase => { w with disk := w.disk.replaceSidecar ⟨log.base, log.file⟩, todo := rest }
  | .markRunStart => { w with log := some { log with runStart := log.stop }, todo := rest }
  | .endOpenLine => { w with todo := log.endOverrun ++ rest }
  | .openLive _ => { w with todo := rest }
  | .load _ _ => { w with todo := rest }

/-- One frame of `open`, before there is a log: open the live file, creating it when it is absent,
then resolve where it starts and record that when the sidecar says otherwise. -/
def openFrame (w : Writer) (fresh : Inode) (rest : List Frame) : Frame → Writer
  | .openLive cap =>
    match w.disk.live with
    | some file => { w with todo := .load file cap :: rest }
    | none => { w with disk := w.disk.createLive fresh, todo := .load fresh cap :: rest }
  | .load file cap =>
    let log := RotatingLog.load w.disk file cap
    { w with
      log := some log
      todo := if log.recorded w.disk then rest else .recordBase :: rest }
  | _ => { w with todo := rest }

def work (w : Writer) (fresh : Inode) : Writer :=
  match w.todo, w.log with
  | [], _ => w
  | f :: rest, some log => w.frame log fresh rest f
  | f :: rest, none => w.openFrame fresh rest f

/-- The writer's runs: one process at a time, its calls one after the other, and death anywhere. -/
def machine : Machine Writer WriterEvent where
  Enabled w
    | .openLog _ => w.log = none ∧ w.todo = []
    | .call _ => w.log ≠ none ∧ w.todo = []
    | .work fresh => w.disk.live ≠ some fresh ∧ w.disk.rotated ≠ some fresh
    | .die => True
  next w
    | .openLog cap => { w with todo := [.openLive cap] }
    | .call c => { w with todo := c.frames }
    | .work fresh => w.work fresh
    | .die => { w with log := none, todo := [] }

instance : ∀ (w : Writer) (e : WriterEvent), Decidable (machine.Enabled w e)
  | _, .openLog _ => inferInstanceAs (Decidable (_ ∧ _))
  | _, .call _ => inferInstanceAs (Decidable (_ ∧ _))
  | _, .work _ => inferInstanceAs (Decidable (_ ∧ _))
  | _, .die => inferInstanceAs (Decidable True)

/-! ### The invariant -/

def Plain : Frame → Prop
  | .append _ | .write _ | .rotate | .markRunStart | .endOpenLine => True
  | _ => False

/-- The memory matches the live file. -/
structure Matches (s : Stored) (log : RotatingLog) : Prop where
  live : s.disk.live = some log.file
  base : log.base = s.starts log.file
  written : log.written = (s.disk.content log.file).length

/-- How the process's memory and what it still has to do fit the files: between rotations the
sidecar names the live file; `reopen` comes only after a rename, `recordBase` only after a create. -/
def Fits (s : Stored) (log : RotatingLog) : List Frame → Prop
  | .reopen :: .recordBase :: rest =>
    s.phase = .renamed ∧ log.stop = s.stream.length ∧ ∀ f ∈ rest, Plain f
  | .recordBase :: rest =>
    (s.phase = .born ∨ s.phase = .created) ∧ Matches s log ∧ ∀ f ∈ rest, Plain f
  | todo => s.phase = .settled ∧ Matches s log ∧ ∀ f ∈ todo, Plain f

/-- How far `open` has come before there is a log. -/
def Opening (s : Stored) : List Frame → Prop
  | [] => True
  | [.openLive _] => True
  | [.load file _] => s.disk.live = some file
  | _ => False

/-- The files are those of a run of the four file steps, and the process fits them. -/
def Inv (w : Writer) : Prop :=
  ∃ starts phase, Stored.writer.Reaches .empty ⟨w.disk, w.stream, starts, phase⟩ ∧
    match w.log with
    | some log => Fits ⟨w.disk, w.stream, starts, phase⟩ log w.todo
    | none => Opening ⟨w.disk, w.stream, starts, phase⟩ w.todo

variable {s : Stored} {log : RotatingLog}

theorem Matches.stop {held : List Inode} (h : Matches s log)
    (hs : s.Sound held) : log.stop = s.stream.length := by
  rw [RotatingLog.stop, h.base, h.written]
  exact hs.live_stop _ h.live

theorem fits_plain {todo : List Frame} (hp : s.phase = .settled)
    (hm : Matches s log) (ht : ∀ f ∈ todo, Plain f) : Fits s log todo := by
  unfold Fits
  split
  · exact (ht .reopen (by simp)).elim
  · exact (ht .recordBase (by simp)).elim
  · exact ⟨hp, hm, ht⟩

variable {f : Frame} {rest : List Frame}

theorem Fits.plain (h : Fits s log (f :: rest)) (hf : Plain f) :
    s.phase = .settled ∧ Matches s log ∧ ∀ g ∈ rest, Plain g := by
  cases f with
  | reopen => exact hf.elim
  | recordBase => exact hf.elim
  | _ =>
    obtain ⟨hp, hm, ht⟩ := h
    exact ⟨hp, hm, fun g hg => ht g (List.mem_cons_of_mem _ hg)⟩

theorem Fits.reopen (h : Fits s log (.reopen :: rest)) :
    ∃ rest', rest = .recordBase :: rest' ∧ s.phase = .renamed ∧
      log.base + log.written = s.stream.length ∧ ∀ f ∈ rest', Plain f := by
  unfold Fits at h
  split at h
  · rename_i rest' heq
    exact ⟨rest', List.tail_eq_of_cons_eq heq, h⟩
  · rename_i heq
    simp at heq
  · exact (h.2.2 .reopen (by simp)).elim

theorem append_plain (log : RotatingLog) (bytes : Bytes) : ∀ f ∈ log.append bytes, Plain f := by
  unfold RotatingLog.append
  split
  · simp [Plain]
  · split
    · simp [Plain]
    · split <;> simp [Plain]

theorem endOverrun_plain (log : RotatingLog) : ∀ f ∈ log.endOverrun, Plain f := by
  unfold RotatingLog.endOverrun
  split <;> simp [Plain]

theorem frames_plain (c : LogCall) : ∀ f ∈ c.frames, Plain f := by
  cases c <;> simp [LogCall.frames, Plain]

theorem plain_append {l : List Frame} (hl : ∀ f ∈ l, Plain f) (hr : ∀ f ∈ rest, Plain f) :
    ∀ f ∈ l ++ rest, Plain f := by
  intro f hf
  rcases List.mem_append.mp hf with hf | hf
  · exact hl f hf
  · exact hr f hf

theorem new_inv : new.Inv := by
  refine ⟨fun _ => 0, .absent, Relation.ReflTransGen.refl, ?_⟩
  simp [new, Opening]

theorem Matches.write (h : Matches s log) (bytes : Bytes) :
    Matches (s.apply (.append bytes)) (log.wrote bytes) := by
  rw [Stored.apply_append_of_live h.live]
  exact ⟨h.live, h.base, by simp [RotatingLog.wrote, h.written]⟩

variable {w : Writer}

theorem frame_inv_plain {starts : Inode → ℕ} {phase : Phase} (fresh : Inode)
    (hs : Stored.writer.Reaches .empty ⟨w.disk, w.stream, starts, phase⟩)
    (hlog : w.log = some log) (hp : phase = .settled) (hm : Matches ⟨w.disk, w.stream, starts, phase⟩ log)
    (hrest : ∀ g ∈ rest, Plain g) (hf : Plain f) : (w.frame log fresh rest f).Inv := by
  subst hp
  cases f with
  | append bytes =>
    refine ⟨starts, .settled, hs, ?_⟩
    simp only [frame, hlog]
    exact fits_plain rfl hm (plain_append (append_plain log bytes) hrest)
  | endOpenLine =>
    refine ⟨starts, .settled, hs, ?_⟩
    simp only [frame, hlog]
    exact fits_plain rfl hm (plain_append (endOverrun_plain log) hrest)
  | markRunStart =>
    refine ⟨starts, .settled, hs, ?_⟩
    simp only [frame]
    exact fits_plain rfl ⟨hm.live, hm.base, hm.written⟩ hrest
  | write bytes =>
    have hstep := hs.next (e := .append bytes) rfl
    have hm' := hm.write bytes
    rw [Stored.writer_next] at hstep
    rw [Stored.apply_append_of_live hm.live] at hstep hm'
    exact ⟨starts, .settled, hstep, fits_plain rfl hm' hrest⟩
  | rotate =>
    refine ⟨starts, .renamed, hs.next (e := .rename) rfl, ?_⟩
    simp only [frame, hlog, Fits]
    exact ⟨trivial, hm.stop (Stored.reaches_sound hs), hrest⟩
  | reopen => exact hf.elim
  | recordBase => exact hf.elim
  | openLive cap => exact hf.elim
  | load file cap => exact hf.elim

/-- Every frame of an open log keeps the invariant: the ones that finish a rotation put back what
its rename took apart. -/
theorem frame_inv {fresh : Inode} (h : w.Inv) (hlog : w.log = some log) (htodo : w.todo = f :: rest)
    (hfresh : w.disk.rotated ≠ some fresh) : (w.frame log fresh rest f).Inv := by
  obtain ⟨starts, phase, hs, hfits⟩ := h
  simp only [hlog, htodo] at hfits
  by_cases hf : Plain f
  · obtain ⟨hp, hm, hrest⟩ := hfits.plain hf
    exact frame_inv_plain fresh hs hlog hp hm hrest hf
  · cases f with
    | reopen =>
      obtain ⟨rest, rfl, hp, hstop, hrest⟩ := hfits.reopen
      have hp' : phase = .renamed := hp
      subst hp'
      refine ⟨Function.update starts fresh w.stream.length, .created,
        hs.next (e := .create fresh) ⟨Or.inr rfl, hfresh, by simp⟩, ?_⟩
      simp only [frame, Fits]
      exact ⟨Or.inr trivial, ⟨rfl, by simpa [RotatingLog.reopened] using hstop,
        by simp [RotatingLog.reopened]⟩, hrest⟩
    | recordBase =>
      obtain ⟨hp, hm, hrest⟩ := hfits
      have hstep := hs.next (e := .record) hp
      rw [Stored.writer_next, Stored.apply_record_of_live hm.live] at hstep
      refine ⟨starts, .settled, ?_, ?_⟩
      · simpa only [frame, hm.base] using hstep
      · simp only [frame, hlog]
        exact fits_plain rfl ⟨hm.live, hm.base, hm.written⟩ hrest
    | openLive cap =>
      obtain ⟨-, -, hplain⟩ := hfits
      exact (hplain (.openLive cap) (by simp)).elim
    | load file cap =>
      obtain ⟨-, -, hplain⟩ := hfits
      exact (hplain (.load file cap) (by simp)).elim
    | _ => exact (hf trivial).elim

theorem load_fits (hs : s.Sound []) {file : Inode} (hl : s.disk.live = some file) (cap : ℕ) :
    Fits s (.load s.disk file cap)
      (if (RotatingLog.load s.disk file cap).recorded s.disk then [] else [.recordBase]) := by
  have hres := hs.resolve
  have hstop := hs.live_stop file hl
  simp only [Disk.liveGeneration, hl, Option.map_some, Disk.bytesOf, Option.getD_some] at hres
  have hm : Matches s (.load s.disk file cap) := by
    refine ⟨hl, ?_, rfl⟩
    simp only [RotatingLog.load, hres]
    simp only [Stored.stop] at hstop
    omega
  by_cases hrec : (RotatingLog.load s.disk file cap).recorded s.disk = true
  · rw [if_pos hrec]
    refine fits_plain ?_ hm (by simp)
    simp only [RotatingLog.recorded, decide_eq_true_eq] at hrec
    have hshape := hs.shape
    cases hp : s.phase with
    | settled => rfl
    | absent => simp [Stored.Shape, hp, hl] at hshape
    | born => simp [Stored.Shape, hp, hrec] at hshape
    | renamed => simp [Stored.Shape, hp, hl] at hshape
    | created =>
      simp only [Stored.Shape, hp] at hshape
      obtain ⟨a, r, ha, hr, -, hside⟩ := hshape
      -- the sidecar still names the rotated file, which is not the live one
      have hfile : file = r := by
        rw [hrec] at hside
        simpa [RotatingLog.load] using congrArg (Option.map LogBase.inode) hside
      exact absurd (hfile ▸ hr) (hs.live_ne file hl)
  · rw [if_neg hrec]
    refine ⟨?_, hm, by simp⟩
    simp only [RotatingLog.recorded, decide_eq_true_eq] at hrec
    have hshape := hs.shape
    cases hp : s.phase with
    | born => exact Or.inl rfl
    | created => exact Or.inr rfl
    | absent => simp [Stored.Shape, hp, hl] at hshape
    | renamed => simp [Stored.Shape, hp, hl] at hshape
    | settled =>
      simp only [Stored.Shape, hp] at hshape
      obtain ⟨a, ha, hside⟩ := hshape
      obtain rfl : a = file := by simpa [hl] using ha.symm
      exact absurd (by rw [hside, hm.base]; rfl) hrec

theorem openFrame_inv {fresh : Inode} (h : w.Inv) (hlog : w.log = none) (htodo : w.todo = f :: rest)
    (hfresh : w.disk.rotated ≠ some fresh) : (w.openFrame fresh rest f).Inv := by
  obtain ⟨starts, phase, hs, hopen⟩ := h
  simp only [hlog, htodo] at hopen
  match f, rest, hopen with
  | .openLive cap, [], _ =>
    cases hl : w.disk.live with
    | some file =>
      refine ⟨starts, phase, ?_, ?_⟩
      · simpa only [openFrame, hl] using hs
      · simp [openFrame, hl, hlog, Opening]
    | none =>
      -- the live file is missing before the first `open` and after a rename
      have hp : phase = .absent ∨ phase = .renamed := by
        have hshape := (Stored.reaches_sound hs).shape
        cases phase <;> simp_all [Stored.Shape]
      refine ⟨Function.update starts fresh w.stream.length,
        if phase = .absent then .born else .created, ?_, ?_⟩
      · have hstep := hs.next (e := .create fresh) ⟨hp, hfresh, by simp⟩
        simpa only [openFrame, hl, Stored.writer_next, Stored.apply] using hstep
      · simp [openFrame, hl, hlog, Opening]
  | .load file cap, [], hopen =>
    refine ⟨starts, phase, hs, ?_⟩
    simp only [openFrame]
    exact load_fits (Stored.reaches_sound hs) hopen cap

theorem step_inv {e : WriterEvent} (h : w.Inv) (he : machine.Enabled w e) :
    (machine.next w e).Inv := by
  cases e with
  | openLog cap =>
    obtain ⟨starts, phase, hs, -⟩ := h
    refine ⟨starts, phase, hs, ?_⟩
    have hlog : w.log = none := he.1
    simp [machine, hlog, Opening]
  | call c =>
    obtain ⟨starts, phase, hs, hfits⟩ := h
    obtain ⟨hlog, htodo⟩ : w.log ≠ none ∧ w.todo = [] := he
    obtain ⟨log, hlog⟩ := Option.ne_none_iff_exists'.mp hlog
    simp only [hlog, htodo] at hfits
    refine ⟨starts, phase, hs, ?_⟩
    simp only [machine, hlog]
    exact fits_plain hfits.1 hfits.2.1 (frames_plain c)
  | work fresh =>
    have hfresh : w.disk.rotated ≠ some fresh := he.2
    simp only [machine, work]
    cases htodo : w.todo with
    | nil => exact h
    | cons f rest =>
      cases hlog : w.log with
      | some log => exact frame_inv h hlog htodo hfresh
      | none => exact openFrame_inv h hlog htodo hfresh
  | die =>
    obtain ⟨starts, phase, hs, -⟩ := h
    exact ⟨starts, phase, hs, trivial⟩

theorem reaches_inv (hr : machine.Reaches new w) : w.Inv :=
  hr.invariant (fun _ _ => step_inv) new_inv

theorem Inv.stop (h : w.Inv) (hlog : w.log = some log) : log.stop = w.stream.length := by
  obtain ⟨starts, phase, hs, hfits⟩ := h
  simp only [hlog] at hfits
  unfold Fits at hfits
  split at hfits
  · exact hfits.2.1
  · exact hfits.2.1.stop (Stored.reaches_sound hs)
  · exact hfits.2.1.stop (Stored.reaches_sound hs)

/-- **The writer refines the four file steps.**  Every state of its files is one that appends,
renames, creates and sidecar replacements reach, with the same stream. -/
theorem refines_file_steps (hr : machine.Reaches new w) :
    ∃ s, Stored.writer.Reaches .empty s ∧ s.disk = w.disk ∧ s.stream = w.stream := by
  obtain ⟨starts, phase, hs, -⟩ := reaches_inv hr
  exact ⟨_, hs, rfl, rfl⟩

/-- **Writer and readers agree at every point of every run.**  The writer ends where the stream of
all bytes ever written does; the span a reader opens ends there too and starts the lengths of the
files present before it; and every range read is that stretch of the stream. -/
theorem log_agrees_with_stream {w : Writer} (hr : machine.Reaches new w) :
    (∀ log, w.log = some log → log.stop = w.stream.length) ∧
    ∃ sp, Span.open w.disk = some sp ∧ sp.stop = w.stream.length ∧
      sp.oldest + ((w.disk.bytesOf w.disk.rotated).length +
        (w.disk.bytesOf w.disk.live).length) = w.stream.length ∧
      ∀ buf from_ to_ max_, readLogRange w.disk buf from_ to_ max_ =
        some (max from_ sp.oldest, w.stream.extract (max from_ sp.oldest)
          (min (min to_ w.stream.length) (max from_ sp.oldest + max_))) := by
  have hinv := reaches_inv hr
  refine ⟨fun log hlog => hinv.stop hlog, ?_⟩
  obtain ⟨starts, phase, hs, -⟩ := hinv
  obtain ⟨sp, hopen, hserves, hstop, holdest⟩ := (Stored.reaches_sound hs).open_serves
  have hstop : sp.stop = w.stream.length := hstop
  refine ⟨sp, hopen, hstop, by simpa [Nat.add_assoc] using holdest, fun buf from_ to_ max_ => ?_⟩
  simp only [readLogRange, hopen, Option.map_some, Option.some.injEq, Prod.mk.injEq, true_and]
  rw [hserves.readToEnd buf _ _ _ (Nat.le_refl _) (Nat.le_max_right _ _), hstop]
  by_cases hle : max from_ sp.oldest ≤ min (min to_ w.stream.length) (max from_ sp.oldest + max_)
  · congr 1
    omega
  · rw [extract_of_le _ (by omega), extract_of_le _ (by omega)]

/-- A run that fills a log of cap four, and dies inside the next append's rotation, after its
rename. -/
def crashedRun : List WriterEvent :=
  [.openLog 4, .work 1, .work 2, .work 2,
    .call (.append [97, 98, 99, lineFeed]), .work 2, .work 2,
    .call (.append [100, lineFeed]), .work 2, .work 2, .work 2, .die]

theorem crashed_log_agrees :
    (machine.play new crashedRun).disk.live = none ∧
    ∃ sp, Span.open (machine.play new crashedRun).disk = some sp ∧ sp.stop = 4 ∧
      readLogRange (machine.play new crashedRun).disk 0 1 9 2 = some (1, [98, 99]) := by
  obtain ⟨-, sp, hopen, hstop, holdest, hread⟩ :=
    log_agrees_with_stream (w := machine.play new crashedRun) (Machine.reaches_play (by decide))
  have hold : sp.oldest = 0 := by
    have hlen : (machine.play new crashedRun).stream.length = 4 := by decide
    have hrot : ((machine.play new crashedRun).disk.bytesOf
        (machine.play new crashedRun).disk.rotated).length = 4 := by decide
    omega
  refine ⟨by decide, sp, hopen, hstop.trans (by decide), ?_⟩
  rw [hread, hold]
  decide

end Writer

end Muster.Log
