import Mathlib.Logic.Function.Iterate
import Muster.Log.RotatingLog

/-!
# FailingIo — the log's writer while its file operations fail

Every write, rename, create and sidecar write may fail; a write may have written part of its bytes
first.  A call of the writer is given how each of its operations goes.  `stream` is what the log's files
hold, in order, after what the files hold that a rename has replaced.
-/

namespace Muster.Log

/-- How the operations of one rotation go. -/
structure RotateIo where
  rename : Bool
  create : Bool
  record : Bool
deriving DecidableEq, Repr

/-- How the operations of one append go; a write that fails has written some bytes first. -/
structure AppendIo where
  first : Option ℕ
  rotate : RotateIo
  second : Option ℕ
deriving DecidableEq, Repr

structure HeldIo where
  append : AppendIo
  closing : Option ℕ
  rotate : RotateIo
deriving DecidableEq, Repr

def RotateIo.works : RotateIo := ⟨true, true, true⟩
def AppendIo.works : AppendIo := ⟨none, .works, none⟩
def HeldIo.works : HeldIo := ⟨.works, none, .works⟩

/-- An open log: the files, the bytes of the rotated files that renames replaced, which no operation
looks at, and the writer's memory. -/
structure OpenLog where
  disk : Disk
  dropped : Bytes
  log : RotatingLog

namespace OpenLog

def stream (s : OpenLog) : Bytes :=
  s.dropped ++ (s.disk.bytesOf s.disk.rotated ++ s.disk.bytesOf s.disk.live)

/-- Writes `bytes` to the file held open.  After a failed write the length and whether the file ends a
line are taken from the file again; writing nothing cannot fail. -/
def write (s : OpenLog) (fault : Option ℕ) (bytes : Bytes) : OpenLog × Bool :=
  match if bytes = [] then none else fault with
  | none =>
    ({ s with disk := s.disk.write s.log.file bytes, log := s.log.wrote bytes }, true)
  | some taken =>
    let disk := s.disk.write s.log.file (bytes.take taken)
    let written := (disk.content s.log.file).length
    ({ s with
       disk
       log := { s.log with written, endsLine := endsLine (disk.bytesOf disk.live) written } }, false)

/-- Moves the live file to its rotated name, starts an empty one and records where it starts. -/
def rotate (s : OpenLog) (io : RotateIo) (fresh : Inode) : OpenLog × Bool :=
  -- there is nothing to rename once a create has failed
  if !(io.rename && s.disk.live.isSome) then (s, false)
  else
    let renamed : OpenLog :=
      { s with disk := s.disk.renameLive, dropped := s.dropped ++ s.disk.bytesOf s.disk.rotated }
    if !io.create then (renamed, false)
    else
      let reopened : OpenLog :=
        { renamed with disk := renamed.disk.createLive fresh, log := s.log.reopened fresh }
      if !io.record then (reopened, false)
      else
        ({ reopened with
           disk := reopened.disk.replaceSidecar ⟨reopened.log.base, reopened.log.file⟩ }, true)

def headOf (log : RotatingLog) (bytes : Bytes) : Option ℕ :=
  if log.written = 0 ∨ log.written + bytes.length ≤ log.cap then none
  else if log.endsLine then some 0
  else (bytes.findIdx? (· == lineFeed)).map (· + 1)

def andThen (r : OpenLog × Bool) (go : OpenLog → OpenLog × Bool) : OpenLog × Bool :=
  if r.2 then go r.1 else r

/-- Appends `bytes`, rotating only on a line boundary. -/
def append (s : OpenLog) (io : AppendIo) (fresh : Inode) (bytes : Bytes) : OpenLog × Bool :=
  match headOf s.log bytes with
  | none => s.write io.first bytes
  | some head =>
    andThen (s.write io.first (bytes.take head)) fun s =>
    andThen (s.rotate io.rotate fresh) fun s => s.write io.second (bytes.drop head)

def overran (log : RotatingLog) : Bool :=
  !log.endsLine && decide (log.cap + maxOpenLineOverrun < log.written)

def closeLine (s : OpenLog) (io : HeldIo) (next : Inode) : OpenLog × Bool :=
  andThen (s.write io.closing endOpenLine) fun s => s.rotate io.rotate next

/-- Appends `bytes`, then ends a line that overran the cap and rotates; with what the log took. -/
def appendHeld (s : OpenLog) (io : HeldIo) (fresh next : Inode) (bytes : Bytes) :
    OpenLog × Bytes × Bool :=
  let appended := s.append io.append fresh bytes
  if appended.2 && overran appended.1.log then
    let closed := appended.1.closeLine io next
    (closed.1, (bytes ++ endOpenLine).take (closed.1.log.stop - s.log.stop), closed.2)
  else (appended.1, bytes.take (appended.1.log.stop - s.log.stop), appended.2)

/-! ### What each operation writes -/

/-- The file held open is the log's newest, of the length remembered: the live file, or the rotated one
once a create has failed. -/
structure Holds (s : OpenLog) : Prop where
  measured : s.log.written = (s.disk.content s.log.file).length
  newest : s.disk.live = some s.log.file ∧ s.disk.rotated ≠ some s.log.file ∨
    s.disk.live = none ∧ s.disk.rotated = some s.log.file

/-- An inode no file of the log has: neither the live path's nor the one held open. -/
def Free (s : OpenLog) (fresh : Inode) : Prop := s.disk.live ≠ some fresh ∧ s.log.file ≠ fresh

instance (s : OpenLog) (fresh : Inode) : Decidable (s.Free fresh) :=
  inferInstanceAs (Decidable (_ ∧ _))

/-- `t` is `s` with `bytes` written, to one file or across a rotation. -/
structure Wrote (s : OpenLog) (bytes : Bytes) (t : OpenLog) : Prop where
  stream : t.stream = s.stream ++ bytes
  stop : t.log.stop = s.log.stop + bytes.length
  holds : t.Holds
  cap : t.log.cap = s.log.cap

variable {s : OpenLog}

theorem Wrote.trans {t v : OpenLog} {a b : Bytes} (h : s.Wrote a t) (h' : t.Wrote b v) :
    s.Wrote (a ++ b) v where
  stream := by rw [h'.stream, h.stream, List.append_assoc]
  stop := by rw [h'.stop, h.stop, List.length_append, Nat.add_assoc]
  holds := h'.holds
  cap := h'.cap.trans h.cap

theorem Holds.stream_write (h : s.Holds) (bytes : Bytes) (log : RotatingLog) :
    stream { s with disk := s.disk.write s.log.file bytes, log := log } = s.stream ++ bytes := by
  rcases h.newest with ⟨hlive, hrotated⟩ | ⟨hlive, hrotated⟩
  · have hother : (s.disk.write s.log.file bytes).bytesOf s.disk.rotated =
        s.disk.bytesOf s.disk.rotated := by
      cases hr : s.disk.rotated with
      | none => rfl
      | some old => exact Disk.write_content_ne _ _ fun heq => hrotated (by rw [hr, heq])
    simp only [stream, Disk.write_rotated, hother]
    simp [hlive, Disk.bytesOf]
  · simp [stream, hlive, hrotated, Disk.bytesOf]

theorem write_frame (s : OpenLog) (fault : Option ℕ) (bytes : Bytes) :
    ∃ taken, (s.write fault bytes).1.disk = s.disk.write s.log.file taken ∧
      (s.write fault bytes).1.log.file = s.log.file ∧
      (s.write fault bytes).1.log.base = s.log.base := by
  unfold write
  split
  · exact ⟨bytes, rfl, rfl, rfl⟩
  · exact ⟨_, rfl, rfl, rfl⟩

variable {fresh : Inode}

theorem Free.write (h : s.Free fresh) (fault : Option ℕ) (bytes : Bytes) :
    (s.write fault bytes).1.Free fresh := by
  obtain ⟨taken, hdisk, hfile, -⟩ := s.write_frame fault bytes
  rw [Free, hdisk, hfile]
  exact h

theorem wrote_rotate (h : s.Holds) (io : RotateIo) (hfree : s.Free fresh) :
    s.Wrote [] (s.rotate io fresh).1 := by
  unfold rotate
  split
  · exact ⟨(List.append_nil _).symm, rfl, h, rfl⟩
  next hrename =>
  obtain ⟨hlive, -⟩ := h.newest.resolve_right fun hnone => by simp [hnone.1] at hrename
  dsimp only
  split
  · refine ⟨?_, rfl, ⟨h.measured, .inr ⟨rfl, hlive⟩⟩, rfl⟩
    simp [stream, hlive, Disk.bytesOf]
  have hstream : stream { s with
      disk := s.disk.renameLive.createLive fresh
      dropped := s.dropped ++ s.disk.bytesOf s.disk.rotated } = s.stream ++ [] := by
    simp [stream, hlive, Disk.bytesOf, hfree.2]
  have hnew : (s.log.reopened fresh).written =
      ((s.disk.renameLive.createLive fresh).content fresh).length := by
    rw [Disk.createLive_content_self]
    rfl
  have hnewest : s.disk.live ≠ some fresh := hfree.1
  split
  · exact ⟨hstream, Nat.add_zero _, ⟨hnew, .inl ⟨rfl, hnewest⟩⟩, rfl⟩
  · exact ⟨hstream, Nat.add_zero _, ⟨hnew, .inl ⟨rfl, hnewest⟩⟩, rfl⟩

/-- The operation took some of `bytes`, and all of them where it worked. -/
def Took (s : OpenLog) (bytes : Bytes) (r : OpenLog × Bool) : Prop :=
  ∃ taken, taken <+: bytes ∧ s.Wrote taken r.1 ∧ (r.2 = true → taken = bytes)

variable {r : OpenLog × Bool} {go : OpenLog → OpenLog × Bool}

theorem Took.andThen {a b : Bytes} (h : s.Took a r) (hgo : r.1.Holds → r.1.Took b (go r.1)) :
    s.Took (a ++ b) (OpenLog.andThen r go) := by
  obtain ⟨taken, htaken, hwrote, hall⟩ := h
  rw [OpenLog.andThen]
  split
  · rename_i hok
    obtain rfl := hall hok
    obtain ⟨more, hmore, hwrote', hall'⟩ := hgo hwrote.holds
    exact ⟨taken ++ more, (List.prefix_append_right_inj _).2 hmore, hwrote.trans hwrote',
      fun h => by rw [hall' h]⟩
  · rename_i hfailed
    exact ⟨taken, htaken.trans (List.prefix_append ..), hwrote, fun hok => absurd hok hfailed⟩

theorem took_write (h : s.Holds) (fault : Option ℕ) (bytes : Bytes) :
    s.Took bytes (s.write fault bytes) := by
  unfold write
  split
  · refine ⟨bytes, List.prefix_refl _, ⟨h.stream_write .., (Nat.add_assoc ..).symm, ⟨?_, h.newest⟩, rfl⟩,
      fun _ => rfl⟩
    simp only [RotatingLog.wrote, Disk.write_content_self, List.length_append]
    rw [h.measured]
  · rename_i taken _
    refine ⟨bytes.take taken, List.take_prefix .., ⟨h.stream_write .., ?_, ⟨rfl, h.newest⟩, rfl⟩,
      fun hok => absurd hok Bool.false_ne_true⟩
    simp only [RotatingLog.stop, Disk.write_content_self, List.length_append]
    rw [← h.measured, Nat.add_assoc]

theorem took_rotate (h : s.Holds) (io : RotateIo) (hfree : s.Free fresh) :
    s.Took [] (s.rotate io fresh) :=
  ⟨[], List.prefix_refl _, wrote_rotate h io hfree, fun _ => rfl⟩

theorem took_append (h : s.Holds) (io : AppendIo) (hfree : s.Free fresh)
    (bytes : Bytes) : s.Took bytes (s.append io fresh bytes) := by
  unfold append
  split
  · exact took_write h io.first bytes
  · rename_i head _
    have hparts : s.Took (bytes.take head ++ ([] ++ bytes.drop head))
        (andThen (s.write io.first (bytes.take head)) fun s =>
          andThen (s.rotate io.rotate fresh) fun s => s.write io.second (bytes.drop head)) :=
      (took_write h io.first _).andThen fun h₁ =>
        (took_rotate h₁ io.rotate (hfree.write ..)).andThen fun h₂ => took_write h₂ io.second _
    rwa [List.nil_append, List.take_append_drop] at hparts

theorem took_closeLine (h : s.Holds) (io : HeldIo) {next : Inode} (hfree : s.Free next) :
    s.Took endOpenLine (s.closeLine io next) := by
  have hparts : s.Took (endOpenLine ++ []) (s.closeLine io next) :=
    (took_write h io.closing _).andThen fun h₁ => took_rotate h₁ io.rotate (hfree.write ..)
  rwa [List.append_nil] at hparts

theorem take_of_wrote {t : OpenLog} {taken bytes : Bytes} (h : s.Wrote taken t)
    (htaken : taken <+: bytes) : bytes.take (t.log.stop - s.log.stop) = taken := by
  rw [h.stop, Nat.add_sub_cancel_left, ← List.prefix_iff_eq_take.1 htaken]

theorem append_eq_headOf (log : RotatingLog) (bytes : Bytes) : log.append bytes =
    match headOf log bytes with
    | none => [.write bytes]
    | some head => [.write (bytes.take head), .rotate, .write (bytes.drop head)] := by
  unfold RotatingLog.append headOf
  split
  · rfl
  · split
    · rfl
    · cases bytes.findIdx? (· == lineFeed) <;> rfl

theorem write_none (s : OpenLog) (bytes : Bytes) : s.write none bytes =
    ({ s with disk := s.disk.write s.log.file bytes, log := s.log.wrote bytes }, true) := by
  simp [OpenLog.write]

theorem rotate_of_live (hlive : s.disk.live.isSome) (fresh : Inode) : s.rotate .works fresh =
    (⟨(s.disk.renameLive.createLive fresh).replaceSidecar ⟨s.log.stop, fresh⟩,
      s.dropped ++ s.disk.bytesOf s.disk.rotated, s.log.reopened fresh⟩, true) := by
  simp [OpenLog.rotate, RotateIo.works, hlive, RotatingLog.reopened, RotatingLog.stop]

/-- **An append in which everything works is the writer's call**, done frame by frame. -/
theorem append_refines_frames (hlive : s.disk.live.isSome) (fresh : Inode) (bytes stream : Bytes)
    (rest : List Frame) :
    ∃ frames, (Writer.work · fresh)^[frames] ⟨s.disk, stream, some s.log, .append bytes :: rest⟩ =
      ⟨(s.append .works fresh bytes).1.disk, stream ++ bytes, some (s.append .works fresh bytes).1.log,
        rest⟩ := by
  unfold OpenLog.append
  cases hhead : headOf s.log bytes with
  | none =>
    refine ⟨2, ?_⟩
    simp [Writer.work, Writer.frame, append_eq_headOf, hhead, write_none, AppendIo.works]
  | some head =>
    refine ⟨6, ?_⟩
    simp [Writer.work, Writer.frame, append_eq_headOf, hhead, write_none, AppendIo.works, andThen,
      rotate_of_live, hlive, RotatingLog.reopened, RotatingLog.stop]

/-! ### Runs -/

inductive Event where
  | append (bytes : Bytes) (io : AppendIo) (fresh : Inode)
  | appendHeld (bytes : Bytes) (io : HeldIo) (fresh next : Inode)

/-- The appends of an open log, one after the other, any of their operations failing. -/
def machine : Machine OpenLog Event where
  Enabled s
    | .append _ _ fresh => s.Free fresh
    | .appendHeld bytes io fresh next =>
      s.Free fresh ∧ (s.append io.append fresh bytes).1.Free next
  next s
    | .append bytes io fresh => (s.append io fresh bytes).1
    | .appendHeld bytes io fresh next => (s.appendHeld io fresh next bytes).1

instance : ∀ (s : OpenLog) (e : Event), Decidable (machine.Enabled s e)
  | s, .append _ _ fresh => inferInstanceAs (Decidable (s.Free fresh))
  | _, .appendHeld .. => inferInstanceAs (Decidable (_ ∧ _))

/-- **What a held append took.**  Whatever fails, what it returns as held is the start of the chunk
and the line end after it, it is what was written to the files, and the end moved by its length. -/
theorem wrote_appendHeld (h : s.Holds) {io : HeldIo} {next : Inode} {bytes : Bytes}
    (henabled : machine.Enabled s (.appendHeld bytes io fresh next)) :
    (s.appendHeld io fresh next bytes).2.1 <+: bytes ++ endOpenLine ∧
      s.Wrote (s.appendHeld io fresh next bytes).2.1 (s.appendHeld io fresh next bytes).1 ∧
      ((s.appendHeld io fresh next bytes).2.2 = true →
        bytes <+: (s.appendHeld io fresh next bytes).2.1) := by
  obtain ⟨taken, htaken, hwrote, hall⟩ := took_append h io.append henabled.1 bytes
  unfold appendHeld
  dsimp only
  split
  · rename_i hover
    rw [Bool.and_eq_true] at hover
    obtain rfl := hall hover.1
    obtain ⟨closing, hclosing, hclosed, -⟩ := took_closeLine hwrote.holds io henabled.2
    have htotal := hwrote.trans hclosed
    have hheld := take_of_wrote htotal ((List.prefix_append_right_inj _).2 hclosing)
    dsimp only
    rw [hheld]
    exact ⟨(List.prefix_append_right_inj _).2 hclosing, htotal, fun _ => List.prefix_append ..⟩
  · have hheld := take_of_wrote hwrote htaken
    dsimp only
    rw [hheld]
    exact ⟨htaken.trans (List.prefix_append ..), hwrote, fun hok => hall hok ▸ List.prefix_refl _⟩

/-- A log just opened: the live file held open, measured and recorded. -/
structure Opened (s : OpenLog) : Prop where
  live : s.disk.live = some s.log.file
  apart : s.disk.rotated ≠ some s.log.file
  measured : s.log.written = (s.disk.content s.log.file).length
  recorded : s.log.recorded s.disk = true

/-- What `RotatingLog::open` leaves, whatever files it found: the sidecar is written where it does not
say what was resolved. -/
theorem opened_load {d : Disk} {file : Inode} (hlive : d.live = some file)
    (hapart : d.rotated ≠ some file) (cap : ℕ) (dropped : Bytes) :
    Opened ⟨if (RotatingLog.load d file cap).recorded d then d
      else d.replaceSidecar ⟨(RotatingLog.load d file cap).base, file⟩, dropped,
      RotatingLog.load d file cap⟩ := by
  split
  · rename_i hrecorded
    exact ⟨hlive, hapart, rfl, hrecorded⟩
  · exact ⟨hlive, hapart, rfl, decide_eq_true rfl⟩

/-- In every state a log gets to its newest file is held open, whatever failed. -/
theorem Opened.holds_of_reaches {s₀ : OpenLog} (h₀ : s₀.Opened) (hr : machine.Reaches s₀ s) :
    s.Holds := by
  refine hr.invariant (fun a e ha henabled => ?_) ⟨h₀.measured, .inl ⟨h₀.live, h₀.apart⟩⟩
  cases e with
  | append bytes io fresh =>
    obtain ⟨_, -, hwrote, -⟩ := took_append ha io henabled bytes
    exact hwrote.holds
  | appendHeld bytes io fresh next => exact (wrote_appendHeld ha henabled).2.1.holds

/-! ### Recovering -/

/-- A rotation that creates its file, and records it unless the sidecar still names the file it
rotates. -/
def RotateSafe (s : OpenLog) (io : RotateIo) : Prop :=
  io.create = true ∧ (io.record = true ∨ s.log.recorded s.disk = true)

instance (s : OpenLog) (io : RotateIo) : Decidable (s.RotateSafe io) :=
  inferInstanceAs (Decidable (_ ∧ _))

/-- An append all of whose rotations are such. -/
def Safe (s : OpenLog) : Event → Prop
  | .append _ io _ => s.RotateSafe io.rotate
  | .appendHeld bytes io fresh _ =>
    s.RotateSafe io.append.rotate ∧ (s.append io.append fresh bytes).1.RotateSafe io.rotate

instance : ∀ (s : OpenLog) (e : Event), Decidable (s.Safe e)
  | s, .append _ io _ => inferInstanceAs (Decidable (s.RotateSafe io.rotate))
  | _, .appendHeld .. => inferInstanceAs (Decidable (_ ∧ _))

/-- Where the live file starts can be told from the files: the sidecar names the live file, or the
rotated one, which ends where the live one starts. -/
structure Sits (s : OpenLog) : Prop where
  live : s.disk.live = some s.log.file
  apart : s.disk.rotated ≠ some s.log.file
  measured : s.log.written = (s.disk.content s.log.file).length
  sidecar : s.log.recorded s.disk = true ∨ ∃ old start, s.disk.rotated = some old ∧
    s.disk.sidecar = some ⟨start, old⟩ ∧ start + (s.disk.content old).length = s.log.base

theorem Opened.sits (h : s.Opened) : s.Sits :=
  ⟨h.live, h.apart, h.measured, .inl h.recorded⟩

theorem Sits.holds (h : s.Sits) : s.Holds := ⟨h.measured, .inl ⟨h.live, h.apart⟩⟩

theorem Sits.open_stop (h : s.Sits) : (Span.open s.disk).map Span.stop = some s.log.stop := by
  have hlive : s.disk.liveGeneration = some (s.disk.generation s.log.file) := by
    rw [Disk.liveGeneration, h.live]
    rfl
  have hexact : LogBase.resolve s.disk.sidecar s.disk.liveGeneration s.disk.rotatedGeneration =
      ⟨s.log.base, true⟩ := by
    obtain hrecorded | ⟨old, start, hrotated, hsidecar, hstart⟩ := h.sidecar
    · have hsidecar : s.disk.sidecar = some ⟨s.log.base, s.log.file⟩ := of_decide_eq_true hrecorded
      rw [hsidecar, hlive]
      simp [LogBase.resolve, Disk.generation]
    · have hne : s.log.file ≠ old := fun heq => h.apart (by rw [heq, hrotated])
      rw [hsidecar, hlive, Disk.rotatedGeneration, hrotated]
      simp [LogBase.resolve, Disk.generation, hne, hstart]
  rw [SpanOpen.open_of_exact hexact, hlive, Option.map_some, Span.ofOpened]
  simp only [Option.map_some, Option.toList_some, List.getLast?_append, List.getLast?_singleton,
    Option.some_or, Option.getD_some, Span.livePiece, Piece.stop, Disk.generation, RotatingLog.stop]
  rw [h.measured, Nat.max_eq_left (Nat.le_add_right ..)]

theorem recorded_write (s : OpenLog) (fault : Option ℕ) (bytes : Bytes) :
    (s.write fault bytes).1.log.recorded (s.write fault bytes).1.disk = s.log.recorded s.disk := by
  obtain ⟨taken, hdisk, hfile, hbase⟩ := s.write_frame fault bytes
  simp only [RotatingLog.recorded, hdisk, hfile, hbase, Disk.write_sidecar]

theorem Sits.write (h : s.Sits) (fault : Option ℕ) (bytes : Bytes) :
    (s.write fault bytes).1.Sits := by
  obtain ⟨taken, hdisk, hfile, hbase⟩ := s.write_frame fault bytes
  obtain ⟨_, -, hwrote, -⟩ := took_write h.holds fault bytes
  refine ⟨?_, ?_, hwrote.holds.measured, ?_⟩
  · rw [hdisk, hfile]
    exact h.live
  · rw [hdisk, hfile]
    exact h.apart
  · obtain hrecorded | ⟨old, start, hrotated, hsidecar, hstart⟩ := h.sidecar
    · exact .inl (by rw [recorded_write, hrecorded])
    · have hne : old ≠ s.log.file := fun heq => h.apart (by rw [← heq, hrotated])
      refine .inr ⟨old, start, ?_, ?_, ?_⟩
      · rw [hdisk]
        exact hrotated
      · rw [hdisk]
        exact hsidecar
      · rw [hdisk, hbase, Disk.write_content_ne _ _ hne, hstart]

theorem Sits.rotate (h : s.Sits) {io : RotateIo} (hsafe : s.RotateSafe io)
    (hfree : s.Free fresh) : (s.rotate io fresh).1.Sits := by
  unfold OpenLog.rotate
  split
  · exact h
  dsimp only
  rw [hsafe.1]
  have hne : s.log.file ≠ fresh := hfree.2
  split
  · rename_i hcreate
    cases hcreate
  split
  · -- the sidecar still names the file now rotated
    rename_i hrecord
    have hrecorded := hsafe.2.resolve_left (by simpa using hrecord)
    have hsidecar : s.disk.sidecar = some ⟨s.log.base, s.log.file⟩ := of_decide_eq_true hrecorded
    refine ⟨rfl, ?_, ?_, .inr ⟨s.log.file, s.log.base, h.live, hsidecar, ?_⟩⟩
    · simp only [Disk.createLive_rotated, Disk.renameLive_rotated, h.live, RotatingLog.reopened]
      simpa using hne
    · simp only [RotatingLog.reopened, Disk.createLive_content_self, List.length_nil]
    · rw [Disk.createLive_content_ne _ hne, Disk.renameLive_content, ← h.measured]
      rfl
  · refine ⟨rfl, ?_, ?_, .inl ?_⟩
    · simp only [Disk.replaceSidecar_rotated, Disk.createLive_rotated, Disk.renameLive_rotated, h.live,
        RotatingLog.reopened]
      simpa using hne
    · simp only [RotatingLog.reopened, Disk.replaceSidecar_content,
        Disk.createLive_content_self, List.length_nil]
    · exact decide_eq_true rfl

theorem Sits.rotate_write (h : s.Sits) {io : RotateIo} (hsafe : s.RotateSafe io)
    (hfree : s.Free fresh) (fault : Option ℕ) (bytes : Bytes) :
    ((s.write fault bytes).1.rotate io fresh).1.Sits := by
  refine (h.write fault bytes).rotate ?_ (hfree.write fault bytes)
  rw [RotateSafe, recorded_write]
  exact hsafe

theorem andThen_keeps {P : OpenLog → Prop}
    (h : P r.1) (hgo : P (go r.1).1) : P (andThen r go).1 := by
  unfold andThen
  split
  · exact hgo
  · exact h

theorem Sits.append (h : s.Sits) {io : AppendIo} (hsafe : s.RotateSafe io.rotate)
    (hfree : s.Free fresh) (bytes : Bytes) : (s.append io fresh bytes).1.Sits := by
  unfold OpenLog.append
  split
  · exact h.write io.first bytes
  · rename_i head _
    have hrotated := h.rotate_write hsafe hfree io.first (bytes.take head)
    exact andThen_keeps (h.write io.first _) (andThen_keeps hrotated (hrotated.write io.second _))

theorem Sits.appendHeld (h : s.Sits) {io : HeldIo} {next : Inode} {bytes : Bytes}
    (hsafe : s.Safe (.appendHeld bytes io fresh next))
    (henabled : machine.Enabled s (.appendHeld bytes io fresh next)) :
    (s.appendHeld io fresh next bytes).1.Sits := by
  have happended := h.append hsafe.1 henabled.1 bytes
  unfold OpenLog.appendHeld
  dsimp only
  split
  · exact andThen_keeps (happended.write io.closing _)
      (happended.rotate_write hsafe.2 henabled.2 io.closing _)
  · exact happended

theorem write_works (s : OpenLog) (bytes : Bytes) : (s.write none bytes).2 = true := by rw [write_none]

theorem Sits.rotate_works (h : s.Sits) (fresh : Inode) : (s.rotate .works fresh).2 = true := by
  rw [rotate_of_live (by rw [h.live]; rfl)]

theorem andThen_works (h : r.2 = true) (hgo : (go r.1).2 = true) : (andThen r go).2 = true := by
  rw [andThen, if_pos h, hgo]

/-- Once everything works, an append does. -/
theorem Sits.append_works (h : s.Sits) (fresh : Inode) (bytes : Bytes) :
    (s.append .works fresh bytes).2 = true := by
  unfold OpenLog.append
  split
  · exact write_works s bytes
  · rename_i head _
    exact andThen_works (write_works s _)
      (andThen_works ((h.write none _).rotate_works fresh) (write_works _ _))

theorem Sits.appendHeld_works (h : s.Sits) (hfree : s.Free fresh)
    (next : Inode) (bytes : Bytes) : (s.appendHeld .works fresh next bytes).2.2 = true := by
  have happended : (s.append .works fresh bytes).1.Sits := h.append ⟨rfl, .inl rfl⟩ hfree bytes
  unfold OpenLog.appendHeld
  dsimp only
  split
  · exact andThen_works (write_works _ _) ((happended.write none _).rotate_works next)
  · exact h.append_works fresh bytes

/-- **The log recovers.**  In every run in which no create fails, and a sidecar write fails only where
the sidecar still names the file being rotated, a reader finds the log's end after every append; and
as soon as everything works, every append succeeds and all of its bytes are in the log's files, after
those that were. -/
theorem log_recovers {s₀ s : OpenLog} (h₀ : s₀.Opened) (hr : (machine.restrict Safe).Reaches s₀ s) :
    (Span.open s.disk).map Span.stop = some s.log.stop ∧
      (∀ fresh bytes, s.Free fresh → (s.append .works fresh bytes).2 = true ∧
        (s.append .works fresh bytes).1.stream = s.stream ++ bytes) ∧
      ∀ fresh next bytes, machine.Enabled s (.appendHeld bytes .works fresh next) →
        (s.appendHeld .works fresh next bytes).2.2 = true ∧
          bytes <+: (s.appendHeld .works fresh next bytes).2.1 ∧
          (s.appendHeld .works fresh next bytes).1.stream =
            s.stream ++ (s.appendHeld .works fresh next bytes).2.1 := by
  have hsits : s.Sits := by
    refine hr.invariant_restrict (fun a e ha henabled hsafe => ?_) h₀.sits
    cases e with
    | append bytes io fresh => exact ha.append hsafe henabled bytes
    | appendHeld bytes io fresh next => exact ha.appendHeld hsafe henabled
  refine ⟨hsits.open_stop, fun fresh bytes hfree => ?_, fun fresh next bytes henabled => ?_⟩
  · obtain ⟨taken, -, hwrote, hall⟩ := took_append hsits.holds .works hfree bytes
    have hworks := hsits.append_works fresh bytes
    exact ⟨hworks, by rw [hwrote.stream, hall hworks]⟩
  · obtain ⟨-, hwrote, hall⟩ := wrote_appendHeld hsits.holds henabled
    have hworks := hsits.appendHeld_works henabled.1 next bytes
    exact ⟨hworks, hall hworks, hwrote.stream⟩

def fullLog : OpenLog where
  disk := ⟨fun file => if file = 1 then [97, 97, 97, 10] else [], some 1, none, some ⟨0, 1⟩⟩
  dropped := []
  log := ⟨1, 4, 0, 4, 0, true⟩

theorem fullLog_opened : fullLog.Opened := ⟨rfl, by decide, rfl, rfl⟩

/-- A rename that fails, a sidecar write that fails once, and a write that fails part way. -/
def mendedRun : List Event :=
  [.append [98, 10] ⟨none, ⟨false, true, true⟩, none⟩ 2,
    .append [98, 10] ⟨none, ⟨true, true, false⟩, none⟩ 2,
    .append [98, 10] ⟨some 1, .works, none⟩ 3]

theorem log_recovers_after_three :
    (Span.open (machine.play fullLog mendedRun).disk).map Span.stop = some 5 :=
  have hplays : (machine.restrict Safe).Plays fullLog mendedRun := by decide
  (log_recovers fullLog_opened (Machine.reaches_play_restrict hplays)).1

def createFails : List Event := [.append [98, 10] ⟨none, ⟨true, false, true⟩, none⟩ 2]

def recordFailsTwice : List Event :=
  [.append [98, 10] ⟨none, ⟨true, true, false⟩, none⟩ 2,
    .append [98, 98, 98, 98, 10] .works 3,
    .append [99, 10] ⟨none, ⟨true, true, false⟩, none⟩ 3]

/-- A create that fails once leaves no live file to rename, so with everything working again an
append that would rotate fails and writes nothing.  Two sidecar writes that fail in a row leave a
sidecar naming neither file, so a reader finds another end than the log's. -/
theorem log_does_not_recover :
    (machine.Plays fullLog createFails ∧
      ((machine.play fullLog createFails).append .works 3 [99, 10]).2 = false ∧
      ((machine.play fullLog createFails).append .works 3 [99, 10]).1.stream =
        (machine.play fullLog createFails).stream) ∧
    (machine.Plays fullLog recordFailsTwice ∧
      (Span.open (machine.play fullLog recordFailsTwice).disk).map Span.stop = some 0 ∧
      (machine.play fullLog recordFailsTwice).log.stop = 9) := by
  decide

end OpenLog

end Muster.Log
