import Mathlib.Algebra.GroupWithZero.Nat
import Muster.Log.Files

/-!
# LogFollower — `logs -f` against a rotating writer

`LogFollower::pump` copies what was written since the last call: it drains the file it follows and,
once the live path names another file, opens that one, works out where it starts, catches up through
the rotated file and goes on there.  Each of these looks at the files at its own moment, so the model
is a machine of single file steps, run against the writer's.

The output is meant to tile the stream.  It does on every run in which no rotation overtakes a pump
between opening the live file and placing it; a rotation there makes the pump copy a file twice.
-/

namespace Muster.Log

/-- What the follower writes: bytes copied, or a gap of bytes lost and where output resumes. -/
inductive Output where
  | bytes (bs : Bytes)
  | gap (skipped resumed : ℕ)
  deriving DecidableEq, Repr

/-- The file being read, with the position of its handle, and where the next byte written sits in
the process's output. -/
structure LogFollower where
  file : Option (Inode × ℕ)
  next : ℕ
  deriving DecidableEq, Repr

/-- Which of a pump's drains is under way. -/
inductive Drain where
  | first
  | truncated
  | old
  | last
  deriving DecidableEq, Repr

/-- Where a pump stands.  A copy in progress has written `copied` bytes that `next` does not count
yet. -/
inductive Pump where
  | idle
  | drain (stage : Drain) (copied : ℕ)
  | stat
  | openLive
  | openRotated (file : Inode)
  | readSidecar (file : Inode) (rotated : Option Generation)
  | catchUp (file : Inode) (start : ℕ)
  | copyRotated (file : Inode) (start : ℕ) (rotated : Inode) (pos copied : ℕ)
  deriving DecidableEq, Repr

/-- The files a pump holds open beside the one followed. -/
def Pump.held : Pump → List Inode
  | .openRotated file | .readSidecar file _ | .catchUp file _ => [file]
  | .copyRotated file _ rotated _ _ => [file, rotated]
  | _ => []

/-- The writer's files, the follower, and what it has written. -/
structure Following where
  stored : Stored
  follower : LogFollower
  pump : Pump
  out : List Output

namespace Following

def new (s : Stored) (next : ℕ) : Following := ⟨s, ⟨none, next⟩, .idle, []⟩

/-- Reports the output from here to `to` as lost, when `to` is ahead. -/
def skipTo (w : Following) (to_ : ℕ) : Following :=
  if w.follower.next < to_ then
    { w with
      follower := { w.follower with next := to_ }
      out := w.out ++ [.gap (to_ - w.follower.next) to_] }
  else w

/-- The new live file becomes the one followed, from the first byte not yet written. -/
def follow (w : Following) (file : Inode) (start : ℕ) : Following :=
  { w with
    follower := { w.follower with file := some (file, w.follower.next - start) }
    pump := .drain .last 0 }

/-- A drain is over: `next` counts what it copied. -/
def drained (w : Following) (stage : Drain) (copied : ℕ) : Following :=
  { w with
    follower := { w.follower with next := w.follower.next + copied }
    pump :=
      match stage with
      | .first => .stat
      | .old => .openLive
      | .truncated | .last => .idle }

/-- The pump's next file step; a read returns at most `n + 1` bytes. -/
def step (w : Following) (n : ℕ) : Following :=
  let d := w.stored.disk
  match w.pump with
  | .idle => { w with pump := .drain .first 0 }
  | .drain stage copied =>
    match w.follower.file with
    | none => w.drained stage copied
    | some (file, pos) =>
      let chunk := ((d.content file).drop pos).take (n + 1)
      if chunk = [] then w.drained stage copied
      else
        { w with
          follower := { w.follower with file := some (file, pos + chunk.length) }
          pump := .drain stage (copied + chunk.length)
          out := w.out ++ [.bytes chunk] }
  | .stat =>
    match d.live with
    -- the live path is missing mid-rotation
    | none => { w with pump := .idle }
    | some current =>
      match w.follower.file with
      | none => { w with pump := .drain .old 0 }
      | some (file, pos) =>
        if file = current then
          if (d.content current).length < pos then
            { w with
              follower := { w.follower with file := some (file, 0) }
              pump := .drain .truncated 0 }
          else { w with pump := .idle }
        else { w with pump := .drain .old 0 }
  | .openLive =>
    match d.live with
    -- the open fails, and the pump with it
    | none => { w with pump := .idle }
    | some file => { w with pump := .openRotated file }
  | .openRotated file => { w with pump := .readSidecar file d.rotatedGeneration }
  | .readSidecar file rotated =>
    let start := (LogBase.resolve d.sidecar (some (d.generation file)) rotated).offset
    { w with pump := .catchUp file start }
  | .catchUp file start =>
    if start ≤ w.follower.next then w.follow file start
    else
      match d.rotated with
      | none => (w.skipTo start).follow file start
      | some rotated =>
        let rotatedStart := start - (d.content rotated).length
        let w := w.skipTo rotatedStart
        { w with pump := .copyRotated file start rotated (w.follower.next - rotatedStart) 0 }
  | .copyRotated file start rotated pos copied =>
    let chunk := ((d.content rotated).drop pos).take (n + 1)
    if chunk = [] then
      let w := { w with follower := { w.follower with next := w.follower.next + copied } }
      (w.skipTo start).follow file start
    else
      { w with
        pump := .copyRotated file start rotated (pos + chunk.length) (copied + chunk.length)
        out := w.out ++ [.bytes chunk] }

def held (w : Following) : List Inode := (w.follower.file.map Prod.fst).toList ++ w.pump.held

end Following

inductive FollowEvent where
  | write (e : FileEvent)
  | step (n : ℕ)
  deriving DecidableEq, Repr

namespace Following

/-- The interleavings of the writer's steps with one pump after another. -/
def machine : Machine Following FollowEvent where
  Enabled w
    | .write e => w.stored.Allows w.held e
    | .step _ => True
  next w
    | .write e => { w with stored := w.stored.apply e }
    | .step n => w.step n

instance : ∀ (w : Following) (e : FollowEvent), Decidable (machine.Enabled w e)
  | w, .write e => inferInstanceAs (Decidable (w.stored.Allows _ e))
  | _, .step _ => inferInstanceAs (Decidable True)

end Following

/-! ### Output that tiles the stream -/

/-- The output tiles `S` from `c` up to `p`: each chunk is the stretch of `S` at its position, and
each gap passes over the bytes it names. -/
inductive Tiles (S : Bytes) (c : ℕ) : List Output → ℕ → Prop
  | nil : Tiles S c [] c
  | bytes {out p bs} : Tiles S c out p → S.extract p (p + bs.length) = bs →
      p + bs.length ≤ S.length → Tiles S c (out ++ [.bytes bs]) (p + bs.length)
  | gap {out p q} : Tiles S c out p → p ≤ q → q ≤ S.length →
      Tiles S c (out ++ [.gap (q - p) q]) q

def Output.span : Output → ℕ
  | .bytes bs => bs.length
  | .gap skipped _ => skipped

variable {out : List Output}

theorem Tiles.position {S : Bytes} {c p : ℕ} (h : Tiles S c out p) :
    p = c + (out.map Output.span).sum := by
  induction h with
  | nil => simp
  | bytes _ _ _ ih =>
    simp only [List.map_append, List.map_cons, List.map_nil, List.sum_append, List.sum_cons,
      List.sum_nil, Output.span]
    omega
  | gap _ hpq _ ih =>
    simp only [List.map_append, List.map_cons, List.map_nil, List.sum_append, List.sum_cons,
      List.sum_nil, Output.span]
    omega

theorem Tiles.last_bytes {S : Bytes} {c p : ℕ} {bs : Bytes} (h : Tiles S c (out ++ [.bytes bs]) p) :
    ∃ q, Tiles S c out q ∧ S.extract q (q + bs.length) = bs := by
  generalize hout : out ++ [Output.bytes bs] = all at h
  cases h with
  | nil => simp at hout
  | bytes ht heq _ =>
    obtain ⟨rfl, hbs⟩ := List.append_inj' hout rfl
    obtain rfl : bs = _ := by simpa using hbs
    exact ⟨_, ht, heq⟩
  | gap ht _ _ =>
    obtain ⟨-, hbs⟩ := List.append_inj' hout rfl
    simp at hbs

theorem Tiles.grow {S T : Bytes} {c p : ℕ} (h : Tiles S c out p)
    (hST : S <+: T) : Tiles T c out p := by
  obtain ⟨U, rfl⟩ := hST
  induction h with
  | nil => exact .nil
  | bytes _ heq hle ih =>
    refine .bytes ih ?_ ?_
    · rw [extract_append_of_le _ _ hle]
      exact heq
    · rw [List.length_append]
      omega
  | gap _ hpq hle ih =>
    refine .gap ih hpq ?_
    rw [List.length_append]
    omega

theorem Stored.Placed.read {s : Stored} {file : Inode} (h : s.Placed file) (pos n : ℕ) :
    s.stream.extract (s.starts file + pos)
        (s.starts file + pos + (((s.disk.content file).drop pos).take n).length) =
      ((s.disk.content file).drop pos).take n ∧
    (((s.disk.content file).drop pos).take n ≠ [] →
      s.starts file + pos + (((s.disk.content file).drop pos).take n).length ≤ s.stop file) := by
  have hlen : (((s.disk.content file).drop pos).take n).length =
      min n ((s.disk.content file).length - pos) := by simp
  by_cases hpos : pos ≤ (s.disk.content file).length
  · refine ⟨?_, fun _ => ?_⟩
    · rw [hlen]
      conv_rhs => rw [h.1]
      rw [take_drop_extract]
      simp only [Stored.stop]
      congr 1
      omega
    · rw [hlen]
      simp only [Stored.stop]
      omega
  · have hnil : ((s.disk.content file).drop pos).take n = [] := by
      rw [List.drop_of_length_le (by omega), List.take_nil]
    rw [hnil]
    exact ⟨extract_of_le _ (by simp), fun hne => absurd rfl hne⟩

/-! ### The runs no rotation overtakes -/

/-- The live file a pump has opened and not yet placed in the stream. -/
def Pump.placing : Pump → Option Inode
  | .openRotated file | .readSidecar file _ | .catchUp file _ => some file
  | _ => none

/-- The live file a pump has opened and whose start it has not yet read. -/
def Pump.resolving : Pump → Option Inode
  | .openRotated file | .readSidecar file _ => some file
  | _ => none

/-- Bytes copied that `next` does not count yet. -/
def Pump.inFlight : Pump → ℕ
  | .drain _ copied | .copyRotated _ _ _ _ copied => copied
  | _ => 0

namespace Following

/-- The writer does not overtake a pump that is placing the live file it opened: it replaces the
sidecar only for that file until the pump has read it, and renames that file only when the pump has
nothing to catch up on before it. -/
def Undisturbed (w : Following) : FollowEvent → Prop
  | .write .record => ∀ file ∈ w.pump.resolving, w.stored.disk.live = some file
  | .write .rename => ∀ file ∈ w.pump.placing, w.stored.starts file ≤ w.follower.next
  | _ => True

instance : ∀ (w : Following) (e : FollowEvent), Decidable (w.Undisturbed e)
  | w, .write .record =>
    inferInstanceAs (Decidable (∀ file ∈ w.pump.resolving, w.stored.disk.live = some file))
  | w, .write .rename =>
    inferInstanceAs (Decidable (∀ file ∈ w.pump.placing, w.stored.starts file ≤ w.follower.next))
  | _, .write (.append _) => inferInstanceAs (Decidable True)
  | _, .write (.create _) => inferInstanceAs (Decidable True)
  | _, .step _ => inferInstanceAs (Decidable True)

end Following

/-- The file opened reaches at least to the follower's position `p`, and is still live while there
is something to catch up on before it. -/
structure Placing (s : Stored) (next p : ℕ) (file : Inode) : Prop where
  ahead : p ≤ s.stop file
  kept : next < s.starts file → s.disk.live = some file

/-- What a pump knows at each of its steps, at position `p`. -/
def PumpInv (s : Stored) (next p : ℕ) : Pump → Prop
  | .openRotated file =>
    Placing s next p file ∧
      (s.disk.live = some file ∨ s.disk.sidecar = some ⟨s.starts file, file⟩)
  | .readSidecar file rotated =>
    Placing s next p file ∧
      ((s.disk.live = some file ∧ rotated = s.disk.rotatedGeneration) ∨
        s.disk.sidecar = some ⟨s.starts file, file⟩)
  | .catchUp file start => Placing s next p file ∧ start = s.starts file
  | .copyRotated file start rotated pos _ =>
    start = s.starts file ∧ s.stop rotated = start ∧ s.disk.live ≠ some rotated ∧
      p = s.starts rotated + pos ∧ p ≤ start
  | _ => True

/-- The followed file's handle stands at the follower's position, except while the rotated file is
copied before a new file replaces it. -/
def Followed (s : Stored) (file : Option (Inode × ℕ)) (p : ℕ) : Pump → Prop
  | .copyRotated _ _ _ _ _ => True
  | _ => ∀ f pos, file = some (f, pos) → p = s.starts f + pos ∧ p ≤ s.stop f

namespace Following

structure Inv (c : ℕ) (w : Following) (p : ℕ) : Prop where
  sound : w.stored.Sound w.held
  tiles : Tiles w.stored.stream c w.out p
  within : p ≤ w.stored.stream.length
  at_ : p = w.follower.next + w.pump.inFlight
  followed : Followed w.stored w.follower.file p w.pump
  pump : PumpInv w.stored w.follower.next p w.pump

theorem new_inv {s : Stored} (hs : s.Sound []) {c : ℕ} (hc : c ≤ s.stream.length) :
    Inv c (new s c) c where
  sound := hs
  tiles := .nil
  within := hc
  at_ := by simp [new, Pump.inFlight]
  followed := by simp [new, Followed]
  pump := trivial

end Following

/-! ### The writer's steps -/

section Write

variable {s : Stored} {held : List Inode} {next p : ℕ} {file : Inode} {e : FileEvent}

theorem Placing.write (h : Placing s next p file) (hs : s.Sound held) (hheld : file ∈ held)
    (he : s.Allows held e) (hok : e = .rename → s.starts file ≤ next) :
    Placing (s.apply e) next p file where
  ahead := by
    have hg := hs.grows he
    have hlen := (hg.content file hheld).length_le
    have := h.ahead
    simp only [Stored.stop, hg.starts file hheld] at this ⊢
    omega
  kept hlt := by
    rw [(hs.grows he).starts file hheld] at hlt
    refine (hs.live_kept he (h.kept hlt) ?_).1
    rintro rfl
    exact absurd (hok rfl) (Nat.not_le.mpr hlt)

/-- The sidecar goes on naming a file that is no longer live until it is replaced for another. -/
theorem sidecar_write (hs : s.Sound held) (hheld : file ∈ held) (he : s.Allows held e)
    (hok : e = .record → s.disk.live = some file)
    (h : s.disk.sidecar = some ⟨s.starts file, file⟩) :
    (s.apply e).disk.sidecar = some ⟨(s.apply e).starts file, file⟩ := by
  rw [(hs.grows he).starts file hheld]
  by_cases hrec : e = .record
  · subst hrec
    rw [Stored.apply_record_of_live (hok rfl)]
    rfl
  · rw [Stored.sidecar_kept hrec]
    exact h

theorem PumpInv.write {pump : Pump} (h : PumpInv s next p pump) (hs : s.Sound held)
    (hheld : ∀ f ∈ pump.held, f ∈ held) (he : s.Allows held e)
    (hrename : ∀ f, pump.placing = some f → e = .rename → s.starts f ≤ next)
    (hrecord : ∀ f, pump.resolving = some f → e = .record → s.disk.live = some f) :
    PumpInv (s.apply e) next p pump := by
  have hg := hs.grows he
  cases pump with
  | openRotated file =>
    have hfile : file ∈ held := hheld file (by simp [Pump.held])
    refine ⟨h.1.write hs hfile he (hrename file rfl), ?_⟩
    rcases h.2 with hl | hside
    · by_cases hren : e = .rename
      · subst hren
        exact Or.inr (hs.shape.sidecar_of_settled he hl)
      · exact Or.inl (hs.live_kept he hl hren).1
    · exact Or.inr (sidecar_write hs hfile he (hrecord file rfl) hside)
  | readSidecar file rotated =>
    have hfile : file ∈ held := hheld file (by simp [Pump.held])
    refine ⟨h.1.write hs hfile he (hrename file rfl), ?_⟩
    rcases h.2 with ⟨hl, hr⟩ | hside
    · by_cases hren : e = .rename
      · subst hren
        exact Or.inr (hs.shape.sidecar_of_settled he hl)
      · obtain ⟨hl', hr'⟩ := hs.live_kept he hl hren
        exact Or.inl ⟨hl', hr.trans hr'.symm⟩
    · exact Or.inr (sidecar_write hs hfile he (hrecord file rfl) hside)
  | catchUp file start =>
    have hfile : file ∈ held := hheld file (by simp [Pump.held])
    exact ⟨h.1.write hs hfile he (hrename file rfl), h.2.trans (hg.starts file hfile).symm⟩
  | copyRotated file start rotated pos copied =>
    obtain ⟨hstart, hstop, hne, hpos, hle⟩ := h
    have hfile : file ∈ held := hheld file (by simp [Pump.held])
    have hrot : rotated ∈ held := hheld rotated (by simp [Pump.held])
    obtain ⟨hc, hne'⟩ := hg.still rotated hrot hne
    refine ⟨hstart.trans (hg.starts file hfile).symm, ?_, hne', ?_, hle⟩
    · rw [Stored.stop, hc, hg.starts rotated hrot]
      exact hstop
    · rw [hg.starts rotated hrot]
      exact hpos
  | _ => trivial

theorem Followed.write {pump : Pump} {file : Option (Inode × ℕ)} (h : Followed s file p pump)
    (hs : s.Sound held) (hheld : ∀ f pos, file = some (f, pos) → f ∈ held)
    (he : s.Allows held e) : Followed (s.apply e) file p pump := by
  have hg := hs.grows he
  unfold Followed at h ⊢
  split at h
  · trivial
  · intro f pos hf
    obtain ⟨hp, hstop⟩ := h f pos hf
    have hlen := (hg.content f (hheld f pos hf)).length_le
    refine ⟨by rw [hg.starts f (hheld f pos hf)]; exact hp, ?_⟩
    simp only [Stored.stop, hg.starts f (hheld f pos hf)] at hstop ⊢
    omega

theorem Following.Inv.write {c : ℕ} {w : Following} (h : w.Inv c p)
    (he : w.stored.Allows w.held e) (hok : w.Undisturbed (.write e)) :
    Following.Inv c { w with stored := w.stored.apply e } p := by
  have hg := h.sound.grows he
  have hrename : ∀ f, w.pump.placing = some f → e = .rename →
      w.stored.starts f ≤ w.follower.next := by
    rintro f hf rfl
    exact hok f hf
  have hrecord : ∀ f, w.pump.resolving = some f → e = .record →
      w.stored.disk.live = some f := by
    rintro f hf rfl
    exact hok f hf
  exact ⟨h.sound.apply he, h.tiles.grow hg.stream,
    Nat.le_trans h.within hg.stream.length_le, h.at_,
    h.followed.write h.sound (fun f pos hf => by simp [Following.held, hf]) he,
    h.pump.write h.sound (fun f hf => List.mem_append_right _ hf) he hrename hrecord⟩

end Write

/-! ### The pump's steps -/

namespace Following

section Step

variable {c p n copied start : ℕ} {w : Following} {stage : Drain} {file : Inode}
  {rotated : Option Generation}

theorem Inv.drained (h : w.Inv c p) (hp : w.pump = .drain stage copied) :
    (w.drained stage copied).Inv c p := by
  have hf := h.followed
  have hat := h.at_
  have hs := h.sound
  rw [hp] at hf hat
  simp only [held, hp, Pump.held, List.append_nil] at hs
  simp only [Pump.inFlight] at hat
  cases stage <;> refine ⟨?_, h.tiles, h.within, ?_, ?_, trivial⟩ <;>
    simpa [Following.drained, held, Pump.held, Pump.inFlight, Followed] using (by assumption)

theorem Inv.step_drain (h : w.Inv c p) (hp : w.pump = .drain stage copied) :
    ∃ q, (w.step n).Inv c q := by
  cases hfile : w.follower.file with
  | none =>
    refine ⟨p, ?_⟩
    simpa only [step, hp, hfile] using h.drained hp
  | some f =>
    obtain ⟨file, pos⟩ := f
    have hs := h.sound
    have hf := h.followed
    have hat := h.at_
    rw [hp] at hf hat
    obtain ⟨hpos, -⟩ := hf file pos hfile
    have hplaced := hs.placed file (Or.inr (Or.inr (by simp [held, hfile])))
    obtain ⟨hread, hlen⟩ := hplaced.read pos (n + 1)
    by_cases hnil : ((w.stored.disk.content file).drop pos).take (n + 1) = []
    · refine ⟨p, ?_⟩
      simpa only [step, hp, hfile, hnil, if_true] using h.drained hp
    · have hlen := hlen hnil
      rw [← hpos] at hread hlen
      refine ⟨p + (((w.stored.disk.content file).drop pos).take (n + 1)).length, ?_⟩
      have hle := Nat.le_trans hlen hplaced.2
      simp only [step, hp, hfile, hnil, if_false]
      refine ⟨?_, h.tiles.bytes hread hle, hle, ?_, ?_, trivial⟩
      · simpa [held, hp, hfile, Pump.held] using hs
      · simp only [Pump.inFlight] at hat ⊢
        omega
      · intro f pos' hf'
        simp only [Option.some.injEq, Prod.mk.injEq] at hf'
        obtain ⟨rfl, rfl⟩ := hf'
        refine ⟨?_, hlen⟩
        show p + _ = w.stored.starts file + (pos + _)
        omega

theorem Inv.step_stat (h : w.Inv c p) (hp : w.pump = .stat) : (w.step n).Inv c p := by
  have hs := h.sound
  have hf := h.followed
  have hat := h.at_
  simp only [held, hp, Pump.held, List.append_nil] at hs
  simp only [hp, Pump.inFlight] at hat
  rw [hp] at hf
  have hidle : Inv c { w with pump := .idle } p :=
    ⟨by simpa [held, Pump.held] using hs, h.tiles, h.within, hat, hf, trivial⟩
  have hold : Inv c { w with pump := .drain .old 0 } p :=
    ⟨by simpa [held, Pump.held] using hs, h.tiles, h.within, hat, hf, trivial⟩
  cases hlive : w.stored.disk.live with
  | none => simpa only [step, hp, hlive] using hidle
  | some current =>
    cases hfile : w.follower.file with
    | none => simpa only [step, hp, hlive, hfile] using hold
    | some f =>
      obtain ⟨file, pos⟩ := f
      by_cases hcur : file = current
      · -- the file only grew since it was read, so it was not truncated
        have hpos : ¬ (w.stored.disk.content current).length < pos := by
          have := hf file pos hfile
          simp only [Stored.stop, hcur] at this
          omega
        simpa only [step, hp, hlive, hfile, hcur, hpos, if_true, if_false] using hidle
      · simpa only [step, hp, hlive, hfile, hcur, if_false] using hold

theorem Inv.step_openLive (h : w.Inv c p) (hp : w.pump = .openLive) : (w.step n).Inv c p := by
  have hs := h.sound
  have hf := h.followed
  have hat := h.at_
  simp only [held, hp, Pump.held, List.append_nil] at hs
  simp only [hp, Pump.inFlight] at hat
  rw [hp] at hf
  cases hlive : w.stored.disk.live with
  | none =>
    simp only [step, hp, hlive]
    exact ⟨by simpa [held, Pump.held] using hs, h.tiles, h.within, hat, hf, trivial⟩
  | some file =>
    simp only [step, hp, hlive]
    refine ⟨hs.hold ?_, h.tiles, h.within, hat, hf, ⟨?_, fun _ => hlive⟩, Or.inl hlive⟩
    · intro f hf
      rcases List.mem_append.mp hf with hf | hf
      · exact Or.inr (Or.inr hf)
      · obtain rfl : f = file := by simpa [Pump.held] using hf
        exact Or.inl hlive
    · rw [hs.live_stop file hlive]
      exact h.within

theorem Inv.step_openRotated (h : w.Inv c p) (hp : w.pump = .openRotated file) :
    (w.step n).Inv c p := by
  have hs := h.sound
  have hf := h.followed
  have hat := h.at_
  have hpump := h.pump
  rw [hp] at hf hpump hat
  simp only [held, hp] at hs
  simp only [step, hp]
  refine ⟨hs, h.tiles, h.within, hat, hf, hpump.1, ?_⟩
  rcases hpump.2 with hl | hside
  · exact Or.inl ⟨hl, rfl⟩
  · exact Or.inr hside

theorem resolve_start {s : Stored} {held : List Inode} (hs : s.Sound held)
    (h : (s.disk.live = some file ∧ rotated = s.disk.rotatedGeneration) ∨
      s.disk.sidecar = some ⟨s.starts file, file⟩) :
    (LogBase.resolve s.disk.sidecar (some (s.disk.generation file)) rotated).offset =
      s.starts file := by
  rcases h with ⟨hl, rfl⟩ | hside
  · have hres := congrArg Resolved.offset hs.resolve
    have hstop := hs.live_stop file hl
    simp only [Disk.liveGeneration, Disk.bytesOf, hl, Option.map_some, Option.getD_some] at hres
    simp only [Stored.stop] at hstop
    omega
  · simp [LogBase.resolve, hside, Disk.generation]

theorem Inv.step_readSidecar (h : w.Inv c p)
    (hp : w.pump = .readSidecar file rotated) : (w.step n).Inv c p := by
  have hs := h.sound
  have hf := h.followed
  have hat := h.at_
  have hpump := h.pump
  rw [hp] at hf hpump hat
  have hstart := resolve_start hs hpump.2
  simp only [held, hp] at hs
  simp only [step, hp]
  exact ⟨hs, h.tiles, h.within, hat, hf, hpump.1, hstart⟩

theorem follow_inv {next : ℕ} (hs : w.stored.Sound w.held) (ht : Tiles w.stored.stream c w.out p)
    (hw : p ≤ w.stored.stream.length) (hnext : w.follower.next = next) (hp : p = next)
    (hheld : file ∈ w.held) (hstart : start = w.stored.starts file) (hle : start ≤ next)
    (hstop : p ≤ w.stored.stop file) : (w.follow file start).Inv c p := by
  refine ⟨hs.hold ?_, ht, hw, ?_, ?_, trivial⟩
  · intro f hf
    obtain rfl : f = file := by simpa [held, Following.follow, Pump.held] using hf
    exact Or.inr (Or.inr hheld)
  · simp only [Following.follow, Pump.inFlight]
    omega
  · intro f pos hf
    simp only [Following.follow, Option.some.injEq, Prod.mk.injEq] at hf
    obtain ⟨rfl, rfl⟩ := hf
    exact ⟨by simp only [Following.follow]; omega, hstop⟩

@[simp] theorem skipTo_stored (w : Following) (q : ℕ) : (w.skipTo q).stored = w.stored := by
  unfold skipTo
  split <;> rfl

@[simp] theorem skipTo_file (w : Following) (q : ℕ) :
    (w.skipTo q).follower.file = w.follower.file := by
  unfold skipTo
  split <;> rfl

@[simp] theorem skipTo_next (w : Following) (q : ℕ) :
    (w.skipTo q).follower.next = max w.follower.next q := by
  unfold skipTo
  by_cases hq : w.follower.next < q
  · rw [if_pos hq]
    exact (Nat.max_eq_right (Nat.le_of_lt hq)).symm
  · rw [if_neg hq]
    exact (Nat.max_eq_left (Nat.le_of_not_lt hq)).symm

theorem skipTo_tiles {S : Bytes} (h : Tiles S c w.out w.follower.next) {q : ℕ}
    (hq : q ≤ S.length) : Tiles S c (w.skipTo q).out (w.skipTo q).follower.next := by
  unfold skipTo
  by_cases hlt : w.follower.next < q
  · rw [if_pos hlt]
    exact h.gap (Nat.le_of_lt hlt) hq
  · rw [if_neg hlt]
    exact h

theorem Inv.step_catchUp (h : w.Inv c p) (hp : w.pump = .catchUp file start) :
    ∃ q, (w.step n).Inv c q := by
  have hs := h.sound
  have hat := h.at_
  obtain ⟨hplacing, hstart⟩ : PumpInv _ _ _ (.catchUp file start) := hp ▸ h.pump
  simp only [hp, Pump.inFlight, Nat.add_zero] at hat
  have hheld : file ∈ w.held := by simp [held, hp, Pump.held]
  by_cases hle : start ≤ w.follower.next
  · refine ⟨p, ?_⟩
    simp only [step, hp, if_pos hle]
    exact follow_inv hs h.tiles h.within rfl hat hheld hstart hle hplacing.ahead
  · have hlive := hplacing.kept (by omega)
    cases hrot : w.stored.disk.rotated with
    | none =>
      have := hs.live_first file hlive hrot
      omega
    | some r =>
      have hstop := hs.rotated_stop file r hlive hrot
      have hrstart : start - (w.stored.disk.content r).length = w.stored.starts r := by
        simp only [Stored.stop] at hstop
        omega
      have hrle : w.stored.starts r ≤ start := by
        simp only [Stored.stop] at hstop
        omega
      have hlen := hs.live_stop file hlive
      have hsl : w.stored.starts file ≤ w.stored.stream.length := hlen ▸ Nat.le_add_right _ _
      -- what the rotated file no longer holds is a gap
      have htiles := skipTo_tiles (q := w.stored.starts r) (hat ▸ h.tiles) (by omega)
      refine ⟨(w.skipTo (w.stored.starts r)).follower.next, ?_⟩
      simp only [step, hp, if_neg hle, hrot, hrstart]
      refine ⟨?_, by simpa using htiles, ?_, rfl, trivial, ?_⟩
      · rw [skipTo_stored]
        refine hs.hold fun f hf => ?_
        simp only [held, Pump.held, skipTo_file, List.mem_append, List.mem_cons,
          List.not_mem_nil, or_false] at hf
        rcases hf with hf | rfl | rfl
        · exact Or.inr (Or.inr (List.mem_append_left _ hf))
        · exact Or.inr (Or.inr hheld)
        · exact Or.inr (Or.inl hrot)
      · simp only [skipTo_next, skipTo_stored]
        omega
      · simp only [PumpInv, skipTo_next, skipTo_stored]
        refine ⟨hstart, hstop.trans hstart.symm, fun hl => hs.live_ne r hl hrot, ?_, ?_⟩ <;> omega

theorem Inv.step_copyRotated {r : Inode} {pos : ℕ} (h : w.Inv c p)
    (hp : w.pump = .copyRotated file start r pos copied) : ∃ q, (w.step n).Inv c q := by
  have hs := h.sound
  have hat := h.at_
  obtain ⟨hstart, hstop, hne, hpos, hle⟩ :
      PumpInv _ _ _ (.copyRotated file start r pos copied) := hp ▸ h.pump
  simp only [hp, Pump.inFlight] at hat
  have hplaced := hs.placed r (Or.inr (Or.inr (by simp [held, hp, Pump.held])))
  obtain ⟨hread, hlen⟩ := hplaced.read pos (n + 1)
  by_cases hnil : ((w.stored.disk.content r).drop pos).take (n + 1) = []
  · -- the rotated file is read to its end, which is where the live one starts
    have hend : (w.stored.disk.content r).length ≤ pos := by
      have := congrArg List.length hnil
      simp only [List.length_take, List.length_drop, List.length_nil] at this
      omega
    have hpstart : p = start := by
      simp only [Stored.stop] at hstop
      omega
    have hskip : skipTo { w with follower := { w.follower with
        next := w.follower.next + copied } } start =
        { w with follower := { w.follower with next := w.follower.next + copied } } := by
      unfold skipTo
      exact if_neg (by simp only; omega)
    refine ⟨p, ?_⟩
    simp only [step, hp, hnil, if_true]
    have hskip' := hskip
    rw [hp] at hskip'
    rw [hskip']
    refine follow_inv ?_ h.tiles h.within ?_ rfl ?_ hstart ?_ ?_
    · simpa only [held, hp] using hs
    · exact hat.symm
    · simp [held, Pump.held]
    · omega
    · rw [hpstart, hstart]
      exact Nat.le_add_right _ _
  · have hlen := hlen hnil
    rw [← hpos] at hread hlen
    have hq := Nat.le_trans hlen hplaced.2
    refine ⟨p + (((w.stored.disk.content r).drop pos).take (n + 1)).length, ?_⟩
    simp only [step, hp, hnil, if_false]
    refine ⟨by simpa only [held, hp, Pump.held] using hs, h.tiles.bytes hread hq, hq, ?_, trivial,
      hstart, hstop, hne, ?_, ?_⟩
    · simp only [Pump.inFlight]
      omega
    · simp only
      omega
    · rw [hstop] at hlen
      exact hlen

/-- **Every step of a pump continues the tiling.** -/
theorem Inv.step (h : w.Inv c p) (n : ℕ) : ∃ q, (w.step n).Inv c q := by
  cases hp : w.pump with
  | idle =>
    have hs := h.sound
    have hf := h.followed
    have hat := h.at_
    simp only [held, hp] at hs
    rw [hp] at hf hat
    refine ⟨p, ?_⟩
    simp only [Following.step, hp]
    exact ⟨hs, h.tiles, h.within, hat, hf, trivial⟩
  | drain stage copied => exact h.step_drain hp
  | stat => exact ⟨p, h.step_stat hp⟩
  | openLive => exact ⟨p, h.step_openLive hp⟩
  | openRotated file => exact ⟨p, h.step_openRotated hp⟩
  | readSidecar file rotated => exact ⟨p, h.step_readSidecar hp⟩
  | catchUp file start => exact h.step_catchUp hp
  | copyRotated file start rotated pos copied => exact h.step_copyRotated hp

end Step

theorem step_inv {c : ℕ} {w : Following} {e : FollowEvent} (h : ∃ p, w.Inv c p)
    (he : machine.Enabled w e) (hok : w.Undisturbed e) : ∃ p, (machine.next w e).Inv c p := by
  obtain ⟨p, h⟩ := h
  cases e with
  | write e => exact ⟨p, h.write he hok⟩
  | step n => exact h.step n

/-- **The output tiles the stream on every run no rotation overtakes.**  From a cursor inside the
stream, what was copied and what was reported lost account, in order and once, for every byte up to
the follower's position; between pumps that position is `next`. -/
theorem follower_tiles_stream {s : Stored} (hs : Stored.writer.Reaches .empty s) {c : ℕ}
    (hc : c ≤ s.stream.length) {w : Following}
    (hr : (machine.restrict Undisturbed).Reaches (new s c) w) :
    ∃ p, Tiles w.stored.stream c w.out p ∧ p ≤ w.stored.stream.length ∧
      p = c + (w.out.map Output.span).sum ∧ (w.pump = .idle → w.follower.next = p) := by
  obtain ⟨p, h⟩ := hr.invariant_restrict (P := fun w => ∃ p, w.Inv c p)
    (fun _ _ => step_inv) ⟨c, new_inv (Stored.reaches_sound hs) hc⟩
  refine ⟨p, h.tiles, h.within, h.tiles.position, fun hidle => ?_⟩
  have hat := h.at_
  simp only [hidle, Pump.inFlight, Nat.add_zero] at hat
  exact hat.symm

def oneLine : Stored := Stored.writer.play .empty [.create 1, .record, .append [97, 10]]

def pumpedRun : List FollowEvent :=
  List.replicate 9 (.step 9) ++
    [.write .rename, .write (.create 2), .write .record, .write (.append [98, 10])] ++
    List.replicate 11 (.step 9)

theorem pumped_follower_tiles :
    (machine.play (new oneLine 0) pumpedRun).out = [.bytes [97, 10], .bytes [98, 10]] ∧
    Tiles (machine.play (new oneLine 0) pumpedRun).stored.stream 0
      (machine.play (new oneLine 0) pumpedRun).out 4 := by
  have hlog : Stored.writer.Reaches .empty oneLine := Machine.reaches_play (by decide)
  have hrun : (machine.restrict Undisturbed).Reaches (new oneLine 0)
      (machine.play (new oneLine 0) pumpedRun) := Machine.reaches_play_restrict (by decide)
  have hout : (machine.play (new oneLine 0) pumpedRun).out =
      [.bytes [97, 10], .bytes [98, 10]] := by decide
  obtain ⟨p, ht, -, hp, -⟩ := follower_tiles_stream hlog (by decide) hrun
  refine ⟨hout, ?_⟩
  rw [hout] at hp
  exact (show p = 4 from hp) ▸ ht

/-- A pump opens the live file; a whole rotation passes; the pump then reads a sidecar that names
neither file it knows. -/
def overtakenRun : List FollowEvent :=
  List.replicate 5 (.step 9) ++
    [.write .rename, .write (.create 2), .write .record, .write (.append [98, 10])] ++
    List.replicate 7 (.step 9)

/-- **An overtaken pump repeats a line and loses another.**  The stream is two lines; the follower
writes the first of them twice, reports no gap, and counts itself past both. -/
theorem overtaken_follower_repeats :
    machine.Reaches (new oneLine 0) (machine.play (new oneLine 0) overtakenRun) ∧
    (machine.play (new oneLine 0) overtakenRun).pump = .idle ∧
    (machine.play (new oneLine 0) overtakenRun).stored.stream = [97, 10, 98, 10] ∧
    (machine.play (new oneLine 0) overtakenRun).out = [.bytes [97, 10], .bytes [97, 10]] ∧
    (machine.play (new oneLine 0) overtakenRun).follower.next = 4 ∧
    ¬ ∃ p, Tiles (machine.play (new oneLine 0) overtakenRun).stored.stream 0
      (machine.play (new oneLine 0) overtakenRun).out p := by
  have hout : (machine.play (new oneLine 0) overtakenRun).out =
      [] ++ [.bytes [97, 10]] ++ [.bytes [97, 10]] := by decide
  have hstream : (machine.play (new oneLine 0) overtakenRun).stored.stream = [97, 10, 98, 10] := by
    decide
  refine ⟨Machine.reaches_play (by decide), by decide, hstream, hout, by decide, ?_⟩
  rintro ⟨p, h⟩
  rw [hout, hstream] at h
  -- the second line copied would have to be the stream's from two on
  obtain ⟨q, hq, hline⟩ := h.last_bytes
  have hpos : q = 2 := hq.position
  subst hpos
  exact absurd hline (by decide)

end Following

end Muster.Log
