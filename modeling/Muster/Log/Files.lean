import Mathlib.Logic.Function.Basic
import Muster.Lib.Extract
import Muster.Lib.Machine

/-!
# Files — the files of a rotating log and the stream they keep

A log is a live file, the one rotated generation before it, and a sidecar recording where the live
file starts in the process's output.  `Disk` is those names and the contents behind them.  The
writer changes them by four atomic steps: append to the live file, rename it over the rotated one,
create a new live file, replace the sidecar.  `Stored` adds what no file holds: the stream of all
bytes ever written, where in it each file starts, and how far a rotation has come.  `Sound` ties
the two together at every one of those points.

Offsets are natural numbers: the source's 64-bit sums saturate only past `2 ^ 64` bytes of output.
-/

namespace Muster.Log

abbrev Inode := ℕ

abbrev Bytes := List UInt8

def lineFeed : UInt8 := 10

/-- Ends the line a log was drawing: CAN, a cursor save, and a line break. -/
def endOpenLine : Bytes := [0x18, 0x1b, 0x37, 0x0d, 0x0a]

def runStartBytes : Bytes := endOpenLine ++ [0x1b, 0x63]

/-- Where in `runStartBytes` a run starts: at its reset. -/
def runResetAt : ℕ := endOpenLine.length

/-- The identity and length of a file, taken from its open handle. -/
structure Generation where
  inode : Inode
  len : ℕ
  deriving DecidableEq, Repr

/-- The sidecar: where the live file starts, and which file that was recorded for. -/
structure LogBase where
  offset : ℕ
  inode : Inode
  deriving DecidableEq, Repr

/-- Where the live file starts, and whether the sidecar names one of the files at hand. -/
structure Resolved where
  offset : ℕ
  isExact : Bool
  deriving DecidableEq, Repr

/-- Where the `live` file starts, given the sidecar beside it and the `rotated` generation. -/
def LogBase.resolve (sidecar : Option LogBase) (live rotated : Option Generation) : Resolved :=
  let rotatedLen := (rotated.map Generation.len).getD 0
  match sidecar with
  | none => ⟨rotatedLen, true⟩
  | some base =>
    if live.map Generation.inode = some base.inode then ⟨base.offset, true⟩
    -- recorded before the rotation that renamed this file
    else if rotated.map Generation.inode = some base.inode then ⟨base.offset + rotatedLen, true⟩
    else ⟨base.offset, false⟩

/-- The log's two paths, its sidecar, and the contents of every file that is named or held open. -/
structure Disk where
  content : Inode → Bytes
  live : Option Inode
  rotated : Option Inode
  sidecar : Option LogBase

namespace Disk

def empty : Disk := ⟨fun _ => [], none, none, none⟩

def generation (d : Disk) (file : Inode) : Generation := ⟨file, (d.content file).length⟩

def bytesOf (d : Disk) (path : Option Inode) : Bytes := (path.map d.content).getD []

def liveGeneration (d : Disk) : Option Generation := d.live.map d.generation

def rotatedGeneration (d : Disk) : Option Generation := d.rotated.map d.generation

def write (d : Disk) (file : Inode) (bytes : Bytes) : Disk :=
  { d with content := Function.update d.content file (d.content file ++ bytes) }

def renameLive (d : Disk) : Disk := { d with rotated := d.live, live := none }

def createLive (d : Disk) (file : Inode) : Disk :=
  { d with content := Function.update d.content file [], live := some file }

def replaceSidecar (d : Disk) (base : LogBase) : Disk := { d with sidecar := some base }

@[simp] theorem write_live (d : Disk) (f : Inode) (b : Bytes) : (d.write f b).live = d.live := rfl
@[simp] theorem write_rotated (d : Disk) (f : Inode) (b : Bytes) :
    (d.write f b).rotated = d.rotated := rfl
@[simp] theorem write_sidecar (d : Disk) (f : Inode) (b : Bytes) :
    (d.write f b).sidecar = d.sidecar := rfl
@[simp] theorem write_content_self (d : Disk) (f : Inode) (b : Bytes) :
    (d.write f b).content f = d.content f ++ b := by simp [write]
@[simp] theorem write_content_ne (d : Disk) {f g : Inode} (b : Bytes) (h : g ≠ f) :
    (d.write f b).content g = d.content g := by simp [write, h]

@[simp] theorem renameLive_live (d : Disk) : d.renameLive.live = none := rfl
@[simp] theorem renameLive_rotated (d : Disk) : d.renameLive.rotated = d.live := rfl
@[simp] theorem renameLive_sidecar (d : Disk) : d.renameLive.sidecar = d.sidecar := rfl
@[simp] theorem renameLive_content (d : Disk) : d.renameLive.content = d.content := rfl

@[simp] theorem createLive_live (d : Disk) (f : Inode) : (d.createLive f).live = some f := rfl
@[simp] theorem createLive_rotated (d : Disk) (f : Inode) :
    (d.createLive f).rotated = d.rotated := rfl
@[simp] theorem createLive_sidecar (d : Disk) (f : Inode) :
    (d.createLive f).sidecar = d.sidecar := rfl
@[simp] theorem createLive_content_self (d : Disk) (f : Inode) :
    (d.createLive f).content f = [] := by simp [createLive]
@[simp] theorem createLive_content_ne (d : Disk) {f g : Inode} (h : g ≠ f) :
    (d.createLive f).content g = d.content g := by simp [createLive, h]

@[simp] theorem replaceSidecar_live (d : Disk) (b : LogBase) :
    (d.replaceSidecar b).live = d.live := rfl
@[simp] theorem replaceSidecar_rotated (d : Disk) (b : LogBase) :
    (d.replaceSidecar b).rotated = d.rotated := rfl
@[simp] theorem replaceSidecar_sidecar (d : Disk) (b : LogBase) :
    (d.replaceSidecar b).sidecar = some b := rfl
@[simp] theorem replaceSidecar_content (d : Disk) (b : LogBase) :
    (d.replaceSidecar b).content = d.content := rfl

end Disk

/-! ### The writer's steps -/

/-- How far the writer has come: no file yet, a first live file without a sidecar, the sidecar
naming the live file, or inside a rotation after its rename or after its create. -/
inductive Phase where
  | absent
  | born
  | settled
  | renamed
  | created
  deriving DecidableEq, Repr

/-- The files of a log, with the stream written to them and where in it each file starts. -/
structure Stored where
  disk : Disk
  stream : Bytes
  starts : Inode → ℕ
  phase : Phase

/-- An atomic step of the writer. -/
inductive FileEvent where
  | append (bytes : Bytes)
  | rename
  | create (file : Inode)
  | record
  deriving DecidableEq, Repr

namespace Stored

def empty : Stored := ⟨Disk.empty, [], fun _ => 0, .absent⟩

/-- When the writer takes a step.  A new file gets the inode of no file that is named by the log or
held open. -/
def Allows (held : List Inode) (s : Stored) : FileEvent → Prop
  | .append _ => s.phase = .settled
  | .rename => s.phase = .settled
  | .create file =>
    (s.phase = .absent ∨ s.phase = .renamed) ∧ s.disk.rotated ≠ some file ∧ file ∉ held
  | .record => s.phase = .born ∨ s.phase = .created

instance (held : List Inode) (s : Stored) : ∀ e, Decidable (s.Allows held e)
  | .append _ => inferInstanceAs (Decidable (_ = _))
  | .rename => inferInstanceAs (Decidable (_ = _))
  | .create _ => inferInstanceAs (Decidable (_ ∧ _))
  | .record => inferInstanceAs (Decidable (_ ∨ _))

def apply (s : Stored) : FileEvent → Stored
  | .append bytes =>
    { s with
      disk := (s.disk.live.map fun file => s.disk.write file bytes).getD s.disk
      stream := s.stream ++ bytes }
  | .rename => { s with disk := s.disk.renameLive, phase := .renamed }
  | .create file =>
    { s with
      disk := s.disk.createLive file
      starts := Function.update s.starts file s.stream.length
      phase := if s.phase = .absent then .born else .created }
  | .record =>
    { s with
      disk := (s.disk.live.map fun file =>
        s.disk.replaceSidecar ⟨s.starts file, file⟩).getD s.disk
      phase := .settled }

def stop (s : Stored) (file : Inode) : ℕ := s.starts file + (s.disk.content file).length

/-- The file holds the stretch of the stream that starts where the file does. -/
def Placed (s : Stored) (file : Inode) : Prop :=
  s.disk.content file = s.stream.extract (s.starts file) (s.stop file) ∧
    s.stop file ≤ s.stream.length

/-- What the names and the sidecar look like between two steps. -/
def Shape (s : Stored) : Prop :=
  match s.phase with
  | .absent =>
    s.disk.live = none ∧ s.disk.rotated = none ∧ s.disk.sidecar = none ∧ s.stream = []
  | .born =>
    ∃ a, s.disk.live = some a ∧ s.disk.rotated = none ∧ s.disk.sidecar = none ∧
      s.disk.content a = []
  | .settled => ∃ a, s.disk.live = some a ∧ s.disk.sidecar = some ⟨s.starts a, a⟩
  | .renamed =>
    ∃ r, s.disk.live = none ∧ s.disk.rotated = some r ∧ s.disk.sidecar = some ⟨s.starts r, r⟩
  | .created =>
    ∃ a r, s.disk.live = some a ∧ s.disk.rotated = some r ∧ s.disk.content a = [] ∧
      s.disk.sidecar = some ⟨s.starts r, r⟩

/-- A file the log names or someone holds open. -/
def Known (held : List Inode) (s : Stored) (file : Inode) : Prop :=
  s.disk.live = some file ∨ s.disk.rotated = some file ∨ file ∈ held

/-- The files tile the end of the stream: the rotated file ends where the live one starts, the live
one ends where the stream does, and the sidecar names one of them with its own start. -/
structure Sound (held : List Inode) (s : Stored) : Prop where
  placed : ∀ f, s.Known held f → s.Placed f
  live_ne : ∀ a, s.disk.live = some a → s.disk.rotated ≠ some a
  live_stop : ∀ a, s.disk.live = some a → s.stop a = s.stream.length
  live_first : ∀ a, s.disk.live = some a → s.disk.rotated = none → s.starts a = 0
  rotated_stop : ∀ a r, s.disk.live = some a → s.disk.rotated = some r → s.stop r = s.starts a
  renamed_stop : ∀ r, s.disk.live = none → s.disk.rotated = some r → s.stop r = s.stream.length
  shape : s.Shape

theorem empty_sound : empty.Sound [] where
  placed := by simp [Known, empty, Disk.empty]
  live_ne := by simp [empty, Disk.empty]
  live_stop := by simp [empty, Disk.empty]
  live_first := by simp [empty, Disk.empty]
  rotated_stop := by simp [empty, Disk.empty]
  renamed_stop := by simp [empty, Disk.empty]
  shape := by simp [Shape, empty, Disk.empty]

theorem Placed.grow {s t : Stored} {f : Inode} {b : Bytes} (h : s.Placed f)
    (hc : t.disk.content f = s.disk.content f) (hs : t.starts f = s.starts f)
    (hS : t.stream = s.stream ++ b) : t.Placed f := by
  have hstop : t.stop f = s.stop f := by simp only [stop, hc, hs]
  refine ⟨?_, ?_⟩
  · rw [hc, hs, hstop, hS, extract_append_of_le _ _ h.2]
    exact h.1
  · rw [hstop, hS, List.length_append]
    exact Nat.le_add_right_of_le h.2

section Steps

variable {held : List Inode} {s : Stored} {e : FileEvent}

theorem apply_append_of_live {a : Inode} (ha : s.disk.live = some a) (b : Bytes) :
    s.apply (.append b) = { s with disk := s.disk.write a b, stream := s.stream ++ b } := by
  simp [apply, ha]

theorem apply_record_of_live {a : Inode} (ha : s.disk.live = some a) :
    s.apply .record =
      { s with disk := s.disk.replaceSidecar ⟨s.starts a, a⟩, phase := .settled } := by
  simp [apply, ha]

theorem Sound.append (h : s.Sound held) (b : Bytes) (hp : s.phase = .settled) :
    (s.apply (.append b)).Sound held := by
  obtain ⟨a, ha, hside⟩ : ∃ a, s.disk.live = some a ∧ s.disk.sidecar = some ⟨s.starts a, a⟩ := by
    simpa [Shape, hp] using h.shape
  rw [apply_append_of_live ha]
  have hstop : ∀ f, f ≠ a →
      stop { s with disk := s.disk.write a b, stream := s.stream ++ b } f = s.stop f := by
    intro f hf
    simp [stop, hf]
  have hlive : stop { s with disk := s.disk.write a b, stream := s.stream ++ b } a =
      s.stream.length + b.length := by
    have := h.live_stop a ha
    simp only [stop] at this
    simp only [stop, Disk.write_content_self, List.length_append]
    omega
  have hne : ∀ r, s.disk.rotated = some r → r ≠ a := by
    rintro r hr rfl
    exact h.live_ne _ ha hr
  refine ⟨fun f hf => ?_, h.live_ne, fun c hc => ?_, h.live_first, fun c r hc hr => ?_,
    fun r hl => ?_, ?_⟩
  · by_cases hfa : f = a
    · subst hfa
      have hpl := h.placed f (Or.inl ha)
      have hst := h.live_stop f ha
      refine ⟨?_, Nat.le_of_eq (hlive.trans List.length_append.symm)⟩
      -- the file's old stretch ends where the stream did, so the new bytes continue it
      rw [hlive, Disk.write_content_self, ← extract_append_extract _ (j := s.stream.length),
        extract_append_length, extract_append_of_le _ _ (Nat.le_refl _)]
      · rw [hpl.1, hst]
      · exact hst ▸ Nat.le_add_right _ _
      · omega
    · exact (h.placed f hf).grow (by simp [hfa]) rfl rfl
  · obtain rfl : c = a := by simpa [ha] using hc.symm
    rw [hlive, List.length_append]
  · obtain rfl : c = a := by simpa [ha] using hc.symm
    rw [hstop r (hne r hr)]
    exact h.rotated_stop c r ha hr
  · simp [ha] at hl
  · simp only [Shape, hp]
    exact ⟨a, ha, hside⟩

theorem Sound.rename (h : s.Sound held) (hp : s.phase = .settled) :
    (s.apply .rename).Sound held := by
  obtain ⟨a, ha, hside⟩ : ∃ a, s.disk.live = some a ∧ s.disk.sidecar = some ⟨s.starts a, a⟩ := by
    simpa [Shape, hp] using h.shape
  refine ⟨fun f hf => ?_, ?_, ?_, ?_, ?_, fun r _ hr => ?_, ?_⟩
  · rcases hf with hf | hf | hf
    · simp [apply] at hf
    · exact h.placed f (Or.inl hf)
    · exact h.placed f (Or.inr (Or.inr hf))
  · simp [apply]
  · simp [apply]
  · simp [apply]
  · simp [apply]
  · exact h.live_stop r hr
  · simp only [Shape, apply]
    exact ⟨a, rfl, ha, hside⟩

theorem Sound.create (h : s.Sound held) {file : Inode}
    (hp : s.phase = .absent ∨ s.phase = .renamed) (hr : s.disk.rotated ≠ some file)
    (hh : file ∉ held) : (s.apply (.create file)).Sound held := by
  have hlive : s.disk.live = none := by
    have := h.shape
    rcases hp with hp | hp
    · simp only [Shape, hp] at this
      exact this.1
    · simp only [Shape, hp] at this
      obtain ⟨r, hl, -⟩ := this
      exact hl
  have hstop : ∀ f, f ≠ file → (s.apply (.create file)).stop f = s.stop f := by
    intro f hf
    simp [stop, apply, hf]
  have hrne : ∀ r, s.disk.rotated = some r → r ≠ file := by
    rintro r hr' rfl
    exact hr hr'
  refine ⟨fun f hf => ?_, fun a ha hr' => ?_, fun a ha => ?_, fun a ha hn => ?_,
    fun a r ha hr' => ?_, ?_, ?_⟩
  · by_cases hff : f = file
    · subst hff
      simp [Placed, stop, apply]
    · refine Placed.grow (b := []) (s := s) (h.placed f ?_) (by simp [apply, hff])
        (by simp [apply, hff]) (by simp [apply])
      rcases hf with hf | hf | hf
      · simp [apply] at hf
        exact absurd hf.symm hff
      · exact Or.inr (Or.inl hf)
      · exact Or.inr (Or.inr hf)
  · simp [apply] at ha
    subst ha
    exact hr hr'
  · simp [apply] at ha
    subst ha
    simp [stop, apply]
  · simp [apply] at ha hn
    subst ha
    -- nothing was rotated, so this is the first file and the stream is empty
    rcases hp with hp | hp
    · have := h.shape
      simp only [Shape, hp] at this
      simp [apply, this.2.2.2]
    · have := h.shape
      simp [Shape, hp, hn] at this
  · simp [apply] at ha hr'
    subst ha
    rw [hstop r (hrne r hr'), h.renamed_stop r hlive hr']
    simp [apply]
  · simp [apply]
  · have := h.shape
    rcases hp with hp | hp
    · simp only [Shape, hp] at this
      simp [Shape, apply, hp, this.2.1, this.2.2.1]
    · simp only [Shape, hp] at this
      obtain ⟨r, -, hr', hside⟩ := this
      have hr0 := hrne r hr'
      simp [Shape, apply, hp, hr', hside, hr0]

theorem Shape.live_of_unrecorded (h : s.Shape) (hp : s.phase = .born ∨ s.phase = .created) :
    ∃ a, s.disk.live = some a := by
  rcases hp with hp | hp <;> simp only [Shape, hp] at h
  · obtain ⟨a, ha, -⟩ := h
    exact ⟨a, ha⟩
  · obtain ⟨a, r, ha, -⟩ := h
    exact ⟨a, ha⟩

theorem Shape.sidecar (h : s.Shape) {b : LogBase} (hb : s.disk.sidecar = some b) :
    b.offset = s.starts b.inode ∧ (s.disk.live = some b.inode ∨ s.disk.rotated = some b.inode) := by
  cases hp : s.phase <;> simp only [Shape, hp] at h
  case absent => simp [hb] at h
  case born => simp [hb] at h
  case settled =>
    obtain ⟨a, ha, hside⟩ := h
    obtain rfl : b = ⟨s.starts a, a⟩ := by simpa [hb] using hside
    exact ⟨rfl, Or.inl ha⟩
  case renamed =>
    obtain ⟨r, -, hr, hside⟩ := h
    obtain rfl : b = ⟨s.starts r, r⟩ := by simpa [hb] using hside
    exact ⟨rfl, Or.inr hr⟩
  case created =>
    obtain ⟨a, r, -, hr, -, hside⟩ := h
    obtain rfl : b = ⟨s.starts r, r⟩ := by simpa [hb] using hside
    exact ⟨rfl, Or.inr hr⟩

theorem Shape.sidecar_none (h : s.Shape) (hb : s.disk.sidecar = none) : s.disk.rotated = none := by
  cases hp : s.phase <;> simp only [Shape, hp] at h
  case absent => exact h.2.1
  case born =>
    obtain ⟨a, -, hr, -⟩ := h
    exact hr
  all_goals simp [hb] at h

theorem Sound.record (h : s.Sound held) (hp : s.phase = .born ∨ s.phase = .created) :
    (s.apply .record).Sound held := by
  obtain ⟨a, ha⟩ := h.shape.live_of_unrecorded hp
  rw [apply_record_of_live ha]
  refine ⟨fun f hf => h.placed f hf, h.live_ne, h.live_stop, h.live_first, h.rotated_stop,
    h.renamed_stop, ?_⟩
  simp only [Shape]
  exact ⟨a, ha, rfl⟩

/-- **Every step of the writer keeps the files in place.** -/
theorem Sound.apply (h : s.Sound held) (he : s.Allows held e) : (s.apply e).Sound held := by
  cases e with
  | append b => exact h.append b he
  | rename => exact h.rename he
  | create file => exact h.create he.1 he.2.1 he.2.2
  | record => exact h.record he

theorem Sound.hold (h : s.Sound held) {held' : List Inode}
    (hsub : ∀ f ∈ held', s.Known held f) : s.Sound held' :=
  ⟨fun f hf => h.placed f (by
      rcases hf with hf | hf | hf
      · exact Or.inl hf
      · exact Or.inr (Or.inl hf)
      · exact hsub f hf),
    h.live_ne, h.live_stop, h.live_first, h.rotated_stop, h.renamed_stop, h.shape⟩

/-- What a step of the writer leaves alone, for someone holding files open: the stream and the files
only grow, no file moves in the stream, and a file that is not live is never written or live again. -/
structure Grows (held : List Inode) (s t : Stored) : Prop where
  stream : s.stream <+: t.stream
  starts : ∀ f ∈ held, t.starts f = s.starts f
  content : ∀ f ∈ held, s.disk.content f <+: t.disk.content f
  still : ∀ f ∈ held, s.disk.live ≠ some f →
    t.disk.content f = s.disk.content f ∧ t.disk.live ≠ some f
  rotated : ∀ f ∈ held, t.disk.rotated = some f → s.disk.rotated = some f ∨ s.disk.live = some f
  rotated_none : t.disk.rotated = none → s.disk.rotated = none

theorem Sound.grows (h : s.Sound held) (he : s.Allows held e) : Grows held s (s.apply e) := by
  have hshape := h.shape
  cases e with
  | append b =>
    have hp : s.phase = .settled := he
    simp only [Shape, hp] at hshape
    obtain ⟨a, ha, -⟩ := hshape
    rw [Stored.apply_append_of_live ha]
    refine ⟨List.prefix_append _ _, fun _ _ => rfl, fun f _ => ?_, fun f _ hf => ⟨?_, hf⟩,
      fun _ _ hr => Or.inl hr, id⟩
    · by_cases hfa : f = a
      · subst hfa
        simp
      · simp [hfa]
    · have hfa : f ≠ a := fun heq => hf (heq ▸ ha)
      simp [hfa]
  | rename =>
    have hp : s.phase = .settled := he
    simp only [Shape, hp] at hshape
    obtain ⟨a, ha, -⟩ := hshape
    refine ⟨List.prefix_refl _, fun _ _ => rfl, fun _ _ => List.prefix_refl _,
      fun f _ _ => ⟨rfl, by simp [Stored.apply]⟩, fun f _ hr => Or.inr hr, fun hr => ?_⟩
    simp [Stored.apply, ha] at hr
  | create file =>
    have hne : ∀ f ∈ held, f ≠ file := fun f hf heq => he.2.2 (heq ▸ hf)
    refine ⟨List.prefix_refl _, fun f hf => by simp [Stored.apply, hne f hf],
      fun f hf => by simp [Stored.apply, hne f hf], fun f hf _ => ⟨by simp [Stored.apply, hne f hf], ?_⟩,
      fun _ _ hr => Or.inl hr, id⟩
    simpa [Stored.apply] using (hne f hf).symm
  | record =>
    obtain ⟨a, ha⟩ := hshape.live_of_unrecorded he
    rw [Stored.apply_record_of_live ha]
    exact ⟨List.prefix_refl _, fun _ _ => rfl, fun _ _ => List.prefix_refl _,
      fun _ _ hf => ⟨rfl, hf⟩, fun _ _ hr => Or.inl hr, id⟩

theorem Sound.live_kept (h : s.Sound held) (he : s.Allows held e) {f : Inode}
    (hl : s.disk.live = some f) (hne : e ≠ .rename) : (s.apply e).disk.live = some f ∧
      (s.apply e).disk.rotatedGeneration = s.disk.rotatedGeneration := by
  cases e with
  | append b =>
    rw [apply_append_of_live hl]
    refine ⟨hl, ?_⟩
    cases hr : s.disk.rotated with
    | none => simp [Disk.rotatedGeneration, hr]
    | some r =>
      have hrf : r ≠ f := by
        rintro rfl
        exact h.live_ne r hl hr
      simp [Disk.rotatedGeneration, Disk.generation, hr, hrf]
  | rename => exact absurd rfl hne
  | create file =>
    have hshape := h.shape
    rcases he.1 with hp | hp <;> simp [Shape, hp, hl] at hshape
  | record =>
    rw [apply_record_of_live hl]
    exact ⟨hl, rfl⟩

theorem sidecar_kept (hne : e ≠ .record) : (s.apply e).disk.sidecar = s.disk.sidecar := by
  cases e with
  | append b => cases hl : s.disk.live <;> simp [apply, hl]
  | rename => rfl
  | create file => rfl
  | record => exact absurd rfl hne

theorem Shape.sidecar_of_settled (h : s.Shape) (hp : s.phase = .settled) {f : Inode}
    (hl : s.disk.live = some f) : s.disk.sidecar = some ⟨s.starts f, f⟩ := by
  simp only [Shape, hp] at h
  obtain ⟨a, ha, hside⟩ := h
  obtain rfl : a = f := by simpa [hl] using ha.symm
  exact hside

/-- **The sidecar resolves at every point.**  Whatever step the writer was stopped after, the
sidecar names one of the two files, and the live file starts at what it resolves to. -/
theorem Sound.resolve (h : s.Sound held) :
    LogBase.resolve s.disk.sidecar s.disk.liveGeneration s.disk.rotatedGeneration =
      ⟨s.stream.length - (s.disk.bytesOf s.disk.live).length, true⟩ := by
  have hshape := h.shape
  cases hp : s.phase with
  | absent =>
    simp only [Shape, hp] at hshape
    simp [LogBase.resolve, Disk.rotatedGeneration, hshape]
  | born =>
    simp only [Shape, hp] at hshape
    obtain ⟨a, ha, hr, hside, hc⟩ := hshape
    have h0 := h.live_first a ha hr
    have h1 := h.live_stop a ha
    simp only [stop, h0, hc, List.length_nil] at h1
    simp [LogBase.resolve, Disk.rotatedGeneration, hr, hside, ← h1]
  | settled =>
    simp only [Shape, hp] at hshape
    obtain ⟨a, ha, hside⟩ := hshape
    have h1 := h.live_stop a ha
    simp only [stop] at h1
    simp [LogBase.resolve, Disk.liveGeneration, Disk.generation, Disk.bytesOf, ha, hside, ← h1]
  | renamed =>
    simp only [Shape, hp] at hshape
    obtain ⟨r, hl, hr, hside⟩ := hshape
    have h1 := h.renamed_stop r hl hr
    simp only [stop] at h1
    simp [LogBase.resolve, Disk.liveGeneration, Disk.rotatedGeneration, Disk.generation,
      Disk.bytesOf, hl, hr, hside, ← h1]
  | created =>
    simp only [Shape, hp] at hshape
    obtain ⟨a, r, ha, hr, hc, hside⟩ := hshape
    have hne : a ≠ r := by
      rintro rfl
      exact h.live_ne _ ha hr
    have h1 := h.live_stop a ha
    have h2 := h.rotated_stop a r ha hr
    simp only [stop, hc, List.length_nil] at h1 h2
    simp [LogBase.resolve, Disk.liveGeneration, Disk.rotatedGeneration, Disk.generation,
      Disk.bytesOf, ha, hr, hside, hc, hne]
    omega

end Steps

def writer : Machine Stored FileEvent := ⟨Allows [], apply⟩

instance : ∀ (s : Stored) (e : FileEvent), Decidable (writer.Enabled s e) :=
  fun s e => inferInstanceAs (Decidable (s.Allows [] e))

theorem writer_next (s : Stored) (e : FileEvent) : writer.next s e = s.apply e := rfl

theorem reaches_sound {s : Stored} (hr : writer.Reaches empty s) : s.Sound [] :=
  hr.invariant (P := Sound []) (fun _ _ h he => h.apply he) empty_sound

end Stored

end Muster.Log
