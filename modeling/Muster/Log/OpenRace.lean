import Mathlib.Tactic.SplitIfs
import Muster.Log.Span

/-!
# OpenRace — opening a span while the log rotates

One call of `Span::open` runs against the writer, their file steps interleaved in any order.  A
settled attempt saw its two files and its sidecar in one consistent view: files never return to a
name they left while they are held open, so the late looks at the paths vouch for everything read
before them.  And an attempt fails only when a rename or a create fell inside it, of which one
rotation has two.
-/

namespace Muster.Log

namespace SpanOpen

def held : SpanOpen → List Inode
  | .openRotated _ => []
  | .openLive _ rotated => (rotated.map Generation.inode).toList
  | .readSidecar _ rotated live | .statRotated _ rotated live _ | .statLive _ rotated live _ =>
    (rotated.map Generation.inode).toList ++ (live.map Generation.inode).toList
  | .done sp _ => sp.pieces.map Piece.file

def isDone : SpanOpen → Bool
  | .done _ _ => true
  | _ => false

end SpanOpen

/-- The writer and one reader, with what the run so far amounts to: the stream's length at the call
and at the return, the renames since the call, and the renames and creates since the call and since
the attempt began. -/
structure Race where
  stored : Stored
  reader : SpanOpen
  called : ℕ
  returned : ℕ
  calledIn : Phase
  renames : ℕ
  moves : ℕ
  movesNow : ℕ

inductive RaceEvent where
  | write (e : FileEvent)
  | read
  deriving DecidableEq, Repr

/-- Whether a step changes what a path names. -/
def FileEvent.moves : FileEvent → ℕ
  | .rename | .create _ => 1
  | .append _ | .record => 0

def FileEvent.renames : FileEvent → ℕ
  | .rename => 1
  | _ => 0

namespace Race

def call (s : Stored) : Race := ⟨s, .start, s.stream.length, 0, s.phase, 0, 0, 0⟩

/-- The reader's next step; a new attempt counts its moves anew. -/
def read (r : Race) : Race :=
  let reader := r.reader.step r.stored.disk
  match reader with
  | .openRotated _ => { r with reader, movesNow := 0 }
  | .done _ _ => { r with reader, returned := r.stored.stream.length }
  | _ => { r with reader }

def machine : Machine Race RaceEvent where
  Enabled r
    | .write e => r.stored.Allows r.reader.held e
    | .read => r.reader.isDone = false
  next r
    | .write e =>
      { r with
        stored := r.stored.apply e
        renames := r.renames + e.renames
        moves := r.moves + e.moves
        movesNow := r.movesNow + e.moves }
    | .read => r.read

instance : ∀ (r : Race) (e : RaceEvent), Decidable (machine.Enabled r e)
  | r, .write e => inferInstanceAs (Decidable (r.stored.Allows _ e))
  | _, .read => inferInstanceAs (Decidable (_ = _))

end Race

/-! ### What the reader knows -/

/-- The generations opened join at `base`, where the live file starts, and reach at least as far as
the stream did at the call.  None of it can change while they are held. -/
structure Joined (s : Stored) (called : ℕ) (rotated live : Option Generation) (base : ℕ) : Prop where
  rotated_at : ∀ g ∈ rotated, g.len = (s.disk.content g.inode).length ∧ s.stop g.inode = base ∧
    s.disk.live ≠ some g.inode
  first : rotated = none → base = 0
  live_at : ∀ g ∈ live, g.len ≤ (s.disk.content g.inode).length ∧ s.starts g.inode = base
  reaches : called ≤ base + Span.lenOf live
  within : base + Span.lenOf live ≤ s.stream.length

section Joined

variable {s t : Stored} {held : List Inode} {called base : ℕ} {rotated live : Option Generation}

theorem Joined.grows (h : Joined s called rotated live base) (hg : Stored.Grows held s t)
    (hr : ∀ g ∈ rotated, g.inode ∈ held) (hl : ∀ g ∈ live, g.inode ∈ held) :
    Joined t called rotated live base where
  rotated_at g hgr := by
    obtain ⟨hlen, hstop, hne⟩ := h.rotated_at g hgr
    obtain ⟨hc, hne'⟩ := hg.still _ (hr g hgr) hne
    refine ⟨by rw [hc, hlen], ?_, hne'⟩
    rw [Stored.stop, hc, hg.starts _ (hr g hgr)]
    exact hstop
  first := h.first
  live_at g hgl := by
    obtain ⟨hlen, hst⟩ := h.live_at g hgl
    exact ⟨Nat.le_trans hlen (hg.content _ (hl g hgl)).length_le, by rw [hg.starts _ (hl g hgl), hst]⟩
  reaches := h.reaches
  within := Nat.le_trans h.within hg.stream.length_le

/-- **What joins serves.** -/
theorem Joined.serves (h : Joined s called rotated live base) (hs : s.Sound held)
    (hr : ∀ g ∈ rotated, g.inode ∈ held) (hl : ∀ g ∈ live, g.inode ∈ held) :
    (Span.ofOpened base rotated live).Serves s.disk.content s.stream ∧
      (Span.ofOpened base rotated live).stop = base + Span.lenOf live := by
  have hrot : ∀ g ∈ rotated, g.len ≤ base ∧
      (s.disk.content g.inode).take g.len = s.stream.extract (base - g.len) base := by
    intro g hg
    obtain ⟨hlen, hstop, -⟩ := h.rotated_at g hg
    have hpl := (hs.placed _ (Or.inr (Or.inr (hr g hg)))).1
    rw [hstop] at hpl
    simp only [Stored.stop] at hstop
    rw [hlen, List.take_length]
    refine ⟨by omega, hpl.trans ?_⟩
    congr 1
    omega
  have hlive : ∀ g ∈ live,
      (s.disk.content g.inode).take g.len = s.stream.extract base (base + g.len) := by
    intro g hg
    obtain ⟨hlen, hst⟩ := h.live_at g hg
    have hpl := (hs.placed _ (Or.inr (Or.inr (hl g hg)))).1
    simp only [Stored.stop, hst] at hpl
    have hcut := take_drop_extract s.stream base (base + (s.disk.content g.inode).length) 0 g.len
    rw [List.drop_zero, Nat.add_zero] at hcut
    rw [hpl, hcut]
    congr 1
    omega
  obtain ⟨hserves, -, hstop⟩ := Span.ofOpened_serves hrot hlive h.within
  exact ⟨hserves, hstop⟩

/-- The paths still name what was opened. -/
def Names (path : Option Inode) (opened : Option Generation) : Prop :=
  path = opened.map Generation.inode

theorem resolve_isExact_congr (sidecar : Option LogBase) {l l' r r' : Option Generation}
    (hl : l.map Generation.inode = l'.map Generation.inode)
    (hr : r.map Generation.inode = r'.map Generation.inode) :
    (LogBase.resolve sidecar l r).isExact = (LogBase.resolve sidecar l' r').isExact := by
  cases sidecar with
  | none => rfl
  | some b =>
    simp only [LogBase.resolve, hl, hr]
    split_ifs <;> rfl

theorem generation_inode (d : Disk) (path : Option Inode) :
    (path.map d.generation).map Generation.inode = path := by
  cases path <;> rfl

theorem Stored.Sound.resolve_exact (hs : s.Sound held) (hr : Names s.disk.rotated rotated)
    (hl : Names s.disk.live live) :
    (LogBase.resolve s.disk.sidecar live rotated).isExact = true := by
  refine (resolve_isExact_congr _ ?_ ?_).trans (congrArg Resolved.isExact hs.resolve)
  · exact hl.symm.trans (generation_inode _ _).symm
  · exact hr.symm.trans (generation_inode _ _).symm

/-- The opening of the live file: with the rotated file still in its place, the two join where the
live file starts. -/
theorem Stored.Sound.joined (hs : s.Sound held) (hcalled : called ≤ s.stream.length)
    (hopened : ∀ g ∈ rotated, g.len = (s.disk.content g.inode).length ∧
      s.disk.live ≠ some g.inode)
    (hr : Names s.disk.rotated rotated) :
    ∃ base, Joined s called rotated s.disk.liveGeneration base := by
  obtain ⟨-, -, hlen⟩ := hs.tiled
  have hlenOf : Span.lenOf s.disk.liveGeneration = (s.disk.bytesOf s.disk.live).length :=
    Stored.lenOf_generation _ _
  refine ⟨s.stream.length - (s.disk.bytesOf s.disk.live).length, ?_, ?_, ?_, ?_, ?_⟩
  · intro g hg
    obtain ⟨hglen, hne⟩ := hopened g hg
    have hrot : s.disk.rotated = some g.inode := by
      rw [hr, Option.mem_def.mp hg]
      rfl
    refine ⟨hglen, ?_, hne⟩
    cases hl : s.disk.live with
    | none => simpa [Disk.bytesOf, hl] using hs.renamed_stop _ hl hrot
    | some a =>
      have h1 := hs.rotated_stop a _ hl hrot
      have h2 := hs.live_stop a hl
      simp only [Stored.stop] at h1 h2
      simp only [Stored.stop, Disk.bytesOf, Option.map_some, Option.getD_some]
      omega
  · rintro rfl
    have hrot : s.disk.rotated = none := hr
    cases hl : s.disk.live with
    | none =>
      have hshape := hs.shape
      have : s.stream = [] := by
        cases hp : s.phase <;> simp_all [Stored.Shape]
      simp [this]
    | some a =>
      have h1 := hs.live_first a hl hrot
      have h2 := hs.live_stop a hl
      simp only [Stored.stop] at h2
      simp only [Disk.bytesOf, Option.map_some, Option.getD_some]
      omega
  · intro g hg
    obtain ⟨a, ha, rfl⟩ := Option.map_eq_some_iff.mp hg
    have h2 := hs.live_stop a ha
    simp only [Stored.stop] at h2
    refine ⟨Nat.le_refl _, ?_⟩
    simp only [Disk.generation, Disk.bytesOf, ha, Option.map_some, Option.getD_some]
    omega
  · rw [hlenOf, hlen]
    exact hcalled
  · exact Nat.le_of_eq (by rw [hlenOf, hlen])

/-- **What the sidecar resolves to is where the files join**, when it is exact and the rotated file
is still in its place. -/
theorem Joined.resolve (h : Joined s called rotated live base) (hs : s.Sound held)
    (hr : Names s.disk.rotated rotated)
    (hx : (LogBase.resolve s.disk.sidecar live rotated).isExact = true) :
    (LogBase.resolve s.disk.sidecar live rotated).offset = base := by
  have hmatch : ∀ b, s.disk.sidecar = some b → live.map Generation.inode = some b.inode →
      b.offset = base := by
    intro b hb hlb
    obtain ⟨g, hg, hgb⟩ := Option.map_eq_some_iff.mp hlb
    rw [(hs.shape.sidecar hb).1, ← hgb]
    exact (h.live_at g hg).2
  cases hside : s.disk.sidecar with
  | none =>
    have hnone : rotated = none := by
      have := hr.symm.trans (hs.shape.sidecar_none hside)
      simpa using this
    rw [h.first hnone, hnone]
    rfl
  | some b =>
    simp only [hside, LogBase.resolve] at hx ⊢
    split_ifs at hx ⊢ with h1 h2
    · exact hmatch b hside h1
    · obtain ⟨g, hg, hgb⟩ := Option.map_eq_some_iff.mp h2
      obtain ⟨hglen, hgstop, -⟩ := h.rotated_at g hg
      simp only [Stored.stop] at hgstop
      simp only [(hs.shape.sidecar hside).1, ← hgb, hg, Option.map_some, Option.getD_some, hglen]
      exact hgstop

def Opened (s : Stored) (rotated : Option Generation) : Prop :=
  ∀ g ∈ rotated, g.len = (s.disk.content g.inode).length ∧ s.disk.live ≠ some g.inode

theorem Opened.grows (h : Opened s rotated) (hg : Stored.Grows held s t)
    (hr : ∀ g ∈ rotated, g.inode ∈ held) : Opened t rotated := by
  intro g hgr
  obtain ⟨hlen, hne⟩ := h g hgr
  obtain ⟨hc, hne'⟩ := hg.still _ (hr g hgr) hne
  exact ⟨by rw [hc, hlen], hne'⟩

theorem Opened.names_back (h : Opened s rotated) (hg : Stored.Grows held s t)
    (hr : ∀ g ∈ rotated, g.inode ∈ held) (hn : Names t.disk.rotated rotated) :
    Names s.disk.rotated rotated := by
  cases rotated with
  | none => exact hg.rotated_none hn
  | some g =>
    rcases hg.rotated _ (hr g rfl) hn with hs | hs
    · exact hs
    · exact absurd hs (h g rfl).2

end Joined

namespace Race

/-- What the reader knows after each step.  `quiet` says that nothing moved since the attempt began;
then the paths still name what was opened. -/
def Knows (s : Stored) (called returned : ℕ) (quiet : Prop) : SpanOpen → Prop
  | .openRotated _ => True
  | .openLive _ rotated => Opened s rotated ∧ (quiet → Names s.disk.rotated rotated)
  | .readSidecar _ rotated live =>
    Opened s rotated ∧ (Names s.disk.rotated rotated → ∃ base, Joined s called rotated live base) ∧
      (quiet → Names s.disk.rotated rotated ∧ Names s.disk.live live)
  | .statRotated _ rotated live base =>
    Opened s rotated ∧ (Names s.disk.rotated rotated → Joined s called rotated live base) ∧
      (quiet → Names s.disk.rotated rotated ∧ Names s.disk.live live)
  | .statLive _ rotated live base =>
    Joined s called rotated live base ∧ (quiet → Names s.disk.live live)
  | .done sp settled =>
    settled = true → ∃ rotated live base, sp = Span.ofOpened base rotated live ∧
      Joined s called rotated live base ∧ sp.stop ≤ returned ∧ returned ≤ s.stream.length

/-- Each attempt but the last was spoiled by a move of its own. -/
def Spoiled (moves movesNow : ℕ) : SpanOpen → Prop
  | .openRotated k | .openLive k _ | .readSidecar k _ _ | .statRotated k _ _ _
  | .statLive k _ _ _ => k + movesNow ≤ moves + 1
  | .done _ settled => settled = false → openAttempts ≤ moves

/-- A create is still owed in these phases. -/
def owed : Phase → ℕ
  | .absent | .renamed => 1
  | .born | .settled | .created => 0

/-- The rotations under way at a call made in these phases, the first file's create counted as one. -/
def underWay : Phase → ℕ
  | .absent | .renamed | .created => 1
  | .born | .settled => 0

structure Inv (r : Race) : Prop where
  sound : r.stored.Sound r.reader.held
  called : r.called ≤ r.stored.stream.length
  knows : Knows r.stored r.called r.returned (r.movesNow = 0) r.reader
  spoiled : Spoiled r.moves r.movesNow r.reader
  balance : r.moves + owed r.stored.phase = 2 * r.renames + owed r.calledIn

variable {s : Stored}

theorem call_inv (hs : s.Sound []) : (call s).Inv where
  sound := hs
  called := Nat.le_refl _
  knows := trivial
  spoiled := Nat.le_refl _
  balance := by simp [call]

/-! ### The writer's steps -/

theorem mem_inodes {g : Generation} {x : Option Generation} (hg : g ∈ x) :
    g.inode ∈ (x.map Generation.inode).toList := by
  rw [Option.mem_def] at hg
  simp [hg]

theorem ofOpened_files (base : ℕ) (rotated live : Option Generation) :
    (Span.ofOpened base rotated live).pieces.map Piece.file =
      (rotated.map Generation.inode).toList ++ (live.map Generation.inode).toList := by
  cases rotated <;> cases live <;> rfl

theorem Knows.grows {t : Stored} {called returned : ℕ} {q q' : Prop} {o : SpanOpen}
    (h : Knows s called returned q o) (hg : Stored.Grows o.held s t)
    (hq : q' → q ∧ t.disk.rotated = s.disk.rotated ∧ t.disk.live = s.disk.live) :
    Knows t called returned q' o := by
  cases o with
  | openRotated k => trivial
  | openLive k rotated =>
    refine ⟨h.1.grows hg fun _ => mem_inodes, fun hq' => ?_⟩
    obtain ⟨h1, h2, -⟩ := hq hq'
    exact h2 ▸ h.2 h1
  | readSidecar k rotated live =>
    have hr : ∀ g ∈ rotated, g.inode ∈ (SpanOpen.readSidecar k rotated live).held :=
      fun g hg => List.mem_append_left _ (mem_inodes hg)
    have hl : ∀ g ∈ live, g.inode ∈ (SpanOpen.readSidecar k rotated live).held :=
      fun g hg => List.mem_append_right _ (mem_inodes hg)
    obtain ⟨ho, hj, hn⟩ := h
    refine ⟨ho.grows hg hr, fun hn' => ?_, fun hq' => ?_⟩
    · obtain ⟨base, hbase⟩ := hj (ho.names_back hg hr hn')
      exact ⟨base, hbase.grows hg hr hl⟩
    · obtain ⟨h1, h2, h3⟩ := hq hq'
      exact ⟨h2 ▸ (hn h1).1, h3 ▸ (hn h1).2⟩
  | statRotated k rotated live base =>
    have hr : ∀ g ∈ rotated, g.inode ∈ (SpanOpen.statRotated k rotated live base).held :=
      fun g hg => List.mem_append_left _ (mem_inodes hg)
    have hl : ∀ g ∈ live, g.inode ∈ (SpanOpen.statRotated k rotated live base).held :=
      fun g hg => List.mem_append_right _ (mem_inodes hg)
    obtain ⟨ho, hj, hn⟩ := h
    refine ⟨ho.grows hg hr, fun hn' => (hj (ho.names_back hg hr hn')).grows hg hr hl,
      fun hq' => ?_⟩
    obtain ⟨h1, h2, h3⟩ := hq hq'
    exact ⟨h2 ▸ (hn h1).1, h3 ▸ (hn h1).2⟩
  | statLive k rotated live base =>
    have hr : ∀ g ∈ rotated, g.inode ∈ (SpanOpen.statLive k rotated live base).held :=
      fun g hg => List.mem_append_left _ (mem_inodes hg)
    have hl : ∀ g ∈ live, g.inode ∈ (SpanOpen.statLive k rotated live base).held :=
      fun g hg => List.mem_append_right _ (mem_inodes hg)
    refine ⟨h.1.grows hg hr hl, fun hq' => ?_⟩
    obtain ⟨h1, -, h3⟩ := hq hq'
    exact h3 ▸ h.2 h1
  | done sp settled =>
    intro hset
    obtain ⟨rotated, live, base, rfl, hj, hstop, hret⟩ := h hset
    have hheld : ∀ f ∈ (rotated.map Generation.inode).toList ++
        (live.map Generation.inode).toList,
        f ∈ (SpanOpen.done (Span.ofOpened base rotated live) settled).held := by
      intro f hf
      rwa [SpanOpen.held, ofOpened_files]
    exact ⟨rotated, live, base, rfl,
      hj.grows hg (fun g hg => hheld _ (List.mem_append_left _ (mem_inodes hg)))
        (fun g hg => hheld _ (List.mem_append_right _ (mem_inodes hg))),
      hstop, Nat.le_trans hret hg.stream.length_le⟩

theorem apply_names {e : FileEvent} (he : e.moves = 0) :
    (s.apply e).disk.rotated = s.disk.rotated ∧ (s.apply e).disk.live = s.disk.live := by
  cases e with
  | append b => cases hl : s.disk.live <;> simp [Stored.apply, hl]
  | record => cases hl : s.disk.live <;> simp [Stored.apply, hl]
  | rename => simp [FileEvent.moves] at he
  | create f => simp [FileEvent.moves] at he

theorem apply_owed {held : List Inode} {e : FileEvent} (he : s.Allows held e) :
    e.moves + owed (s.apply e).phase = 2 * e.renames + owed s.phase := by
  cases e with
  | append b => simp [Stored.apply, FileEvent.moves, FileEvent.renames]
  | rename =>
    have hp : s.phase = .settled := he
    simp [Stored.apply, FileEvent.moves, FileEvent.renames, owed, hp]
  | create f =>
    rcases he.1 with hp | hp <;>
      simp [Stored.apply, FileEvent.moves, FileEvent.renames, owed, hp]
  | record =>
    rcases he with hp | hp <;>
      simp [Stored.apply, FileEvent.moves, FileEvent.renames, owed, hp]

theorem Spoiled.moves {moves movesNow n : ℕ} {o : SpanOpen} (h : Spoiled moves movesNow o) :
    Spoiled (moves + n) (movesNow + n) o := by
  cases o with
  | done sp settled => exact fun hs => Nat.le_add_right_of_le (h hs)
  | _ =>
    simp only [Spoiled] at h ⊢
    omega

theorem Inv.write {r : Race} (h : r.Inv) {e : FileEvent}
    (he : r.stored.Allows r.reader.held e) : (machine.next r (.write e)).Inv where
  sound := h.sound.apply he
  called := Nat.le_trans h.called (h.sound.grows he).stream.length_le
  knows := by
    refine h.knows.grows (h.sound.grows he) fun hq => ?_
    have hq : r.movesNow + e.moves = 0 := hq
    exact ⟨by omega, apply_names (by omega)⟩
  spoiled := h.spoiled.moves
  balance := by
    have h1 := h.balance
    have h2 := apply_owed he
    simp only [machine]
    omega

/-! ### The reader's steps -/

theorem known_toList {held : List Inode} {x : Option Inode}
    (hx : ∀ f, x = some f → s.Known held f) : ∀ f ∈ x.toList, s.Known held f := by
  intro f hf
  exact hx f (by simpa using hf)

theorem finish_unsettled {r : Race} (h : r.Inv) {k : ℕ} {rotated live : Option Generation}
    {base : ℕ} (hk : k + r.movesNow ≤ r.moves + 1) (hspoiled : r.movesNow ≠ 0)
    (hstep : r.reader.step r.stored.disk = SpanOpen.finish k rotated live base false)
    (hheld : ∀ f ∈ (SpanOpen.finish k rotated live base false).held,
      r.stored.Known r.reader.held f) : r.read.Inv := by
  by_cases hlast : k < openAttempts
  · have hfin : SpanOpen.finish k rotated live base false = .openRotated (k + 1) := by
      simp [SpanOpen.finish, hlast]
    rw [hfin] at hstep hheld
    have hread : r.read = { r with reader := .openRotated (k + 1), movesNow := 0 } := by
      simp only [read, hstep]
    rw [hread]
    refine ⟨h.sound.hold hheld, h.called, trivial, ?_, h.balance⟩
    simp only [Spoiled]
    omega
  · have hfin : SpanOpen.finish k rotated live base false =
        .done (Span.ofOpened base rotated live) false := by
      simp [SpanOpen.finish, hlast]
    rw [hfin] at hstep hheld
    have hread : r.read = { r with
        reader := .done (Span.ofOpened base rotated live) false
        returned := r.stored.stream.length } := by
      simp only [read, hstep]
    rw [hread]
    refine ⟨h.sound.hold hheld, h.called, fun hf => absurd hf (by simp), fun _ => ?_, h.balance⟩
    show openAttempts ≤ r.moves
    omega

theorem held_finish {k : ℕ} {rotated live : Option Generation} {base : ℕ} {b : Bool} :
    ∀ f ∈ (SpanOpen.finish k rotated live base b).held,
      f ∈ (rotated.map Generation.inode).toList ++ (live.map Generation.inode).toList := by
  intro f hf
  unfold SpanOpen.finish at hf
  split at hf
  · simp [SpanOpen.held] at hf
  · rwa [SpanOpen.held, ofOpened_files] at hf

section Read

variable {r : Race} {k base : ℕ} {rotated live : Option Generation}

theorem Inv.read_openRotated (h : r.Inv) (ho : r.reader = .openRotated k) : r.read.Inv := by
  have hs := h.sound
  have hspoiled := h.spoiled
  rw [ho] at hs hspoiled
  have hread : r.read = { r with reader := .openLive k r.stored.disk.rotatedGeneration } := by
    simp only [Race.read, ho, SpanOpen.step]
  rw [hread]
  refine ⟨hs.hold ?_, h.called, ⟨?_, fun _ => (generation_inode _ _).symm⟩, hspoiled, h.balance⟩
  · simp only [SpanOpen.held, Disk.rotatedGeneration, generation_inode]
    exact known_toList fun f hf => Or.inr (Or.inl hf)
  · intro g hg
    obtain ⟨f, hf, rfl⟩ := Option.map_eq_some_iff.mp hg
    exact ⟨rfl, fun hl => hs.live_ne f hl hf⟩

theorem Inv.read_openLive (h : r.Inv) (ho : r.reader = .openLive k rotated) : r.read.Inv := by
  have hs := h.sound
  have hspoiled := h.spoiled
  have hknows := h.knows
  rw [ho] at hs hknows hspoiled
  have hread : r.read =
      { r with reader := .readSidecar k rotated r.stored.disk.liveGeneration } := by
    simp only [Race.read, ho, SpanOpen.step]
  rw [hread]
  refine ⟨hs.hold ?_, h.called, ⟨hknows.1, fun hn => hs.joined h.called hknows.1 hn,
    fun hq => ⟨hknows.2 hq, (generation_inode _ _).symm⟩⟩, hspoiled, h.balance⟩
  intro f hf
  simp only [SpanOpen.held, Disk.liveGeneration, generation_inode, List.mem_append] at hf
  rcases hf with hf | hf
  · exact Or.inr (Or.inr hf)
  · exact Or.inl (by simpa using hf)

theorem Inv.read_readSidecar (h : r.Inv) (ho : r.reader = .readSidecar k rotated live) :
    r.read.Inv := by
  have hs := h.sound
  have hspoiled := h.spoiled
  have hknows := h.knows
  rw [ho] at hs hknows hspoiled
  obtain ⟨hopened, hjoined, hnames⟩ := hknows
  by_cases hx : (LogBase.resolve r.stored.disk.sidecar live rotated).isExact = true
  · have hread : r.read = { r with reader := (.statRotated k rotated live
        (LogBase.resolve r.stored.disk.sidecar live rotated).offset) } := by
      simp only [Race.read, ho, SpanOpen.step, hx, if_true]
    rw [hread]
    refine ⟨hs, h.called, ⟨hopened, fun hn => ?_, hnames⟩, hspoiled, h.balance⟩
    obtain ⟨base, hbase⟩ := hjoined hn
    rw [hbase.resolve hs hn hx]
    exact hbase
  · refine finish_unsettled h hspoiled ?_ (by rw [ho, SpanOpen.step]; simp only [hx]; rfl) ?_
    · intro hq
      exact hx (hs.resolve_exact (hnames hq).1 (hnames hq).2)
    · intro f hf
      rw [ho]
      exact Or.inr (Or.inr (held_finish f hf))

theorem Inv.read_statRotated (h : r.Inv) (ho : r.reader = .statRotated k rotated live base) :
    r.read.Inv := by
  have hs := h.sound
  have hspoiled := h.spoiled
  have hknows := h.knows
  rw [ho] at hs hknows hspoiled
  obtain ⟨hopened, hjoined, hnames⟩ := hknows
  by_cases hn : Names r.stored.disk.rotated rotated
  · have hstill : stillNames r.stored.disk.rotated rotated = true := decide_eq_true hn
    have hread : r.read = { r with reader := .statLive k rotated live base } := by
      simp only [Race.read, ho, SpanOpen.step, hstill, if_true]
    rw [hread]
    exact ⟨hs, h.called, ⟨hjoined hn, fun hq => (hnames hq).2⟩, hspoiled, h.balance⟩
  · have hstill : stillNames r.stored.disk.rotated rotated = false := decide_eq_false hn
    refine finish_unsettled h hspoiled (fun hq => hn (hnames hq).1)
      (by rw [ho, SpanOpen.step, hstill]; rfl) ?_
    intro f hf
    rw [ho]
    exact Or.inr (Or.inr (held_finish f hf))

theorem Inv.read_statLive (h : r.Inv) (ho : r.reader = .statLive k rotated live base) :
    r.read.Inv := by
  have hs := h.sound
  have hspoiled := h.spoiled
  have hknows := h.knows
  rw [ho] at hs hknows hspoiled
  obtain ⟨hjoined, hnames⟩ := hknows
  have hheld : ∀ b, ∀ f ∈ (SpanOpen.finish k rotated live base b).held,
      r.stored.Known (SpanOpen.statLive k rotated live base).held f :=
    fun b f hf => Or.inr (Or.inr (held_finish f hf))
  by_cases hn : Names r.stored.disk.live live
  · have hstill : stillNames r.stored.disk.live live = true := decide_eq_true hn
    have hfin : SpanOpen.finish k rotated live base true =
        .done (Span.ofOpened base rotated live) true := by simp [SpanOpen.finish]
    have hread : r.read = { r with
        reader := .done (Span.ofOpened base rotated live) true
        returned := r.stored.stream.length } := by
      simp only [Race.read, ho, SpanOpen.step, hstill, hfin]
    have hheld := hheld true
    rw [hfin] at hheld
    rw [hread]
    refine ⟨hs.hold hheld, h.called, fun _ => ⟨rotated, live, base, rfl, hjoined, ?_,
      Nat.le_refl _⟩, fun hf => absurd hf (by simp), h.balance⟩
    rw [(hjoined.serves hs (fun g hg => List.mem_append_left _ (mem_inodes hg))
      (fun g hg => List.mem_append_right _ (mem_inodes hg))).2]
    exact hjoined.within
  · have hstill : stillNames r.stored.disk.live live = false := decide_eq_false hn
    refine finish_unsettled h hspoiled (fun hq => hn (hnames hq))
      (by rw [ho, SpanOpen.step, hstill]) ?_
    rw [ho]
    exact hheld false

end Read

theorem step_inv {r : Race} {e : RaceEvent} (h : r.Inv) (he : machine.Enabled r e) :
    (machine.next r e).Inv := by
  cases e with
  | write e => exact h.write he
  | read =>
    cases ho : r.reader with
    | openRotated k => exact h.read_openRotated ho
    | openLive k rotated => exact h.read_openLive ho
    | readSidecar k rotated live => exact h.read_readSidecar ho
    | statRotated k rotated live base => exact h.read_statRotated ho
    | statLive k rotated live base => exact h.read_statLive ho
    | done sp settled =>
      have he : r.reader.isDone = false := he
      simp [ho, SpanOpen.isDone] at he

theorem reaches_called {r : Race} (hr : machine.Reaches (call s) r) :
    r.called = s.stream.length ∧ r.calledIn = s.phase := by
  refine hr.invariant (P := fun r => r.called = s.stream.length ∧ r.calledIn = s.phase)
    (fun r e h _ => ?_) ⟨rfl, rfl⟩
  cases e with
  | write e => exact h
  | read =>
    simp only [machine, Race.read]
    split <;> exact h

/-- **Opening a span while the log rotates.**  A call that returns from a settled attempt serves
exactly the stream between its span's ends, each byte at its own offset, and those ends cover the
stream as it was at the call and stay within the stream as it was at the return.  When at most one
rotation overlaps the call, counting one under way at the call and the create of a log that had no file
yet, the attempt it returns from is settled. -/
theorem span_open_during_rotation {s : Stored} (hs : Stored.writer.Reaches Stored.empty s)
    {r : Race} (hr : machine.Reaches (call s) r) {sp : Span} {settled : Bool}
    (hd : r.reader = .done sp settled) :
    (settled = true →
      (∀ buf o limit, sp.oldest ≤ o →
        sp.readToEnd r.stored.disk.content buf limit o limit =
          r.stored.stream.extract o (min sp.stop (o + limit))) ∧
      (∀ o n, ¬ (sp.oldest ≤ o ∧ o < sp.stop) → sp.readAt r.stored.disk.content o n = []) ∧
      sp.oldest ≤ sp.stop ∧ s.stream.length ≤ sp.stop ∧ sp.stop ≤ r.returned ∧
      r.returned ≤ r.stored.stream.length) ∧
    (r.renames + underWay s.phase ≤ 1 → settled = true) := by
  have hinv : r.Inv := hr.invariant (fun _ _ => step_inv) (call_inv (Stored.reaches_sound hs))
  obtain ⟨hcalled, hcalledIn⟩ := reaches_called hr
  have hsound := hinv.sound
  have hknows := hinv.knows
  have hspoiled := hinv.spoiled
  rw [hd] at hsound hknows hspoiled
  refine ⟨fun hset => ?_, fun hone => ?_⟩
  · obtain ⟨rotated, live, base, rfl, hjoined, hstop, hret⟩ := hknows hset
    rw [SpanOpen.held, ofOpened_files] at hsound
    obtain ⟨hserves, hend⟩ := hjoined.serves hsound
      (fun g hg => List.mem_append_left _ (mem_inodes hg))
      (fun g hg => List.mem_append_right _ (mem_inodes hg))
    refine ⟨fun buf o limit ho => hserves.readToEnd buf limit o limit (Nat.le_refl _) ho,
      fun o n ho => hserves.readAt_eq_nil n ho, hserves.oldest_le, ?_, hstop, hret⟩
    rw [hend, ← hcalled]
    exact hjoined.reaches
  · -- three spoiled attempts need three moves, and one rotation has two
    by_contra hset
    have hmoves : openAttempts ≤ r.moves := hspoiled (by simpa using hset)
    have hbal := hinv.balance
    rw [hcalledIn] at hbal
    simp only [openAttempts] at hmoves
    cases hp : s.phase <;> simp only [hp, owed, underWay] at hone hbal <;> omega

def fullLog : Stored :=
  Stored.writer.play .empty [.create 1, .record, .append [97, 98]]

def rotatedRun : List RaceEvent :=
  [.read, .write .rename, .read, .write (.create 2), .read,
    .read, .read, .write .record, .write (.append [99]), .read, .read, .read]

theorem rotated_span_open :
    ∃ sp, (machine.play (call fullLog) rotatedRun).reader = .done sp true ∧ 2 ≤ sp.stop ∧
      sp.readToEnd (machine.play (call fullLog) rotatedRun).stored.disk.content 0 5 0 5 =
        [97, 98] := by
  have hlog : Stored.writer.Reaches .empty fullLog := Machine.reaches_play (by decide)
  have hrun : machine.Reaches (call fullLog) (machine.play (call fullLog) rotatedRun) :=
    Machine.reaches_play (by decide)
  have hdone : (machine.play (call fullLog) rotatedRun).reader =
      .done ⟨[⟨1, 0, 2, 0⟩, ⟨2, 2, 0, 0⟩], 0, 2⟩ true := by decide
  have h := (span_open_during_rotation hlog hrun hdone).1 rfl
  exact ⟨_, hdone, h.2.2.2.1, (h.1 0 0 5 (Nat.le_refl _)).trans (by decide)⟩

/-- The log's first file is created in the first attempt, and its one rotation falls into the other two. -/
def birthRun : List RaceEvent :=
  [.read, .read, .write (.create 1), .read, .read, .read, .read, .read, .write .record, .write .rename,
    .read, .read, .read, .read, .write (.create 2), .read, .read, .read]

/-- A call on a log that has no file yet may be spoiled three times although one rotation overlaps it. -/
theorem birth_unsettled :
    machine.Reaches (call .empty) (machine.play (call .empty) birthRun) ∧
      (machine.play (call .empty) birthRun).renames = 1 ∧
      ∃ sp, (machine.play (call .empty) birthRun).reader = .done sp false :=
  ⟨Machine.reaches_play (by decide), by decide, ⟨[⟨1, 0, 0, 0⟩], 0, 0⟩, by decide⟩

end Race

end Muster.Log
