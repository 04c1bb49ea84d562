import Muster.Log.Files

/-!
# Span — the kept output of a log, opened as one stream

`SpanOpen` is one call of `Span::open` as a machine of atomic file steps: each attempt opens the
rotated file, opens the live one, reads the sidecar and looks at both paths again.  Reading then
goes through the pieces it placed.  `Serves` says that a span serves every byte of its range from
the stream, at its own offset.
-/

namespace Muster.Log

def openAttempts : ℕ := 3

/-- One generation's file and where it sits in the output stream. -/
structure Piece where
  file : Inode
  start : ℕ
  len : ℕ
  /-- Bytes at the front of the file that fall before offset zero. -/
  skip : ℕ
  deriving DecidableEq, Repr

namespace Piece

def stop (p : Piece) : ℕ := p.start + p.len

def holds (p : Piece) (offset : ℕ) : Bool := p.start ≤ offset && offset < p.stop

theorem holds_iff {p : Piece} {o : ℕ} : p.holds o = true ↔ p.start ≤ o ∧ o < p.stop := by
  simp [holds]

end Piece

/-- The log's kept output as one stream: the rotated generation, then the live one. -/
structure Span where
  pieces : List Piece
  oldest : ℕ
  stop : ℕ
  deriving DecidableEq, Repr

namespace Span

def rotatedPiece (base : ℕ) (g : Generation) : Piece :=
  ⟨g.inode, base - min g.len base, min g.len base, g.len - min g.len base⟩

def livePiece (base : ℕ) (g : Generation) : Piece := ⟨g.inode, base, g.len, 0⟩

def ofOpened (base : ℕ) (rotated live : Option Generation) : Span :=
  let pieces := (rotated.map (rotatedPiece base)).toList ++ (live.map (livePiece base)).toList
  { pieces
    oldest := (pieces.head?.map Piece.start).getD base
    stop := max ((pieces.getLast?.map Piece.stop).getD base) base }

/-- Reads at most `n` bytes from absolute `offset`, from the one piece holding it; none at the end
of the stream. -/
def readAt (content : Inode → Bytes) (sp : Span) (offset n : ℕ) : Bytes :=
  match sp.pieces.find? fun p => p.holds offset with
  | none => []
  | some p =>
    ((content p.file).drop (offset - p.start + p.skip)).take (min n (p.stop - offset))

/-- `SpanReader` behind `take(limit).read_to_end`: reads into buffers of `buf + 1` bytes until
nothing is left.  Every read that goes on returns a byte, so `limit` steps of fuel are enough. -/
def readToEnd (content : Inode → Bytes) (sp : Span) (buf : ℕ) : ℕ → ℕ → ℕ → Bytes
  | 0, _, _ => []
  | fuel + 1, offset, limit =>
    let chunk := sp.readAt content offset (min (buf + 1) limit)
    if chunk = [] then []
    else chunk ++ readToEnd content sp buf fuel (offset + chunk.length) (limit - chunk.length)

end Span

/-- The state of one call of `Span::open`: what the attempt so far has opened and read. -/
inductive SpanOpen where
  | openRotated (attempt : ℕ)
  | openLive (attempt : ℕ) (rotated : Option Generation)
  | readSidecar (attempt : ℕ) (rotated live : Option Generation)
  | statRotated (attempt : ℕ) (rotated live : Option Generation) (base : ℕ)
  | statLive (attempt : ℕ) (rotated live : Option Generation) (base : ℕ)
  | done (span : Span) (settled : Bool)
  deriving DecidableEq, Repr

def stillNames (path : Option Inode) (opened : Option Generation) : Bool :=
  path = opened.map Generation.inode

namespace SpanOpen

def start : SpanOpen := .openRotated 1

def finish (attempt : ℕ) (rotated live : Option Generation) (base : ℕ) (settled : Bool) :
    SpanOpen :=
  if !settled && attempt < openAttempts then .openRotated (attempt + 1)
  else .done (Span.ofOpened base rotated live) settled

/-- The next file step of the call, on the files as they are then. -/
def step (d : Disk) : SpanOpen → SpanOpen
  | .openRotated k => .openLive k d.rotatedGeneration
  | .openLive k rotated => .readSidecar k rotated d.liveGeneration
  | .readSidecar k rotated live =>
    let resolved := LogBase.resolve d.sidecar live rotated
    if resolved.isExact then .statRotated k rotated live resolved.offset
    else finish k rotated live resolved.offset false
  | .statRotated k rotated live base =>
    if stillNames d.rotated rotated then .statLive k rotated live base
    else finish k rotated live base false
  | .statLive k rotated live base => finish k rotated live base (stillNames d.live live)
  | .done sp settled => .done sp settled

def run (d : Disk) : ℕ → SpanOpen → SpanOpen
  | 0, o => o
  | fuel + 1, o => run d fuel (o.step d)

def returned : SpanOpen → Option Span
  | .done sp _ => some sp
  | _ => none

end SpanOpen

/-- `Span::open` on files nobody changes meanwhile: five steps an attempt. -/
def Span.open (d : Disk) : Option Span := (SpanOpen.start.run d (5 * openAttempts)).returned

/-- The bytes of the log from `from` up to `to`, at most `max` of them, and where they start. -/
def readLogRange (d : Disk) (buf from_ to_ max_ : ℕ) : Option (ℕ × Bytes) :=
  (Span.open d).map fun sp =>
    let start := max from_ sp.oldest
    let length := min (min to_ sp.stop) (start + max_) - start
    (start, sp.readToEnd d.content buf length start length)

/-! ### What a span serves -/

namespace Span

/-- The span serves the stretch of `S` from `oldest` to `stop`, each byte at its own offset: every
offset in between lies in a piece, and each piece's file holds that piece's stretch. -/
structure Serves (content : Inode → Bytes) (S : Bytes) (sp : Span) : Prop where
  covers : ∀ o, (∃ p ∈ sp.pieces, p.holds o) ↔ sp.oldest ≤ o ∧ o < sp.stop
  holds : ∀ p ∈ sp.pieces,
    ((content p.file).drop p.skip).take p.len = S.extract p.start p.stop ∧ p.stop ≤ sp.stop
  oldest_le : sp.oldest ≤ sp.stop
  stop_le : sp.stop ≤ S.length

variable {content : Inode → Bytes} {S : Bytes} {sp : Span}

theorem Serves.readAt (h : sp.Serves content S) {o n : ℕ} (ho : sp.oldest ≤ o) (hs : o < sp.stop) :
    ∃ j, o < j ∧ j ≤ sp.stop ∧ sp.readAt content o n = S.extract o (min j (o + n)) := by
  obtain ⟨p0, hp0, hh0⟩ := (h.covers o).mpr ⟨ho, hs⟩
  obtain ⟨p, hp⟩ : ∃ p, sp.pieces.find? (fun p => p.holds o) = some p := by
    rw [← Option.isSome_iff_exists, List.find?_isSome]
    exact ⟨p0, hp0, hh0⟩
  have hmem := List.mem_of_find?_eq_some hp
  have hholds := Piece.holds_iff.mp (by simpa using List.find?_some hp)
  obtain ⟨heq, hstop⟩ := h.holds p hmem
  refine ⟨p.stop, hholds.2, hstop, ?_⟩
  simp only [Span.readAt, hp]
  -- the wanted bytes lie inside the piece, so they may be cut out of its stretch
  have hcut : ((content p.file).drop (o - p.start + p.skip)).take (min n (p.stop - o)) =
      ((((content p.file).drop p.skip).take p.len).drop (o - p.start)).take
        (min n (p.stop - o)) := by
    rw [List.drop_take, List.take_take, List.drop_drop]
    congr 1
    · simp only [Piece.stop] at hholds ⊢
      omega
    · congr 1
      omega
  rw [hcut, heq, take_drop_extract]
  congr 1 <;> omega

theorem Serves.readAt_eq_nil (h : sp.Serves content S) {o : ℕ} (n : ℕ)
    (ho : ¬ (sp.oldest ≤ o ∧ o < sp.stop)) : sp.readAt content o n = [] := by
  have hn : sp.pieces.find? (fun p => p.holds o) = none := by
    rw [List.find?_eq_none]
    intro p hp hh
    exact ho ((h.covers o).mp ⟨p, hp, hh⟩)
  simp [Span.readAt, hn]

/-- **Reading a span through.**  From any offset not before its oldest byte, reading at most `limit`
bytes gives the stream's stretch up to the limit or the span's end. -/
theorem Serves.readToEnd (h : sp.Serves content S) (buf : ℕ) :
    ∀ (fuel o limit : ℕ), limit ≤ fuel → sp.oldest ≤ o →
      sp.readToEnd content buf fuel o limit = S.extract o (min sp.stop (o + limit))
  | 0, o, limit, hf, _ => by
    rw [Span.readToEnd, extract_of_le]
    omega
  | fuel + 1, o, limit, hf, ho => by
    by_cases hs : o < sp.stop
    · obtain ⟨j, hj, hjs, hr⟩ := h.readAt (n := min (buf + 1) limit) ho hs
      have hlen : (S.extract o (min j (o + min (buf + 1) limit))).length =
          min j (o + min (buf + 1) limit) - o := by
        rw [length_extract]
        have := h.stop_le
        omega
      by_cases hl : limit = 0
      · subst hl
        rw [Span.readToEnd, hr, extract_of_le _ (by omega), extract_of_le _ (by omega)]
        rfl
      · have hne : S.extract o (min j (o + min (buf + 1) limit)) ≠ [] := by
          intro hnil
          rw [hnil, List.length_nil] at hlen
          omega
        rw [Span.readToEnd]
        simp only [hr, hne, if_false, hlen]
        rw [h.readToEnd buf fuel _ _ (by omega) (by omega)]
        have hmid : o + (min j (o + min (buf + 1) limit) - o) =
            min j (o + min (buf + 1) limit) := by omega
        rw [hmid, extract_append_extract _ (by omega) (by omega)]
        congr 1
        omega
    · rw [Span.readToEnd, h.readAt_eq_nil _ (by omega), extract_of_le _ (by omega)]
      rfl

def lenOf (g : Option Generation) : ℕ := (g.map Generation.len).getD 0

/-- **The pieces of two generations that tile the stream serve it.** -/
theorem ofOpened_serves {base : ℕ} {rotated live : Option Generation}
    (hr : ∀ g ∈ rotated, g.len ≤ base ∧
      (content g.inode).take g.len = S.extract (base - g.len) base)
    (hl : ∀ g ∈ live, (content g.inode).take g.len = S.extract base (base + g.len))
    (hS : base + lenOf live ≤ S.length) :
    (ofOpened base rotated live).Serves content S ∧
      (ofOpened base rotated live).oldest = base - lenOf rotated ∧
      (ofOpened base rotated live).stop = base + lenOf live := by
  have hrot : ∀ g ∈ rotated, rotatedPiece base g = ⟨g.inode, base - g.len, g.len, 0⟩ := by
    intro g hg
    have := (hr g hg).1
    simp [rotatedPiece, this]
  rcases rotated with _ | r <;> rcases live with _ | a
  · simp only [lenOf, Option.map_none, Option.getD_none] at hS ⊢
    refine ⟨⟨?_, ?_, ?_, ?_⟩, ?_, ?_⟩ <;> simp [ofOpened]
    omega
  · have h1 := hl a rfl
    simp only [lenOf, Option.map_none, Option.getD_none, Option.map_some, Option.getD_some]
      at hS ⊢
    refine ⟨⟨?_, ?_, ?_, ?_⟩, ?_, ?_⟩ <;>
      simp [ofOpened, livePiece, Piece.holds_iff, Piece.stop, h1]
    omega
  · have h1 := hrot r rfl
    obtain ⟨h2, h3⟩ := hr r rfl
    simp only [lenOf, Option.map_none, Option.getD_none, Option.map_some, Option.getD_some]
      at hS ⊢
    refine ⟨⟨?_, ?_, ?_, ?_⟩, ?_, ?_⟩ <;>
      simp [ofOpened, h1, Piece.holds_iff, Piece.stop, h2, h3] <;> omega
  · have h1 := hrot r rfl
    have h2 := hl a rfl
    obtain ⟨h3, h4⟩ := hr r rfl
    simp only [lenOf, Option.map_some, Option.getD_some] at hS ⊢
    refine ⟨⟨?_, ?_, ?_, ?_⟩, ?_, ?_⟩ <;>
      simp [ofOpened, h1, livePiece, Piece.holds_iff, Piece.stop, h2, h3, h4] <;> omega

end Span

/-! ### Opening files nobody changes -/

namespace SpanOpen

theorem run_done (d : Disk) (sp : Span) (b : Bool) : ∀ n, run d n (.done sp b) = .done sp b
  | 0 => rfl
  | n + 1 => by rw [run, step, run_done d sp b n]

theorem stillNames_self (d : Disk) (path : Option Inode) :
    stillNames path (path.map d.generation) = true := by
  cases path <;> simp [stillNames, Disk.generation]

theorem open_of_exact {d : Disk} {base : ℕ}
    (h : LogBase.resolve d.sidecar d.liveGeneration d.rotatedGeneration = ⟨base, true⟩) :
    Span.open d = some (Span.ofOpened base d.rotatedGeneration d.liveGeneration) := by
  have hnames : stillNames d.rotated d.rotatedGeneration = true ∧
      stillNames d.live d.liveGeneration = true :=
    ⟨stillNames_self _ _, stillNames_self _ _⟩
  have hrun : ∀ n, run d (n + 5) .start =
      .done (Span.ofOpened base d.rotatedGeneration d.liveGeneration) true := by
    intro n
    simp only [run, start, step, h, hnames, finish, if_true, Bool.not_true, Bool.false_and,
      Bool.false_eq_true, if_false, run_done]
  exact congrArg returned (hrun 10)

end SpanOpen

namespace Stored

variable {held : List Inode} {s : Stored}

theorem Sound.spanOpen (h : s.Sound held) :
    Span.open s.disk = some (Span.ofOpened (s.stream.length - (s.disk.bytesOf s.disk.live).length)
      s.disk.rotatedGeneration s.disk.liveGeneration) :=
  SpanOpen.open_of_exact h.resolve

theorem lenOf_generation (d : Disk) (path : Option Inode) :
    Span.lenOf (path.map d.generation) = (d.bytesOf path).length := by
  cases path <;> simp [Span.lenOf, Disk.bytesOf, Disk.generation]

theorem Sound.tiled (h : s.Sound held) :
    let base := s.stream.length - (s.disk.bytesOf s.disk.live).length
    (∀ g ∈ s.disk.rotatedGeneration, g.len ≤ base ∧
      (s.disk.content g.inode).take g.len = s.stream.extract (base - g.len) base) ∧
    (∀ g ∈ s.disk.liveGeneration,
      (s.disk.content g.inode).take g.len = s.stream.extract base (base + g.len)) ∧
    base + (s.disk.bytesOf s.disk.live).length = s.stream.length := by
  have hlive : ∀ a, s.disk.live = some a →
      s.starts a = s.stream.length - (s.disk.bytesOf s.disk.live).length ∧
        (s.disk.content a).length ≤ s.stream.length := by
    intro a ha
    have := h.live_stop a ha
    simp only [stop] at this
    simp only [Disk.bytesOf, ha, Option.map_some, Option.getD_some]
    omega
  refine ⟨fun g hg => ?_, fun g hg => ?_, ?_⟩
  · obtain ⟨r, hr, rfl⟩ := Option.map_eq_some_iff.mp hg
    have hstop : s.stop r = s.stream.length - (s.disk.bytesOf s.disk.live).length := by
      cases hl : s.disk.live with
      | none => simpa [Disk.bytesOf, hl] using h.renamed_stop r hl hr
      | some a => rw [h.rotated_stop a r hl hr, (hlive a hl).1, hl]
    have hpl := (h.placed r (Or.inr (Or.inl hr))).1
    rw [hstop] at hpl
    simp only [stop] at hstop
    simp only [Disk.generation, List.take_length]
    refine ⟨by omega, hpl.trans ?_⟩
    congr 1
    omega
  · obtain ⟨a, ha, rfl⟩ := Option.map_eq_some_iff.mp hg
    have hpl := (h.placed a (Or.inl ha)).1
    simp only [Disk.generation, List.take_length]
    rw [stop, (hlive a ha).1] at hpl
    exact hpl
  · cases hl : s.disk.live with
    | none => simp [Disk.bytesOf]
    | some a =>
      have := (hlive a hl).2
      simp only [Disk.bytesOf, Option.map_some, Option.getD_some]
      omega

/-- **Opening the log.**  The span opened ends where the stream does, starts the lengths of the
files present before that, and serves the stream in between. -/
theorem Sound.open_serves (h : s.Sound held) :
    ∃ sp, Span.open s.disk = some sp ∧ sp.Serves s.disk.content s.stream ∧
      sp.stop = s.stream.length ∧
      sp.oldest + (s.disk.bytesOf s.disk.rotated).length + (s.disk.bytesOf s.disk.live).length =
        s.stream.length := by
  obtain ⟨hr, hl, hlen⟩ := h.tiled
  refine ⟨_, h.spanOpen, ?_⟩
  obtain ⟨hserves, holdest, hstop⟩ := Span.ofOpened_serves hr hl
    (by rw [Disk.liveGeneration, lenOf_generation]; exact Nat.le_of_eq hlen)
  rw [Disk.liveGeneration, lenOf_generation] at hstop
  rw [Disk.rotatedGeneration, lenOf_generation] at holdest
  refine ⟨hserves, by rw [← Disk.liveGeneration] at hstop; exact hstop.trans hlen, ?_⟩
  have hle : (s.disk.bytesOf s.disk.rotated).length ≤
      s.stream.length - (s.disk.bytesOf s.disk.live).length := by
    cases hrot : s.disk.rotated with
    | none => simp [Disk.bytesOf]
    | some r => exact (hr (s.disk.generation r) (by simp [Disk.rotatedGeneration, hrot])).1
  rw [← Disk.rotatedGeneration] at holdest
  omega

end Stored

end Muster.Log
