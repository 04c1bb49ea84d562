import Mathlib.Data.Nat.Find
import Muster.Log.Files

/-!
# ScreenGate — what of a child's output its log keeps

The emulator scans a child's output byte by byte and notes where the alternate screen comes up and
where it goes away; the gate keeps what was drawn on the primary screen and puts one fixed line in
place of each stay on the alternate one.  Output comes in chunks of any size.

`pieces` is what the log should be, with no chunks in sight: the stream cut into stretches shown on
the primary screen and stretches hidden, from the first byte of the sequence that brings the
alternate screen up through the byte at which it goes away.  The gate logs just that, except that of
a sequence the end of a chunk cut it has logged what came before the cut.

The scanner is a parameter: any machine that makes an observation of each byte.
-/

namespace Muster.Holder

open Log (Bytes endOpenLine)

/-! ### The scanner's switches -/

/-- What the mode scanner concluded after consuming one byte. -/
inductive Observation where
  | nothing
  | enterAlternate
  | leaveAlternate
  | scrollRegion (top : ℕ) (bottom : Option ℕ)
  | fullReset
  | setTabStop
  | clearTabStop
  | clearAllTabStops
  | shiftOut
  | shiftIn
  | dropped
  deriving DecidableEq, Repr

/-- A point in one chunk where the screen changed: just past the byte that made the switch, and
whether the alternate screen is up from there on. -/
structure ScreenSwitch where
  at_ : ℕ
  alternate : Bool
  deriving DecidableEq, Repr

/-- The part of the emulator that follows the screen. -/
structure TerminalEmulator (σ : Type*) where
  scanner : σ
  scannedAlternate : Bool
  switches : List ScreenSwitch

namespace TerminalEmulator

variable {σ : Type*} (feed : σ → UInt8 → σ × Observation)

/-- The byte at `index` of the chunk being fed leaves the alternate screen up or not. -/
def noteScreen (e : TerminalEmulator σ) (index : ℕ) (alternate : Bool) : TerminalEmulator σ :=
  if alternate = e.scannedAlternate then e
  else { e with
    scannedAlternate := alternate
    switches := e.switches ++ [⟨index + 1, alternate⟩] }

def observe (e : TerminalEmulator σ) (index : ℕ) : Observation → TerminalEmulator σ
  | .enterAlternate => e.noteScreen index true
  | .leaveAlternate | .fullReset => e.noteScreen index false
  | _ => e

def scan : TerminalEmulator σ → ℕ → Bytes → TerminalEmulator σ
  | e, _, [] => e
  | e, index, byte :: rest =>
    let (scanner, observation) := feed e.scanner byte
    scan ({ e with scanner }.observe index observation) (index + 1) rest

def process (e : TerminalEmulator σ) (bytes : Bytes) : TerminalEmulator σ := e.scan feed 0 bytes

def scanSwitches (e : TerminalEmulator σ) (bytes : Bytes) (from_ : ℕ) : TerminalEmulator σ :=
  e.scan feed from_ (bytes.drop from_)

/-- `process_or_reset`: the backend takes the chunk, or panics when `scanned` bytes of it were
scanned; the rest is scanned all the same. -/
def processOrReset (e : TerminalEmulator σ) (bytes : Bytes) : Option ℕ → TerminalEmulator σ
  | none => e.process feed bytes
  | some scanned => (e.process feed (bytes.take scanned)).scanSwitches feed bytes scanned

end TerminalEmulator

/-! ### The gate -/

def esc : UInt8 := 0x1b

def pushPen : Bytes := [0x1b, 0x5b, 0x23, 0x7b]

def sgrReset : Bytes := [0x1b, 0x5b, 0x30, 0x6d]

def popPen : Bytes := [0x1b, 0x5b, 0x23, 0x7d]

def fullScreenLine : String := "[full-screen output not logged]"

def lineBreak : Bytes := [0x0d, 0x0a]

def fullScreenMark : Bytes :=
  endOpenLine ++ pushPen ++ sgrReset ++ fullScreenLine.toUTF8.toList ++ popPen ++ lineBreak

def rposition {α : Type*} (p : α → Bool) : List α → Option ℕ
  | [] => none
  | a :: rest => match rposition p rest with
    | some i => some (i + 1)
    | none => if p a then some 0 else none

structure ScreenGate where
  alternate : Bool
  deriving DecidableEq, Repr

namespace ScreenGate

/-- The loop of `logged` over the switches of a chunk, from `from_` on. -/
def loop (bytes : Bytes) : List ScreenSwitch → Bool → ℕ → Bytes → Bool × Bytes
  | [], alternate, from_, logged =>
    (alternate, if alternate then logged else logged ++ bytes.drop from_)
  | switch :: switches, alternate, from_, logged =>
    let at_ := max from_ (min switch.at_ bytes.length)
    let logged := if alternate then logged else
      let kept := if switch.alternate then
          ((rposition (· == esc) (bytes.extract from_ at_)).map (from_ + ·)).getD from_
        else at_
      logged ++ bytes.extract from_ kept ++ if switch.alternate then fullScreenMark else []
    loop bytes switches switch.alternate at_ logged

/-- What the log keeps of a chunk in which the emulator found `switches`. -/
def logged (gate : ScreenGate) (bytes : Bytes) (switches : List ScreenSwitch) : ScreenGate × Bytes :=
  if switches.isEmpty then (gate, if gate.alternate then [] else bytes)
  else
    let (alternate, logged) := loop bytes switches gate.alternate 0 []
    (⟨alternate⟩, logged)

end ScreenGate

/-- A chunk of output, and how much of it was scanned when the backend panicked, if it did. -/
structure Chunk where
  bytes : Bytes
  panics : Option ℕ
  deriving DecidableEq, Repr

/-- What the log is given of a run of chunks, from the states of emulator and gate. -/
def loggedOf {σ : Type*} (feed : σ → UInt8 → σ × Observation) :
    TerminalEmulator σ → ScreenGate → List Chunk → Bytes
  | _, _, [] => []
  | e, gate, chunk :: rest =>
    let e := e.processOrReset feed chunk.bytes chunk.panics
    let (gate, logged) := gate.logged chunk.bytes e.switches
    logged ++ loggedOf feed { e with switches := [] } gate rest

/-! ### The stream without chunks -/

/-- A stretch of the stream: shown on the primary screen, or hidden from the log, the sequence that
brings the alternate screen up first. -/
inductive Piece where
  | shown (bytes : Bytes)
  | hidden (entering rest : Bytes)
  deriving DecidableEq, Repr

/-- The stream cut at its switches: each stretch up to and with the byte that switches, and whether
the alternate screen is up then; and the bytes after the last switch. -/
structure Cut where
  ended : List (Bytes × Bool)
  open_ : Bytes

namespace Cut

def push (held : Bytes) : Cut → Cut
  | ⟨[], open_⟩ => ⟨[], held ++ open_⟩
  | ⟨(bytes, alternate) :: rest, open_⟩ => ⟨(held ++ bytes, alternate) :: rest, open_⟩

end Cut

/-- The screen a byte switches to, with `alternate` up before it. -/
def switchTo (alternate : Bool) : Observation → Option Bool
  | .enterAlternate => if alternate then none else some true
  | .leaveAlternate | .fullReset => if alternate then some false else none
  | _ => none

/-- The stream cut where the scanner finds a switch. -/
def cutStream {σ : Type*} (feed : σ → UInt8 → σ × Observation) : σ → Bool → Bytes → Cut
  | _, _, [] => ⟨[], []⟩
  | s, alternate, byte :: rest =>
    let (s, observation) := feed s byte
    match switchTo alternate observation with
    | some alternate =>
      let cut := cutStream feed s alternate rest
      ⟨([byte], alternate) :: cut.ended, cut.open_⟩
    | none => (cutStream feed s alternate rest).push [byte]

/-- Where in a stretch that brings the alternate screen up its sequence starts: at its last escape;
with no escape since the last switch, right after that. -/
def escapeAt (bytes : Bytes) : ℕ := (rposition (· == esc) bytes).getD 0

/-- Where the stream stands between two stretches: the bytes of the primary screen held since the
last switch, or those of a stretch that is hidden. -/
inductive Screen where
  | primary (held : Bytes)
  | alternate (entering rest : Bytes)
  deriving DecidableEq, Repr

def piecesOf : Screen → List (Bytes × Bool) → Bytes → List Piece
  | .primary held, [], open_ => [.shown (held ++ open_)]
  | .primary held, (bytes, true) :: rest, open_ =>
    .shown ((held ++ bytes).take (escapeAt (held ++ bytes))) ::
      piecesOf (.alternate ((held ++ bytes).drop (escapeAt (held ++ bytes))) []) rest open_
  | .primary held, (bytes, false) :: rest, open_ =>
    .shown (held ++ bytes) :: piecesOf (.primary []) rest open_
  | .alternate entering hidden, [], open_ => [.hidden entering (hidden ++ open_)]
  | .alternate entering hidden, (bytes, true) :: rest, open_ =>
    piecesOf (.alternate entering (hidden ++ bytes)) rest open_
  | .alternate entering hidden, (bytes, false) :: rest, open_ =>
    .hidden entering (hidden ++ bytes) :: piecesOf (.primary []) rest open_

def pieces {σ : Type*} (feed : σ → UInt8 → σ × Observation) (s : σ) (stream : Bytes) : List Piece :=
  let cut := cutStream feed s false stream
  piecesOf (.primary []) cut.ended cut.open_

namespace Piece

def bytes : Piece → Bytes
  | shown bytes => bytes
  | hidden entering rest => entering ++ rest

/-- What the log has for a piece. -/
def logged : Piece → Bytes
  | shown bytes => bytes
  | hidden _ _ => fullScreenMark

end Piece

/-- How much of the `n` bytes at `start` comes before the last of `bounds` strictly inside them. -/
def cutBefore (bounds : List ℕ) (start n : ℕ) : ℕ := Nat.findGreatest (start + · ∈ bounds) (n - 1)

/-- What the log has for pieces from `start` on when the chunks end at `bounds`: of a sequence that
was cut, also the bytes before the cut. -/
def loggedAt (bounds : List ℕ) : ℕ → List Piece → Bytes
  | _, [] => []
  | start, .shown bytes :: rest => bytes ++ loggedAt bounds (start + bytes.length) rest
  | start, .hidden entering hidden :: rest =>
    entering.take (cutBefore bounds start entering.length) ++ fullScreenMark ++
      loggedAt bounds (start + (entering.length + hidden.length)) rest

/-- None of `bounds` falls strictly inside the sequence of a hidden piece. -/
def Uncut (bounds : List ℕ) : ℕ → List Piece → Prop
  | _, [] => True
  | start, .shown bytes :: rest => Uncut bounds (start + bytes.length) rest
  | start, .hidden entering hidden :: rest =>
    (∀ bound ∈ bounds, bound ≤ start ∨ start + entering.length ≤ bound) ∧
      Uncut bounds (start + (entering.length + hidden.length)) rest

instance Uncut.decidable (bounds : List ℕ) : ∀ start pieces, Decidable (Uncut bounds start pieces)
  | _, [] => isTrue trivial
  | start, .shown bytes :: rest => Uncut.decidable bounds (start + bytes.length) rest
  | start, .hidden entering hidden :: rest =>
    have := Uncut.decidable bounds (start + (entering.length + hidden.length)) rest
    inferInstanceAs (Decidable ((∀ bound ∈ bounds, bound ≤ start ∨ start + entering.length ≤ bound) ∧
      Uncut bounds (start + (entering.length + hidden.length)) rest))

def boundsFrom : ℕ → List Chunk → List ℕ
  | _, [] => []
  | start, chunk :: rest =>
    (start + chunk.bytes.length) :: boundsFrom (start + chunk.bytes.length) rest

/-! ### The last escape -/

section Rposition

variable {α : Type*} (p : α → Bool)

theorem rposition_lt : ∀ {as : List α} {i : ℕ}, rposition p as = some i → i < as.length
  | [], _, h => nomatch h
  | a :: rest, i, h => by
    unfold rposition at h
    cases hrest : rposition p rest with
    | some j =>
      have hlt := rposition_lt hrest
      obtain rfl : j + 1 = i := by simpa [hrest] using h
      simpa using hlt
    | none =>
      have hi : i = 0 := by
        simp only [hrest] at h
        split at h
        · exact (Option.some.inj h).symm
        · cases h
      simp [hi]

theorem rposition_append (as bs : List α) :
    rposition p (as ++ bs) = match rposition p bs with
      | some i => some (as.length + i)
      | none => rposition p as := by
  induction as with
  | nil => cases hbs : rposition p bs <;> simp [rposition, hbs]
  | cons a as ih =>
    rw [List.cons_append, rposition, ih]
    cases hbs : rposition p bs with
    | some i => simp only [List.length_cons, Option.some.injEq]; omega
    | none => rw [rposition]

end Rposition

theorem escapeAt_le (bytes : Bytes) : escapeAt bytes ≤ bytes.length := by
  unfold escapeAt
  cases h : rposition (· == esc) bytes with
  | none => exact Nat.zero_le _
  | some i => exact Nat.le_of_lt (rposition_lt _ h)

/-! ### Scanning -/

namespace TerminalEmulator

variable {σ : Type*} {feed : σ → UInt8 → σ × Observation} {observation : Observation}

theorem scan_cons (e : TerminalEmulator σ) (index : ℕ) (byte : UInt8) (rest : Bytes) :
    e.scan feed index (byte :: rest) = TerminalEmulator.scan feed
      ({ e with scanner := (feed e.scanner byte).1 }.observe index (feed e.scanner byte).2)
      (index + 1) rest := rfl

theorem scan_append (e : TerminalEmulator σ) (index : ℕ) (as bs : Bytes) :
    e.scan feed index (as ++ bs) = (e.scan feed index as).scan feed (index + as.length) bs := by
  induction as generalizing e index with
  | nil => rfl
  | cons a as ih =>
    rw [List.cons_append, scan_cons, ih, scan_cons, List.length_cons, Nat.add_assoc, Nat.add_comm 1]

theorem observe_switch {s : σ} {alternate alternate' : Bool} {switches : List ScreenSwitch}
    {index : ℕ} (h : switchTo alternate observation = some alternate') :
    observe ⟨s, alternate, switches⟩ index observation =
      ⟨s, alternate', switches ++ [⟨index + 1, alternate'⟩]⟩ := by
  cases observation <;> cases alternate <;> simp_all [observe, noteScreen, switchTo]

theorem observe_same {s : σ} {alternate : Bool} {switches : List ScreenSwitch} {index : ℕ}
    (h : switchTo alternate observation = none) :
    observe ⟨s, alternate, switches⟩ index observation = ⟨s, alternate, switches⟩ := by
  cases observation <;> cases alternate <;> simp_all [observe, noteScreen, switchTo]

/-- A panic of the backend changes nothing of what the scanner finds. -/
theorem processOrReset_eq (e : TerminalEmulator σ) (bytes : Bytes) (panics : Option ℕ) :
    e.processOrReset feed bytes panics = e.process feed bytes := by
  cases panics with
  | none => rfl
  | some scanned =>
    show (e.scan feed 0 (bytes.take scanned)).scan feed scanned (bytes.drop scanned) =
      e.scan feed 0 bytes
    by_cases hle : scanned ≤ bytes.length
    · have hlen : (bytes.take scanned).length = scanned := List.length_take_of_le hle
      calc (e.scan feed 0 (bytes.take scanned)).scan feed scanned (bytes.drop scanned)
          = e.scan feed 0 (bytes.take scanned ++ bytes.drop scanned) := by
            rw [scan_append, hlen, Nat.zero_add]
        _ = e.scan feed 0 bytes := by rw [List.take_append_drop]
    · rw [List.take_of_length_le (by omega), List.drop_eq_nil_of_le (by omega)]
      rfl

end TerminalEmulator

namespace Cut

/-- The switches of a cut, in a chunk whose scanned part begins at `index`. -/
def switches : ℕ → List (Bytes × Bool) → List ScreenSwitch
  | _, [] => []
  | index, (bytes, alternate) :: rest =>
    ⟨index + bytes.length, alternate⟩ :: switches (index + bytes.length) rest

def lastScreen (alternate : Bool) : List (Bytes × Bool) → Bool
  | [] => alternate
  | (_, alternate) :: rest => lastScreen alternate rest

def bytes (cut : Cut) : Bytes := cut.ended.flatMap (·.1) ++ cut.open_

/-- One cut after the other: the open bytes of the first go on in the second. -/
def join (c d : Cut) : Cut :=
  let d := d.push c.open_
  ⟨c.ended ++ d.ended, d.open_⟩

theorem push_push (a b : Bytes) (c : Cut) : (c.push b).push a = c.push (a ++ b) := by
  obtain ⟨_ | ⟨⟨bytes, alternate⟩, rest⟩, open_⟩ := c <;> simp [push]

theorem push_nil (c : Cut) : c.push [] = c := by
  obtain ⟨_ | ⟨⟨bytes, alternate⟩, rest⟩, open_⟩ := c <;> rfl

theorem bytes_push (a : Bytes) (c : Cut) : (c.push a).bytes = a ++ c.bytes := by
  obtain ⟨_ | ⟨⟨bytes, alternate⟩, rest⟩, open_⟩ := c <;> simp [push, Cut.bytes]

theorem join_push (a : Bytes) (c d : Cut) : (c.push a).join d = (c.join d).push a := by
  obtain ⟨_ | ⟨⟨bytes, alternate⟩, rest⟩, open_⟩ := c
  · exact (push_push a open_ d).symm
  · rfl

theorem join_ended_cons (stretch : Bytes × Bool) (ended : List (Bytes × Bool)) (open_ : Bytes)
    (d : Cut) : ((⟨stretch :: ended, open_⟩ : Cut).join d).ended =
      stretch :: ((⟨ended, open_⟩ : Cut).join d).ended := rfl

theorem join_open_cons (stretch : Bytes × Bool) (ended : List (Bytes × Bool)) (open_ : Bytes)
    (d : Cut) : ((⟨stretch :: ended, open_⟩ : Cut).join d).open_ =
      ((⟨ended, open_⟩ : Cut).join d).open_ := rfl

theorem lastScreen_push (alternate : Bool) (a : Bytes) (c : Cut) :
    lastScreen alternate (c.push a).ended = lastScreen alternate c.ended := by
  obtain ⟨_ | ⟨⟨bytes, alternate⟩, rest⟩, open_⟩ := c <;> rfl

theorem switches_push (index : ℕ) (a : Bytes) (c : Cut) :
    switches index (c.push a).ended = switches (index + a.length) c.ended := by
  obtain ⟨_ | ⟨⟨bytes, alternate⟩, rest⟩, open_⟩ := c
  · rfl
  · simp [push, switches, Nat.add_assoc]

end Cut

section CutStream

variable {σ : Type*} (feed : σ → UInt8 → σ × Observation)

def scanned : σ → Bytes → σ := List.foldl fun s byte => (feed s byte).1

variable {feed} in
theorem cutStream_switch {s : σ} {alternate alternate' : Bool} {byte : UInt8}
    (h : switchTo alternate (feed s byte).2 = some alternate') (rest : Bytes) :
    cutStream feed s alternate (byte :: rest) =
      ⟨([byte], alternate') :: (cutStream feed (feed s byte).1 alternate' rest).ended,
        (cutStream feed (feed s byte).1 alternate' rest).open_⟩ := by
  simp only [cutStream, h]

variable {feed} in
theorem cutStream_same {s : σ} {alternate : Bool} {byte : UInt8}
    (h : switchTo alternate (feed s byte).2 = none) (rest : Bytes) :
    cutStream feed s alternate (byte :: rest) =
      (cutStream feed (feed s byte).1 alternate rest).push [byte] := by
  simp only [cutStream, h]

theorem cutStream_bytes (s : σ) (alternate : Bool) (bytes : Bytes) :
    (cutStream feed s alternate bytes).bytes = bytes := by
  induction bytes generalizing s alternate with
  | nil => rfl
  | cons byte rest ih =>
    cases h : switchTo alternate (feed s byte).2 with
    | some alternate' =>
      have hrest := ih (feed s byte).1 alternate'
      simp only [Cut.bytes] at hrest
      simp [cutStream_switch h, Cut.bytes, hrest]
    | none =>
      rw [cutStream_same h, Cut.bytes_push, ih]
      rfl

theorem cutStream_ne_nil (s : σ) (alternate : Bool) (bytes : Bytes) :
    ∀ stretch ∈ (cutStream feed s alternate bytes).ended, stretch.1 ≠ [] := by
  induction bytes generalizing s alternate with
  | nil => exact fun _ h => nomatch h
  | cons byte rest ih =>
    cases h : switchTo alternate (feed s byte).2 with
    | some alternate' =>
      rw [cutStream_switch h]
      intro stretch hmem
      obtain rfl | hmem := List.mem_cons.1 hmem
      · simp
      · exact ih _ _ stretch hmem
    | none =>
      rw [cutStream_same h]
      have hrest := ih (feed s byte).1 alternate
      generalize cutStream feed (feed s byte).1 alternate rest = cut at hrest
      obtain ⟨_ | ⟨⟨bytes, a⟩, more⟩, open_⟩ := cut
      · exact fun _ h => nomatch h
      · intro stretch hmem
        obtain rfl | hmem := List.mem_cons.1 hmem
        · simp
        · exact hrest stretch (List.mem_cons_of_mem _ hmem)

theorem cutStream_append (s : σ) (alternate : Bool) (as bs : Bytes) :
    cutStream feed s alternate (as ++ bs) =
      (cutStream feed s alternate as).join (cutStream feed (scanned feed s as)
        (Cut.lastScreen alternate (cutStream feed s alternate as).ended) bs) := by
  induction as generalizing s alternate with
  | nil => simp [cutStream, Cut.join, Cut.push_nil, scanned, Cut.lastScreen]
  | cons byte as ih =>
    cases h : switchTo alternate (feed s byte).2 with
    | some alternate' =>
      rw [List.cons_append, cutStream_switch h, cutStream_switch h, ih]
      rfl
    | none =>
      rw [List.cons_append, cutStream_same h, cutStream_same h, ih, Cut.join_push,
        Cut.lastScreen_push]
      rfl

theorem scan_eq (e : TerminalEmulator σ) (index : ℕ) (bytes : Bytes) :
    e.scan feed index bytes =
      ⟨scanned feed e.scanner bytes,
        Cut.lastScreen e.scannedAlternate (cutStream feed e.scanner e.scannedAlternate bytes).ended,
        e.switches ++
          Cut.switches index (cutStream feed e.scanner e.scannedAlternate bytes).ended⟩ := by
  induction bytes generalizing e index with
  | nil => simp [TerminalEmulator.scan, scanned, cutStream, Cut.lastScreen, Cut.switches]
  | cons byte rest ih =>
    obtain ⟨s, alternate, switches⟩ := e
    rw [TerminalEmulator.scan_cons]
    cases h : switchTo alternate (feed s byte).2 with
    | some alternate' =>
      rw [cutStream_switch h, TerminalEmulator.observe_switch h, ih]
      simp [scanned, Cut.lastScreen, Cut.switches]
    | none =>
      rw [cutStream_same h, TerminalEmulator.observe_same h, ih]
      simp [scanned, Cut.lastScreen_push, Cut.switches_push]

end CutStream

/-! ### One chunk -/

/-- What the log keeps of a chunk, by its stretches. -/
def chunkLogged (alternate : Bool) : List (Bytes × Bool) → Bytes → Bytes
  | [], open_ => if alternate then [] else open_
  | (bytes, next) :: rest, open_ =>
    (if alternate then []
      else if next then bytes.take (escapeAt bytes) ++ fullScreenMark else bytes) ++
      chunkLogged next rest open_

theorem loop_eq (before : Bytes) (ended : List (Bytes × Bool)) (open_ : Bytes) (alternate : Bool)
    (logged : Bytes) :
    ScreenGate.loop (before ++ (ended.flatMap (·.1) ++ open_)) (Cut.switches before.length ended)
        alternate before.length logged =
      (Cut.lastScreen alternate ended, logged ++ chunkLogged alternate ended open_) := by
  induction ended generalizing before alternate logged with
  | nil => cases alternate <;> simp [Cut.switches, ScreenGate.loop, chunkLogged, Cut.lastScreen]
  | cons stretch rest ih =>
    obtain ⟨bytes, next⟩ := stretch
    have hat : max before.length (min (before.length + bytes.length)
        (before ++ (((bytes, next) :: rest).flatMap (·.1) ++ open_)).length) =
          before.length + bytes.length := by
      simp only [List.flatMap_cons, List.length_append]
      omega
    have hslice : ∀ n, n ≤ bytes.length →
        (before ++ (((bytes, next) :: rest).flatMap (·.1) ++ open_)).extract before.length
          (before.length + n) = bytes.take n := fun n hn => by
      rw [List.extract_eq_take_drop, List.drop_left, Nat.add_sub_cancel_left]
      simp [List.take_append_of_le_length hn]
    have hjoined : before ++ (((bytes, next) :: rest).flatMap (·.1) ++ open_) =
        (before ++ bytes) ++ (rest.flatMap (·.1) ++ open_) := by simp
    simp only [Cut.switches, ScreenGate.loop, hat]
    rw [hslice _ (Nat.le_refl _), List.take_length]
    have hkept : (before ++ (((bytes, next) :: rest).flatMap (·.1) ++ open_)).extract before.length
        (if next then ((rposition (· == esc) bytes).map (before.length + ·)).getD before.length
          else before.length + bytes.length) =
          if next then bytes.take (escapeAt bytes) else bytes := by
      cases next with
      | false => exact (hslice bytes.length (Nat.le_refl _)).trans List.take_length
      | true =>
        have hle := escapeAt_le bytes
        have hat : ((rposition (· == esc) bytes).map (before.length + ·)).getD before.length =
            before.length + escapeAt bytes := by
          unfold escapeAt
          cases rposition (· == esc) bytes <;> simp
        simp only [↓reduceIte, hat]
        exact hslice _ hle
    rw [hkept, hjoined]
    have hnext := ih (before ++ bytes)
    rw [List.length_append] at hnext
    rw [hnext]
    cases alternate <;> cases next <;> simp [chunkLogged, Cut.lastScreen]

theorem logged_eq (ended : List (Bytes × Bool)) (open_ : Bytes) (alternate : Bool) :
    ScreenGate.logged ⟨alternate⟩ (ended.flatMap (·.1) ++ open_) (Cut.switches 0 ended) =
      (⟨Cut.lastScreen alternate ended⟩, chunkLogged alternate ended open_) := by
  cases ended with
  | nil => cases alternate <;> simp [ScreenGate.logged, Cut.switches, Cut.lastScreen, chunkLogged]
  | cons stretch rest =>
    have hloop := loop_eq [] (stretch :: rest) open_ alternate []
    simp only [List.nil_append, List.length_nil] at hloop
    unfold ScreenGate.logged
    rw [if_neg (by simp [Cut.switches]), hloop]

theorem loggedOf_cons {σ : Type*} (feed : σ → UInt8 → σ × Observation) (s : σ) (alternate : Bool)
    (chunk : Chunk) (rest : List Chunk) :
    loggedOf feed ⟨s, alternate, []⟩ ⟨alternate⟩ (chunk :: rest) =
      let cut := cutStream feed s alternate chunk.bytes
      chunkLogged alternate cut.ended cut.open_ ++
        loggedOf feed ⟨scanned feed s chunk.bytes, Cut.lastScreen alternate cut.ended, []⟩
          ⟨Cut.lastScreen alternate cut.ended⟩ rest := by
  have hbytes := cutStream_bytes feed s alternate chunk.bytes
  have hlogged := logged_eq (cutStream feed s alternate chunk.bytes).ended
    (cutStream feed s alternate chunk.bytes).open_ alternate
  rw [Cut.bytes] at hbytes
  rw [hbytes] at hlogged
  rw [loggedOf, TerminalEmulator.processOrReset_eq, TerminalEmulator.process, scan_eq]
  simp only [List.nil_append, hlogged]

/-! ### All chunks -/

namespace Screen

def isAlternate : Screen → Bool
  | primary _ => false
  | alternate _ _ => true

def size : Screen → ℕ
  | primary held => held.length
  | alternate entering hidden => entering.length + hidden.length

def bytes : Screen → Bytes
  | primary held => held
  | alternate entering hidden => entering ++ hidden

/-- What is logged already of a stretch from `start` on that is not over. -/
def logged (bounds : List ℕ) (start : ℕ) : Screen → Bytes
  | primary held => held
  | alternate entering _ => entering.take (cutBefore bounds start entering.length) ++ fullScreenMark

/-- More bytes without a switch. -/
def hold (bytes : Bytes) : Screen → Screen
  | primary held => primary (held ++ bytes)
  | alternate entering hidden => alternate entering (hidden ++ bytes)

end Screen

theorem piecesOf_push (screen : Screen) (bytes : Bytes) (cut : Cut) :
    piecesOf screen (cut.push bytes).ended (cut.push bytes).open_ =
      piecesOf (screen.hold bytes) cut.ended cut.open_ := by
  obtain ⟨_ | ⟨⟨more, _ | _⟩, rest⟩, open_⟩ := cut <;> cases screen <;>
    simp [Cut.push, piecesOf, Screen.hold]

variable {bounds : List ℕ} {start : ℕ}

theorem cutBefore_eq_zero {n : ℕ}
    (h : ∀ bound ∈ bounds, bound ≤ start ∨ start + n ≤ bound) : cutBefore bounds start n = 0 := by
  refine Nat.findGreatest_eq_zero_iff.2 fun k hpos hle hmem => ?_
  have := h _ hmem
  omega

theorem cutBefore_eq {n k : ℕ} (hk : k < n) (hmem : start + k ∈ bounds)
    (h : ∀ bound ∈ bounds, bound ≤ start + k ∨ start + n ≤ bound) : cutBefore bounds start n = k := by
  refine Nat.findGreatest_eq_iff.2 ⟨by omega, fun _ => hmem, fun j hlt hle hj => ?_⟩
  have := h _ hj
  omega

/-- A stretch that brings the alternate screen up, in a chunk that begins at `lo`: what was held of it
is logged, and of the rest what comes before its last escape. -/
theorem entering_logged {lo hi : ℕ} {held bytes : Bytes} (hne : bytes ≠ [])
    (hno : ∀ bound ∈ bounds, bound ≤ lo ∨ hi ≤ bound) (hlo : lo ≤ start + held.length)
    (hhi : start + held.length + bytes.length ≤ hi)
    (hheld : held = [] ∨ start + held.length = lo ∧ lo ∈ bounds) :
    held ++ bytes.take (escapeAt bytes) =
      (held ++ bytes).take (escapeAt (held ++ bytes)) ++
        ((held ++ bytes).drop (escapeAt (held ++ bytes))).take
          (cutBefore bounds (start + escapeAt (held ++ bytes))
            ((held ++ bytes).drop (escapeAt (held ++ bytes))).length) := by
  have hpos : 0 < bytes.length := List.length_pos_iff.2 hne
  rw [← List.take_add]
  cases hesc : rposition (· == esc) bytes with
  | some i =>
    have hi' := rposition_lt _ hesc
    have hwhole : escapeAt (held ++ bytes) = held.length + i := by
      simp [escapeAt, rposition_append, hesc]
    have hat : escapeAt bytes = i := by simp [escapeAt, hesc]
    have hzero : cutBefore bounds (start + escapeAt (held ++ bytes))
        ((held ++ bytes).drop (escapeAt (held ++ bytes))).length = 0 := by
      refine cutBefore_eq_zero fun bound hmem => ?_
      have := hno bound hmem
      simp only [List.length_drop, List.length_append, hwhole]
      omega
    rw [hzero, hwhole, hat, Nat.add_zero, List.take_length_add_append]
  | none =>
    have hat : escapeAt bytes = 0 := by simp [escapeAt, hesc]
    have hwhole : escapeAt (held ++ bytes) = escapeAt held := by
      simp [escapeAt, rposition_append, hesc]
    rw [hat, hwhole, List.take_zero, List.append_nil]
    have hle := escapeAt_le held
    obtain rfl | ⟨hstart, hmem⟩ := hheld
    · have hzero : cutBefore bounds (start + escapeAt []) ((([] : Bytes) ++ bytes).drop
          (escapeAt [])).length = 0 := by
        refine cutBefore_eq_zero fun bound hmem => ?_
        have := hno bound hmem
        simp only [List.length_nil] at hlo hhi hle
        simp only [List.length_drop, List.nil_append]
        omega
      rw [hzero]
      simp [escapeAt, rposition]
    · have hcut : cutBefore bounds (start + escapeAt held)
          ((held ++ bytes).drop (escapeAt held)).length = held.length - escapeAt held := by
        refine cutBefore_eq ?_ ?_ fun bound hb => ?_
        · simp only [List.length_drop, List.length_append]
          omega
        · rwa [show start + escapeAt held + (held.length - escapeAt held) = lo by omega]
        · have := hno bound hb
          simp only [List.length_drop, List.length_append]
          omega
      rw [hcut, show escapeAt held + (held.length - escapeAt held) = held.length by omega]
      simp

/-- One chunk, from `lo` up to `hi`: whatever comes after it, the log goes on as the pieces do. -/
theorem chunk_logged {lo hi : ℕ} (hno : ∀ bound ∈ bounds, bound ≤ lo ∨ hi ≤ bound) (open_ : Bytes) :
    ∀ (ended : List (Bytes × Bool)) (screen : Screen) (start : ℕ),
      (∀ stretch ∈ ended, stretch.1 ≠ []) → lo ≤ start + screen.size →
      start + screen.size + ((ended.flatMap (·.1)).length + open_.length) ≤ hi →
      (∀ held, screen = .primary held → held = [] ∨ start + held.length = lo ∧ lo ∈ bounds) →
      ∃ (screen' : Screen) (start' : ℕ),
        screen'.isAlternate = Cut.lastScreen screen.isAlternate ended ∧
        start' + screen'.size =
          start + screen.size + ((ended.flatMap (·.1)).length + open_.length) ∧
        ∀ (cut : Cut) (rest : Bytes),
          screen'.logged bounds start' ++ rest =
            loggedAt bounds start' (piecesOf screen' cut.ended cut.open_) →
          screen.logged bounds start ++ (chunkLogged screen.isAlternate ended open_ ++ rest) =
            loggedAt bounds start (piecesOf screen ((⟨ended, open_⟩ : Cut).join cut).ended
              ((⟨ended, open_⟩ : Cut).join cut).open_) := by
  intro ended
  induction ended with
  | nil =>
    intro screen start _ _ _ _
    refine ⟨screen.hold open_, start, ?_, ?_, fun cut rest h => ?_⟩
    · cases screen <;> rfl
    · cases screen <;> simp [Screen.hold, Screen.size, Nat.add_assoc]
    · show _ = loggedAt bounds start (piecesOf screen (cut.push open_).ended (cut.push open_).open_)
      rw [piecesOf_push, ← h]
      cases screen <;> simp [Screen.hold, Screen.logged, Screen.isAlternate, chunkLogged]
  | cons stretch ended ih =>
    obtain ⟨bytes, next⟩ := stretch
    intro screen start hne hlo hhi hheld
    have hbytes : bytes ≠ [] := hne (bytes, next) List.mem_cons_self
    have hrest : ∀ stretch ∈ ended, stretch.1 ≠ [] := fun stretch h =>
      hne stretch (List.mem_cons_of_mem _ h)
    simp only [List.flatMap_cons, List.length_append] at hhi ⊢
    cases screen with
    | primary held =>
      simp only [Screen.size] at hlo hhi ⊢
      cases next with
      | true =>
        have hesc := escapeAt_le (held ++ bytes)
        rw [List.length_append] at hesc
        obtain ⟨screen', start', halt, hsize, hcut⟩ := ih
          (.alternate ((held ++ bytes).drop (escapeAt (held ++ bytes))) [])
          (start + escapeAt (held ++ bytes)) hrest
          (by simp only [Screen.size, List.length_drop, List.length_append, List.length_nil]; omega)
          (by simp only [Screen.size, List.length_drop, List.length_append, List.length_nil]; omega)
          (fun _ h => nomatch h)
        refine ⟨screen', start', halt, ?_, fun cut rest h => ?_⟩
        · simp only [Screen.size, List.length_drop, List.length_append, List.length_nil] at hsize
          omega
        · have hnext := hcut cut rest h
          have hlen : ((held ++ bytes).take (escapeAt (held ++ bytes))).length =
              escapeAt (held ++ bytes) := by
            rw [List.length_take, List.length_append]
            omega
          have hentering := entering_logged hbytes hno hlo (by omega) (hheld held rfl)
          rw [Cut.join_ended_cons, Cut.join_open_cons, piecesOf, loggedAt, hlen, ← hnext]
          simp only [Screen.logged, Screen.isAlternate, chunkLogged, Bool.false_eq_true, ↓reduceIte,
            ← List.append_assoc, ← hentering]
      | false =>
        obtain ⟨screen', start', halt, hsize, hcut⟩ := ih (.primary [])
          (start + (held ++ bytes).length) hrest
          (by simp only [Screen.size, List.length_append, List.length_nil]; omega)
          (by simp only [Screen.size, List.length_append, List.length_nil]; omega)
          (fun held h => .inl (by simpa using h.symm))
        refine ⟨screen', start', halt, ?_, fun cut rest h => ?_⟩
        · simp only [Screen.size, List.length_append, List.length_nil] at hsize
          omega
        · have hnext := hcut cut rest h
          rw [Cut.join_ended_cons, Cut.join_open_cons, piecesOf, loggedAt, ← hnext]
          simp [Screen.logged, Screen.isAlternate, chunkLogged]
    | alternate entering hidden =>
      simp only [Screen.size] at hlo hhi ⊢
      cases next with
      | true =>
        obtain ⟨screen', start', halt, hsize, hcut⟩ := ih (.alternate entering (hidden ++ bytes)) start
          hrest (by simp only [Screen.size, List.length_append]; omega)
          (by simp only [Screen.size, List.length_append]; omega) (fun _ h => nomatch h)
        refine ⟨screen', start', halt, ?_, fun cut rest h => hcut cut rest h⟩
        simp only [Screen.size, List.length_append] at hsize
        omega
      | false =>
        obtain ⟨screen', start', halt, hsize, hcut⟩ := ih (.primary [])
          (start + (entering.length + (hidden ++ bytes).length)) hrest
          (by simp only [Screen.size, List.length_append, List.length_nil]; omega)
          (by simp only [Screen.size, List.length_append, List.length_nil]; omega)
          (fun held h => .inl (by simpa using h.symm))
        refine ⟨screen', start', halt, ?_, fun cut rest h => ?_⟩
        · simp only [Screen.size, List.length_append, List.length_nil] at hsize
          omega
        · have hnext := hcut cut rest h
          rw [Cut.join_ended_cons, Cut.join_open_cons, piecesOf, loggedAt, ← hnext]
          simp [Screen.logged, Screen.isAlternate, chunkLogged]

theorem boundsFrom_le {chunks : List Chunk} : ∀ bound ∈ boundsFrom start chunks, start ≤ bound := by
  induction chunks generalizing start with
  | nil => exact fun _ h => nomatch h
  | cons chunk rest ih =>
    intro bound hmem
    obtain rfl | hmem := List.mem_cons.1 hmem
    · exact Nat.le_add_right _ _
    · exact Nat.le_trans (Nat.le_add_right _ _) (ih bound hmem)

/-- All chunks, by induction on them: the log goes on from where the stream stands. -/
theorem chunks_logged {σ : Type*} (feed : σ → UInt8 → σ × Observation) :
    ∀ (chunks : List Chunk) (s : σ) (screen : Screen) (start : ℕ),
      (∀ bound ∈ bounds, bound ≤ start + screen.size ∨
        bound ∈ boundsFrom (start + screen.size) chunks) →
      (∀ bound ∈ boundsFrom (start + screen.size) chunks, bound ∈ bounds) →
      (∀ held, screen = .primary held → held = [] ∨ start + held.length ∈ bounds) →
      screen.logged bounds start ++
          loggedOf feed ⟨s, screen.isAlternate, []⟩ ⟨screen.isAlternate⟩ chunks =
        let cut := cutStream feed s screen.isAlternate (chunks.flatMap (·.bytes))
        loggedAt bounds start (piecesOf screen cut.ended cut.open_) := by
  intro chunks
  induction chunks with
  | nil =>
    intro s screen start _ _ _
    cases screen <;> simp [loggedOf, cutStream, piecesOf, loggedAt, Screen.logged]
  | cons chunk chunks ih =>
    intro s screen start hfrom hto hheld
    have hbytes := cutStream_bytes feed s screen.isAlternate chunk.bytes
    have hlen : chunk.bytes.length =
        ((cutStream feed s screen.isAlternate chunk.bytes).ended.flatMap (·.1)).length +
          (cutStream feed s screen.isAlternate chunk.bytes).open_.length := by
      rw [← List.length_append]
      exact congrArg List.length hbytes.symm
    have hno : ∀ bound ∈ bounds,
        bound ≤ start + screen.size ∨ start + screen.size + chunk.bytes.length ≤ bound := by
      intro bound hmem
      refine (hfrom bound hmem).imp_right fun hmem => ?_
      obtain rfl | hmem := List.mem_cons.1 hmem
      · exact Nat.le_refl _
      · exact boundsFrom_le bound hmem
    obtain ⟨screen', start', halt, hsize, hcut⟩ := chunk_logged hno
      (cutStream feed s screen.isAlternate chunk.bytes).open_
      (cutStream feed s screen.isAlternate chunk.bytes).ended screen start
      (cutStream_ne_nil feed s _ chunk.bytes) (Nat.le_refl _) (by omega)
      (fun held h => (hheld held h).imp_right fun hmem => by subst h; exact ⟨rfl, hmem⟩)
    rw [← hlen] at hsize
    have hnext := ih (scanned feed s chunk.bytes) screen' start'
      (fun bound hmem => by
        rw [hsize]
        obtain hle | hmem := hfrom bound hmem
        · exact .inl (by omega)
        · obtain rfl | hmem := List.mem_cons.1 hmem
          · exact .inl (Nat.le_refl _)
          · exact .inr hmem)
      (fun bound hmem => hto bound (List.mem_cons_of_mem _ (hsize ▸ hmem)))
      (fun held h => .inr <| by
        subst h
        rw [show start' + held.length = _ from hsize]
        exact hto _ List.mem_cons_self)
    rw [halt] at hnext
    rw [loggedOf_cons, List.flatMap_cons, cutStream_append]
    exact hcut _ _ hnext

theorem piecesOf_bytes (screen : Screen) (ended : List (Bytes × Bool)) (open_ : Bytes) :
    (piecesOf screen ended open_).flatMap Piece.bytes =
      screen.bytes ++ (ended.flatMap (·.1) ++ open_) := by
  induction ended generalizing screen with
  | nil => cases screen <;> simp [piecesOf, Piece.bytes, Screen.bytes]
  | cons stretch rest ih =>
    obtain ⟨bytes, next⟩ := stretch
    cases screen with
    | alternate entering hidden => cases next <;> simp [piecesOf, Piece.bytes, Screen.bytes, ih]
    | primary held =>
      cases next with
      | false => simp [piecesOf, Piece.bytes, Screen.bytes, ih]
      | true =>
        simp only [piecesOf, List.flatMap_cons, Piece.bytes, ih, Screen.bytes, List.append_nil]
        rw [← List.append_assoc, List.take_append_drop]
        simp

theorem loggedAt_of_uncut : ∀ {pieces : List Piece} {start : ℕ}, Uncut bounds start pieces →
      loggedAt bounds start pieces = pieces.flatMap Piece.logged
  | [], _, _ => rfl
  | .shown bytes :: rest, start, h => by
    have hrest : Uncut bounds (start + bytes.length) rest := h
    rw [loggedAt, loggedAt_of_uncut hrest]
    rfl
  | .hidden entering hidden :: rest, start, h => by
    rw [loggedAt, cutBefore_eq_zero h.1, loggedAt_of_uncut h.2]
    rfl

/-- **The log is the primary screen, however output is chunked.**  The pieces are the stream.  What
the gate gives the log is every shown piece as it is and one mark for every hidden one, and, of a
sequence that brings the alternate screen up and that a chunk's end cut, what came before the cut.
So with no end of a chunk strictly inside such a sequence it does not depend on the chunks. -/
theorem gate_logs_primary {σ : Type*} (feed : σ → UInt8 → σ × Observation) (s : σ)
    (chunks : List Chunk) :
    (pieces feed s (chunks.flatMap (·.bytes))).flatMap Piece.bytes = chunks.flatMap (·.bytes) ∧
    loggedOf feed ⟨s, false, []⟩ ⟨false⟩ chunks =
      loggedAt (boundsFrom 0 chunks) 0 (pieces feed s (chunks.flatMap (·.bytes))) ∧
    (Uncut (boundsFrom 0 chunks) 0 (pieces feed s (chunks.flatMap (·.bytes))) →
      loggedOf feed ⟨s, false, []⟩ ⟨false⟩ chunks =
        (pieces feed s (chunks.flatMap (·.bytes))).flatMap Piece.logged) := by
  have hlogged : loggedOf feed ⟨s, false, []⟩ ⟨false⟩ chunks =
      loggedAt (boundsFrom 0 chunks) 0 (pieces feed s (chunks.flatMap (·.bytes))) :=
    chunks_logged feed chunks s (.primary []) 0 (fun _ h => .inr h) (fun _ h => h)
      (fun held h => .inl (by simpa using h.symm))
  refine ⟨?_, hlogged, fun huncut => hlogged.trans (loggedAt_of_uncut huncut)⟩
  have hbytes := cutStream_bytes feed s false (chunks.flatMap (·.bytes))
  exact (piecesOf_bytes ..).trans hbytes

/-- A scanner of two sequences: escape and 1 bring the alternate screen up, escape and 0 take it away;
its state is whether the last byte was an escape. -/
def shortFeed (escaped : Bool) (byte : UInt8) : Bool × Observation :=
  (byte == esc,
    if escaped && byte == 1 then .enterAlternate
    else if escaped && byte == 0 then .leaveAlternate else .nothing)

/-- A full-screen program's stay, cut in the middle of what it draws. -/
def stayChunks : List Chunk := [⟨[65, esc, 1, 66], none⟩, ⟨[67, esc, 0, 68], some 1⟩]

theorem gate_logs_primary_stay :
    Uncut (boundsFrom 0 stayChunks) 0 (pieces shortFeed false (stayChunks.flatMap (·.bytes))) ∧
    loggedOf shortFeed ⟨false, false, []⟩ ⟨false⟩ stayChunks =
      (pieces shortFeed false (stayChunks.flatMap (·.bytes))).flatMap Piece.logged :=
  have huncut : Uncut (boundsFrom 0 stayChunks) 0
      (pieces shortFeed false (stayChunks.flatMap (·.bytes))) := by decide
  ⟨huncut, (gate_logs_primary shortFeed false stayChunks).2.2 huncut⟩

end Muster.Holder
