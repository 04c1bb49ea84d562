import Muster.Terminal.Renderer

/-!
# OutputTap — the output stream of one process as lines

A tap renders each chunk as the next piece of one stream and keeps the newest lines with the offset
each began at, for waits and readiness to be tested against.  It outlives each run.  What counts
lines whose rendering panicked is left out: the rendering of the model is total.
-/

namespace Muster.Service

open Muster.Log
open Muster.Terminal

def tapRingBytes : ℕ := 256 * 1024
def cheapPartialCells : ℕ := 1024
def partialRecheck : ℕ := 100

/-- One line of output and where it began. -/
structure TapLine where
  start : ℕ
  text : List Char
deriving DecidableEq, Repr

structure OutputTap (σ : Type) where
  /-- The newest complete lines, oldest first. -/
  ring : List TapLine
  ringBytes : ℕ
  renderer : PlacedRenderer σ
  /-- Where the line still being written began. -/
  partialAt : ℕ
  /-- Where the current run began, once one has. -/
  runStart : Option ℕ
  /-- Where the newest run in a seeded log began. -/
  loggedRunStart : Option ℕ
  /-- Whether the cursor stands where the output really ends. -/
  placed : Bool
  /-- When a long unfinished line left untested is due to be rendered whole. -/
  recheck : Option ℕ
  /-- The rendering of output the log could not hold. -/
  unlogged : Option (LogRenderer σ)
deriving DecidableEq, Repr

namespace OutputTap

variable {σ : Type} (vt : VtParser σ) (u : Unicode)

def new (start : ℕ) : OutputTap σ := ⟨[], 0, .new vt start, start, none, none, false, none, none⟩

def cursor (t : OutputTap σ) : ℕ := t.renderer.next

def trim : List TapLine → ℕ → List TapLine × ℕ
  | [], bytes => ([], bytes)
  | line :: ring, bytes =>
    if tapRingBytes < bytes then trim ring (bytes - textBytes line.text) else (line :: ring, bytes)

def keep (t : OutputTap σ) (line : TapLine) : OutputTap σ :=
  let (ring, bytes) := trim (t.ring ++ [line]) (t.ringBytes + textBytes line.text)
  { t with ring := ring, ringBytes := bytes }

def keepFinished (t : OutputTap σ) : OutputTap σ × List TapLine :=
  let (lines, renderer) := t.renderer.takeLines
  let lines := lines.map fun line => ⟨t.partialAt, line.plain⟩
  (lines.foldl keep { t with renderer := renderer }, lines)

def finishLine (t : OutputTap σ) : OutputTap σ :=
  { t with renderer := t.renderer.finish }.keepFinished.1

def feedPiece (t : OutputTap σ) (piece : Bytes) : OutputTap σ × List TapLine :=
  let (t, lines) := { t with renderer := t.renderer.advance vt u piece }.keepFinished
  let ended := piece.getLast? = some lineFeed || !lines.isEmpty
  ({ t with partialAt := if ended then t.cursor else t.partialAt }, lines)

def feedingPieces : Transducer Bytes TapLine (OutputTap σ) := ⟨feedPiece vt u⟩

def skipTo (t : OutputTap σ) (start : ℕ) : OutputTap σ :=
  let t := t.finishLine
  { t with renderer := t.renderer.skipTo vt start, partialAt := start }

/-- Takes one chunk of raw output, whose first byte is at `start` when the sender says so; with the
lines it completed. -/
def feed (t : OutputTap σ) (start : Option ℕ) (bytes : Bytes) : OutputTap σ × List TapLine :=
  let t := { t with unlogged := none }
  let (t, bytes) := match start with
    | some start =>
      if t.cursor < start then (t.skipTo vt start, bytes)
      else (t, bytes.drop (t.cursor - start))
    | none => (t, bytes)
  (feedingPieces vt u).run t (splitInclusive (· == lineFeed) bytes)

def feeding : Transducer (ℕ × Bytes) TapLine (OutputTap σ) :=
  ⟨fun t (start, bytes) => t.feed vt u (some start) bytes⟩

def unfinished (t : OutputTap σ) : Option TapLine :=
  t.renderer.peekPartial.map fun line => ⟨t.partialAt, line.plain⟩

/-- The line still being written, for a pattern to test after a chunk, while it is short. -/
def unfinishedForPattern (t : OutputTap σ) (now : ℕ) : OutputTap σ × Option TapLine :=
  if t.renderer.partialWidth ≤ cheapPartialCells then ({ t with recheck := none }, t.unfinished)
  else ({ t with recheck := some (t.recheck.getD (now + partialRecheck)) }, none)

def unfinishedDue (t : OutputTap σ) (now : ℕ) : OutputTap σ × Option TapLine :=
  match t.recheck with
  | some due => if now < due then (t, none) else ({ t with recheck := none }, t.unfinished)
  | none => (t, none)

def lastRunStart (bytes : Bytes) : Option ℕ :=
  (List.range (bytes.length + 1 - runStartBytes.length)).reverse.find? fun index =>
    runStartBytes.isPrefixOf (bytes.drop index)

/-- Takes the last bytes of a log, of runs this tap never saw begin. -/
def seedAt (t : OutputTap σ) (start : ℕ) (bytes : Bytes) : OutputTap σ :=
  let t := if t.cursor ≤ start then
      { t.finishLine with renderer := .new vt start, partialAt := start }
    else t
  let t := (t.feed vt u (some start) bytes).1
  { t with
    loggedRunStart := (lastRunStart bytes).map fun index => start + (index + runResetAt)
    placed := true }

def beginRun (t : OutputTap σ) : OutputTap σ :=
  let t := { t with renderer := t.renderer.restart vt }.keepFinished.1
  { t with partialAt := t.cursor, runStart := some t.cursor, unlogged := none, placed := true }

/-- Starts a new run at `start`, the offset its log says it began at. -/
def beginRunAt (t : OutputTap σ) (start : ℕ) : OutputTap σ :=
  if t.runStart = some start then t
  else
    let t := if t.cursor ≤ start then t.skipTo vt start else t
    { t with runStart := some start, unlogged := none, placed := true }

/-- Takes output the log could not hold, and gives the lines to test it as. -/
def feedUnlogged (t : OutputTap σ) (bytes : Bytes) : OutputTap σ × List TapLine :=
  let (lines, renderer) := ((t.unlogged.getD (.new vt)).advance vt u bytes).takeLines
  let shown :=
    if renderer.partialWidth ≤ cheapPartialCells then renderer.peekPartial.toList else []
  ({ t with unlogged := some renderer }, (lines ++ shown).map fun line => ⟨t.cursor, line.plain⟩)

end OutputTap

end Muster.Service
