import Muster.Lib.Split
import Muster.Terminal.LineDrawing

/-!
# Renderer — a process's raw output rendered as the lines a log reader shows

The VT parser is a parameter: a machine that takes a byte and gives the calls it dispatches.  The
bounded parser feeds it in slices and drops a sequence once too many bytes went by with nothing
dispatched; the renderer draws what it dispatches, one raw line at a time.  `rendering` is what all
of that comes to, byte by byte, while no sequence is dropped.
-/

namespace Muster.Terminal

open Muster.Log (Bytes lineFeed)

structure VtParser (σ : Type) extends Transducer UInt8 Call σ where
  init : σ
  /-- A line feed is executed at its own byte only. -/
  lineFeed_of_execute : ∀ s b, Call.execute lineFeed ∈ (step s b).2 → b = lineFeed

def maxPendingBytes : ℕ := 64 * 1024
def sliceBytes : ℕ := 4 * 1024

def bel : UInt8 := 0x07
def can : UInt8 := 0x18
def sub : UInt8 := 0x1a
def esc : UInt8 := 0x1b

def endsASequence (byte : UInt8) : Bool := byte = bel || byte = can || byte = sub || byte = esc

def isContinuation (byte : UInt8) : Bool := byte &&& 0xc0 == 0x80

/-- Where a piece of `bytes` about `size` long ends, so that no character is split. -/
def charEnd (bytes : Bytes) (size : ℕ) : ℕ :=
  min bytes.length size + ((bytes.drop size).takeWhile isContinuation).length

def sliceEnd (bytes : Bytes) : ℕ := charEnd bytes sliceBytes

variable {σ : Type}

/-- A parser whose pending sequence is bounded. -/
structure BoundedParser (σ : Type) where
  parser : σ
  /-- Bytes fed since the parser last dispatched anything. -/
  pending : ℕ
  /-- Whether the bytes until the next terminator are being dropped. -/
  dropping : Bool
deriving DecidableEq, Repr

namespace BoundedParser

variable (vt : VtParser σ)

def new : BoundedParser σ := ⟨vt.init, 0, false⟩

/-- Parses `slice`, then drops the sequence in progress once it has run too long. -/
def feed (b : BoundedParser σ) (slice : Bytes) : BoundedParser σ × List Call :=
  let (parser, calls) := vt.run b.parser slice
  let pending := if calls.isEmpty then b.pending + slice.length else 0
  if pending ≤ maxPendingBytes then ({ b with parser := parser, pending := pending }, calls)
  else (⟨vt.init, 0, true⟩, calls)

def advanceLoop : ℕ → BoundedParser σ → Bytes → BoundedParser σ × List Call
  | 0, b, _ => (b, [])
  | fuel + 1, b, bytes =>
    if bytes = [] then (b, [])
    else if b.dropping then
      match bytes.findIdx? endsASequence with
      | none => (b, [])
      | some index =>
        advanceLoop fuel { b with dropping := false }
          (bytes.drop (if bytes[index]? = some esc then index else index + 1))
    else
      let (b, calls) := b.feed vt (bytes.take (sliceEnd bytes))
      let (b, rest) := advanceLoop fuel b (bytes.drop (sliceEnd bytes))
      (b, calls ++ rest)

/-- Feeds `bytes` in slices cut between characters.  A turn takes a byte or is followed by one that
does, so twice as many turns as there are bytes are enough. -/
def advance (b : BoundedParser σ) (bytes : Bytes) : BoundedParser σ × List Call :=
  b.advanceLoop vt (2 * bytes.length) bytes

end BoundedParser

/-- Renders raw output, fed in pieces of any size, into finished lines. -/
structure LogRenderer (σ : Type) where
  parser : BoundedParser σ
  drawing : LineDrawing
deriving DecidableEq, Repr

namespace LogRenderer

variable (vt : VtParser σ) (u : Unicode)

def new : LogRenderer σ := ⟨.new vt, {}⟩

def advanceLine (r : LogRenderer σ) (line : Bytes) : LogRenderer σ :=
  let (parser, calls) := r.parser.advance vt line
  ⟨parser, r.drawing.performs u calls⟩

/-- Renders `bytes`, the next piece of the stream, each raw line on its own. -/
def advance (r : LogRenderer σ) (bytes : Bytes) : LogRenderer σ :=
  (splitInclusive (· == lineFeed) bytes).foldl (advanceLine vt u) r

def takeLines (r : LogRenderer σ) : List LogLine × LogRenderer σ :=
  let (lines, drawing) := r.drawing.takeLines
  (lines, { r with drawing := drawing })

def peekPartial (r : LogRenderer σ) : Option LogLine := r.drawing.peek

def finish (r : LogRenderer σ) : LogRenderer σ := { r with drawing := r.drawing.finish }

/-- Ends the line still being drawn, then starts over as a fresh terminal. -/
def restart (r : LogRenderer σ) : LogRenderer σ := ⟨.new vt, r.drawing.finish.dropLine⟩

def partialWidth (r : LogRenderer σ) : ℕ := r.drawing.width

end LogRenderer

/-- A renderer that knows where in the output each byte it renders sits. -/
structure PlacedRenderer (σ : Type) where
  renderer : LogRenderer σ
  next : ℕ
deriving DecidableEq, Repr

namespace PlacedRenderer

variable (vt : VtParser σ) (u : Unicode)

def new (first : ℕ) : PlacedRenderer σ := ⟨.new vt, first⟩

def advance (r : PlacedRenderer σ) (bytes : Bytes) : PlacedRenderer σ :=
  ⟨r.renderer.advance vt u bytes, r.next + bytes.length⟩

def skipTo (r : PlacedRenderer σ) (first : ℕ) : PlacedRenderer σ :=
  ⟨r.renderer.restart vt, max r.next first⟩

def restart (r : PlacedRenderer σ) : PlacedRenderer σ := { r with renderer := r.renderer.restart vt }

def takeLines (r : PlacedRenderer σ) : List LogLine × PlacedRenderer σ :=
  let (lines, renderer) := r.renderer.takeLines
  (lines, { r with renderer := renderer })

def peekPartial (r : PlacedRenderer σ) : Option LogLine := r.renderer.peekPartial

def finish (r : PlacedRenderer σ) : PlacedRenderer σ := { r with renderer := r.renderer.finish }

def partialWidth (r : PlacedRenderer σ) : ℕ := r.renderer.partialWidth

end PlacedRenderer

end Muster.Terminal
