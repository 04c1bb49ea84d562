import Muster.Holder.Reader
import Muster.Terminal.Renderer

/-!
# LogReader — a scan of a process's log, line by line

`visitLines` hands a visitor each raw line of the log with the lines its rendering finished.  It
reads the log in bounded pieces, each read finding the log as it is then.  A visitor is a function
of what it keeps; it says whether to stop.
-/

namespace Muster.Holder

open Muster.Log
open Muster.Terminal

def lineMaxBytes : ℕ := 64 * 1024
def renderLookbackBytes : ℕ := 256 * 1024
def blockBytes : ℕ := 64 * 1024

/-- One raw line of a log, or the piece of one a read cut it into, with the lines its rendering
finished. -/
structure VisitedPiece where
  /-- Where the raw piece begins. -/
  start : ℕ
  bytes : Bytes
  /-- Where the first of `texts` began. -/
  lineAt : ℕ
  texts : List (List Char)
deriving DecidableEq, Repr

namespace VisitedPiece

def began (piece : VisitedPiece) (index : ℕ) : ℕ := if index = 0 then piece.lineAt else piece.start

def lines (piece : VisitedPiece) : List (ℕ × List Char) :=
  piece.texts.zipIdx.map fun (text, index) => (piece.began index, text)

end VisitedPiece

section

variable {σ τ : Type} (vt : VtParser σ) (u : Unicode) (S : Bytes)

/-- What a read begins rendering from, as far as is known, while it looks back. -/
structure LookBack (τ : Type) where
  begin_ : ℕ
  onLine : Bool
  next : ℕ
  kept : τ
  stopped : Bool

/-- One block of a look-back: past the first line feed after the bound, the read begins there. -/
def LookBack.block (take : τ → ℕ → Bool → Bytes → τ × Bool) (b : LookBack τ) (piece : Bytes) :
    LookBack τ :=
  let found := if b.onLine then none else piece.findIdx? (· == lineFeed)
  let onLine := b.onLine || found.isSome
  let begin_ := (found.map fun index => b.next + (index + 1)).getD b.begin_
  let shown := (found.map fun index => piece.drop (index + 1)).getD piece
  let (kept, stopped) := take b.kept begin_ onLine shown
  ⟨begin_, onLine, b.next + piece.length, kept, stopped⟩

/-- The blocks of a look-back up to `start`. -/
def LookBack.blocks (take : τ → ℕ → Bool → Bytes → τ × Bool) (start : ℕ) :
    ℕ → LookBack τ → LookBack τ
  | 0, b => b
  | fuel + 1, b =>
    let piece := S.extract b.next (min start (b.next + blockBytes))
    if b.stopped || piece.isEmpty then b else blocks take start fuel (b.block take piece)

/-- Reads the output `shelf` holds between the look-back bound before `start` and `start`, and hands
`take` each piece with where the read begins rendering and whether that is a line start. -/
def lookBack (shelf : Shelf) (start : ℕ) (take : τ → ℕ → Bool → Bytes → τ × Bool) (kept : τ) :
    ℕ × τ :=
  let bound := max shelf.oldest (start - renderLookbackBytes)
  let onLine := decide (bound = shelf.oldest)
  let (kept, stopped) := if onLine then take kept bound onLine [] else (kept, false)
  let b := LookBack.blocks S take (min start shelf.stop) (start - bound)
    ⟨bound, onLine, bound, kept, stopped⟩
  (b.begin_, b.kept)

/-- Renders a piece of the look-back, starting over where it learns the read begins later. -/
def drawBack (drawn : Option (ℕ × PlacedRenderer σ)) (begin_ : ℕ) (_onLine : Bool) (piece : Bytes) :
    Option (ℕ × PlacedRenderer σ) × Bool :=
  let renderer := match drawn with
    | some (begun, renderer) => if begun = begin_ then renderer else .new vt begin_
    | none => .new vt begin_
  (some (begin_, (renderer.advance vt u piece).takeLines.2), false)

/-- A renderer for a read from `start`, in the state the whole stream's rendering is in there. -/
def rendererAt (shelf : Shelf) (start : ℕ) : PlacedRenderer σ :=
  let (begin_, drawn) := lookBack S shelf start (drawBack vt u) none
  let renderer := (drawn.map Prod.snd).getD (.new vt begin_)
  let renderer := renderer.finish.takeLines.2
  if renderer.next < start then renderer.skipTo vt start else renderer

/-- A scan under way: the rendering, the raw line read so far and where it and the line its
rendering draws began, and what the visitor keeps. -/
structure Scan (σ τ : Type) where
  renderer : PlacedRenderer σ
  line : Bytes
  lineAt : ℕ
  drawnFrom : ℕ
  kept : τ
  /-- Whether the visitor asked to stop. -/
  broke : Bool

variable (visit : τ → VisitedPiece → τ × Bool)

namespace Scan

/-- Renders the raw line and hands it to the visitor with the lines it finished; with whether it
finished any.  `ending` finishes the line it leaves unfinished too. -/
def handLine (s : Scan σ τ) (ending : Bool) : Scan σ τ × Bool :=
  let renderer := s.renderer.advance vt u s.line
  let renderer := if ending then renderer.finish else renderer
  let (lines, renderer) := renderer.takeLines
  let texts := lines.map LogLine.plain
  if s.line.isEmpty && texts.isEmpty then ({ s with renderer := renderer }, false)
  else
    let (kept, broke) := visit s.kept ⟨s.lineAt, s.line, s.drawnFrom, texts⟩
    ({ s with renderer := renderer, line := [], kept := kept, broke := broke }, !texts.isEmpty)

def takePiece (s : Scan σ τ) (cursor : ℕ) (piece : Bytes) : Scan σ τ :=
  let s := { s with lineAt := if s.line.isEmpty then cursor else s.lineAt, line := s.line ++ piece }
  let ended := piece.getLast? = some lineFeed
  if !ended && decide (s.line.length < lineMaxBytes) then s
  else
    let (s, produced) := s.handLine vt u visit false
    if s.broke then s
    else { s with drawnFrom := if ended || produced then cursor + piece.length else s.drawnFrom }

def takePieces : Scan σ τ → ℕ → List Bytes → Scan σ τ
  | s, _, [] => s
  | s, cursor, piece :: pieces =>
    if s.broke then s
    else takePieces (s.takePiece vt u visit cursor piece) (cursor + piece.length) pieces

def skipTo (s : Scan σ τ) (start : ℕ) : Scan σ τ :=
  let (s, _) := s.handLine vt u visit true
  if s.broke then s
  else { s with renderer := s.renderer.skipTo vt start, drawnFrom := start }

/-- Reads the log from `next` up to `last`, each read finding it as `logs` says; with where the
first read began.  Every turn that goes on has read a byte, so `last - next` turns are enough. -/
def readOn (logs : ℕ → Option Shelf) (last : ℕ) : ℕ → ℕ → ℕ → Option ℕ → Scan σ τ →
    Option (Option ℕ × Scan σ τ)
  | 0, _, _, began, s => some (began, s)
  | fuel + 1, turn, next, began, s =>
    if last ≤ next || s.broke then some (began, s)
    else match logs turn with
      | none => if began.isNone then none else some (began, s)
      | some shelf =>
        let (start, bytes) := shelf.readRange S next last catchUpChunkBytes
        let began := some (began.getD start)
        if bytes.isEmpty then some (began, s)
        else
          let s := if next < start then s.skipTo vt u visit start else s
          if s.broke then some (began, s)
          else
            readOn logs last fuel (turn + 1) (start + bytes.length) began
              (s.takePieces vt u visit start (splitInclusive (· == lineFeed) bytes))

end Scan

/-- Hands the visitor each raw line of the log that begins from `first` up to `last`; none when the
first read fails.  With where the read began and what the visitor kept. -/
def visitLines (opened : Shelf) (logs : ℕ → Option Shelf) (first last : ℕ) (kept : τ) :
    Option (ℕ × τ) :=
  let renderer := rendererAt vt u S opened (max first opened.oldest)
  let start := max renderer.next first
  match Scan.readOn vt u S visit logs last (last - start) 0 start none
      ⟨renderer, [], start, start, kept, false⟩ with
  | none => none
  | some (began, s) =>
    let s := if s.broke then s else (s.handLine vt u visit true).1
    some (began.getD start, s.kept)

def keepLines (lines : List (ℕ × List Char)) (piece : VisitedPiece) : List (ℕ × List Char) × Bool :=
  (lines ++ piece.lines, false)

end

end Muster.Holder
