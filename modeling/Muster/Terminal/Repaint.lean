import Mathlib.Data.List.DropRight
import Mathlib.Data.Nat.Notation
import Mathlib.Data.String.Basic
import Mathlib.Data.UInt

/-!
# Repaint — the sequences that rebuild a terminal on a fresh one

A repaint is text: reset, the primary screen and then the alternate one while it is shown, tab stops,
scroll region, cells, saved cursor, cursor, modes, charsets and pen.  Cells are painted row by row, with
the pen written wherever it changes along a row.
-/

namespace Muster.Terminal

/-! ### Text -/

abbrev Text := List Char

namespace Text

def intoBytes (text : Text) : List UInt8 := text.flatMap String.utf8EncodeChar

def decimal (n : ℕ) : Text := Nat.toDigits 10 n

theorem intoBytes_append (text more : Text) :
    intoBytes (text ++ more) = text.intoBytes ++ more.intoBytes := List.flatMap_append

def joined : List Text → Text
  | [] => []
  | param :: params => param ++ params.flatMap (';' :: ·)

end Text

open Text

def csi : Text := "\x1b[".toList
def sgrReset : Text := "\x1b[0m".toList

/-! ### Cells -/

/-- A cell color independent of any frontend. -/
inductive CellColor where
  | default
  | indexed (index : UInt8)
  | rgb (red green blue : UInt8)
deriving DecidableEq, Repr

structure CellFlags where
  bold : Bool := false
  dim : Bool := false
  italic : Bool := false
  underline : Bool := false
  inverse : Bool := false
  hidden : Bool := false
  strikeout : Bool := false
deriving DecidableEq, Repr

structure CellStyle where
  fg : CellColor := .default
  bg : CellColor := .default
  flags : CellFlags := {}
deriving DecidableEq, Repr

/-- One captured cell; a spacer is the trailing half of a wide character. -/
structure SnapshotCell where
  ch : Char
  zerowidth : List Char := []
  style : CellStyle := {}
  spacer : Bool := false
deriving DecidableEq, Repr

/-- Whether the cell is an unstyled blank a reset screen already shows. -/
def SnapshotCell.isBlankDefault (cell : SnapshotCell) : Bool :=
  !cell.spacer && cell.ch = ' ' && cell.zerowidth.isEmpty && cell.style = {}

inductive Charset where
  | ascii
  | lineDrawing
deriving DecidableEq, Repr

/-- One cursor's position, pending wrap, pen and designated charsets. -/
structure CursorState where
  position : ℕ × ℕ := (0, 0)
  wrapPending : Bool := false
  pen : CellStyle := {}
  charsets : Charset × Charset := (.ascii, .ascii)
deriving DecidableEq, Repr

structure ScreenSnapshot where
  rows : List (List SnapshotCell)
  cursor : CursorState := {}
  saved : CursorState := {}
deriving DecidableEq, Repr

/-! ### Painting -/

def cursorPosition (row col : ℕ) : Text := csi ++ decimal row ++ [';'] ++ decimal col ++ ['H']

def colorParams (introducer : ℕ) : CellColor → List Text
  | .default => []
  | .indexed index => [decimal introducer, decimal 5, decimal index.toNat]
  | .rgb red green blue =>
    [decimal introducer, decimal 2, decimal red.toNat, decimal green.toNat, decimal blue.toNat]

def attributeParams (flags : CellFlags) : List (Bool × Text) :=
  [(flags.bold, ['1']), (flags.dim, ['2']), (flags.italic, ['3']), (flags.underline, ['4']),
    (flags.inverse, ['7']), (flags.hidden, ['8']), (flags.strikeout, ['9'])]

def sgrSequence (style : CellStyle) : Text :=
  csi ++ joined (decimal 0 :: (((attributeParams style.flags).filter (·.1)).map (·.2) ++
    colorParams 38 style.fg ++ colorParams 48 style.bg)) ++ ['m']

def charsetFinal : Charset → Char
  | .ascii => 'B'
  | .lineDrawing => '0'

def pushCharsets (charsets : Charset × Charset) : Text :=
  "\x1b(".toList ++ [charsetFinal charsets.1] ++ "\x1b)".toList ++ [charsetFinal charsets.2]

def pushPen (cursor : CursorState) : Text := pushCharsets cursor.charsets ++ sgrSequence cursor.pen

/-- The cells of a row one after the other, a pen before each that differs from the one before. -/
def paintRun : Option CellStyle → List SnapshotCell → Text
  | _, [] => []
  | pen, cell :: cells =>
    (if pen ≠ some cell.style then sgrSequence cell.style else []) ++ cell.ch :: cell.zerowidth ++
      paintRun (some cell.style) cells

def paintRow (row cols : ℕ) (cells : List SnapshotCell) : Text :=
  let used := (cells.take cols).rdropWhile (·.isBlankDefault)
  cursorPosition row 1 ++ paintRun none (used.filter (!·.spacer)) ++ sgrReset

namespace ScreenSnapshot

def paintCells (s : ScreenSnapshot) (rows cols : ℕ) : Text :=
  ((List.range rows).zip s.rows).flatMap fun (row, cells) => paintRow (row + 1) cols cells

def saveCursor (s : ScreenSnapshot) (rows cols : ℕ) : Text :=
  cursorPosition (min s.saved.position.1 (rows - 1) + 1) (min s.saved.position.2 (cols - 1) + 1) ++
    pushPen s.saved ++ "\x1b7".toList ++ pushCharsets (.ascii, .ascii) ++ sgrReset

/-- The cell that ends a row at column `last`, and the column it starts at. -/
def lastPrinted (s : ScreenSnapshot) (row last : ℕ) : Option (ℕ × SnapshotCell) := do
  let cells ← s.rows[row]?
  let cell ← cells[last]?
  if !cell.spacer then return (last, cell)
  if last = 0 then none
  return (last - 1, ← cells[last - 1]?)

/-- Leaves the cursor where it was; a pending wrap is restored by printing the last character of the
line again. -/
def placeCursor (s : ScreenSnapshot) (rows cols originTop : ℕ) : Text :=
  let row := min s.cursor.position.1 (rows - 1)
  let addressed := row - originTop + 1
  let last := cols - 1
  let plain := cursorPosition addressed (min s.cursor.position.2 last + 1)
  if s.cursor.wrapPending && last ≤ s.cursor.position.2 then
    match s.lastPrinted row last with
    | some (column, cell) =>
      cursorPosition addressed (column + 1) ++ sgrSequence cell.style ++ cell.ch :: cell.zerowidth ++
        sgrReset
    | none => plain
  else plain

def restorePen (s : ScreenSnapshot) : Text := pushPen s.cursor

end ScreenSnapshot

/-! ### The emulator -/

def minRows : ℕ := 1
def maxRows : ℕ := 1000
def minCols : ℕ := 2
def maxCols : ℕ := 2000

structure ScreenSize where
  rows : ℕ
  cols : ℕ
  rows_least : minRows ≤ rows
  rows_most : rows ≤ maxRows
  cols_least : minCols ≤ cols
  cols_most : cols ≤ maxCols
deriving DecidableEq

inductive MouseProtocolMode where
  | none | pressRelease | buttonMotion | anyMotion
deriving DecidableEq, Repr

inductive MouseProtocolEncoding where
  | default | utf8 | sgr
deriving DecidableEq, Repr

inductive CursorShape where
  | block | underline | beam | hollowBlock | hidden
deriving DecidableEq, Repr

structure Modes where
  lineWrap : Bool := true
  focusInOut : Bool := false
  showCursor : Bool := true
  bracketedPaste : Bool := false
  applicationCursor : Bool := false
  insert : Bool := false
  origin : Bool := false
  mouseMode : MouseProtocolMode := .none
  mouseEncoding : MouseProtocolEncoding := .default
  /-- The shape the child chose, and whether it blinks; none when it chose none. -/
  cursorStyle : Option (CursorShape × Bool) := none
deriving DecidableEq, Repr

/-- A screen has the cells of its size. -/
def ScreenSnapshot.Fits (s : ScreenSnapshot) (size : ScreenSize) : Prop :=
  s.rows.length = size.rows ∧ ∀ row ∈ s.rows, row.length = size.cols

/-- Terminal state as a repaint reads it: the screen shown, the copy of the primary one while that is
the alternate, and the state the backend keeps private.  The rows of a scroll region are the parameters
that set it, whatever the size. -/
structure TerminalState where
  size : ScreenSize
  shown : ScreenSnapshot
  alternateScreen : Bool := false
  primary : Option ScreenSnapshot := none
  scrollRegion : Option (ℕ × ℕ) := none
  tabs : List Bool
  modes : Modes := {}
  shiftOut : Bool := false
  shown_fits : shown.Fits size
  primary_fits : ∀ screen ∈ primary, screen.Fits size
  region_fits : ∀ region ∈ scrollRegion, 1 ≤ region.1 ∧ region.1 < region.2 ∧ region.2 < 2 ^ 16 := by simp
  tabs_fit : tabs.length = size.cols

def tabInterval : ℕ := 8

/-- Whether the stops are the ones a reset terminal has. -/
def defaultTabs (tabs : List Bool) : Bool :=
  tabs = (List.range tabs.length).map fun column => decide (column % tabInterval = 0)

def tabColumns (tabs : List Bool) : List ℕ := (tabs.zipIdx.filter (·.1)).map (·.2)

/-- Replaces the default tab stops with the child's, when it changed them. -/
def pushTabStops (tabs : List Bool) : Text :=
  if defaultTabs tabs then []
  else "\x1b[3g".toList ++ (tabColumns tabs).flatMap fun column =>
    cursorPosition 1 (min (column + 1) (2 ^ 16 - 1)) ++ "\x1bH".toList

def pushCursorStyle : Option (CursorShape × Bool) → Text
  | some (.block, blinking) => styled 1 blinking
  | some (.underline, blinking) => styled 3 blinking
  | some (.beam, blinking) => styled 5 blinking
  | some (.hollowBlock, _) | some (.hidden, _) | none => []
where
  styled (code : ℕ) (blinking : Bool) : Text :=
    csi ++ decimal (if blinking then code else code + 1) ++ " q".toList

def pushWhen (on : Bool) (sequence : String) : Text := if on then sequence.toList else []

def pushMouseMode : MouseProtocolMode → Text
  | .none => []
  | .pressRelease => "\x1b[?1000h".toList
  | .buttonMotion => "\x1b[?1002h".toList
  | .anyMotion => "\x1b[?1003h".toList

def pushMouseEncoding : MouseProtocolEncoding → Text
  | .default => []
  | .utf8 => "\x1b[?1005h".toList
  | .sgr => "\x1b[?1006h".toList

def pushModeSequences (modes : Modes) : Text :=
  pushCursorStyle modes.cursorStyle ++ pushWhen (!modes.lineWrap) "\x1b[?7l" ++
  pushWhen modes.focusInOut "\x1b[?1004h" ++ pushWhen (!modes.showCursor) "\x1b[?25l" ++
  pushWhen modes.bracketedPaste "\x1b[?2004h" ++ pushWhen modes.applicationCursor "\x1b[?1h" ++
  pushWhen modes.insert "\x1b[4h" ++ pushMouseMode modes.mouseMode ++
  pushMouseEncoding modes.mouseEncoding

namespace TerminalState

/-- The primary screen behind the alternate one, then the switch to that. -/
def pushPrimary (t : TerminalState) : Text :=
  if t.alternateScreen then
    (match t.primary with
      | some screen => screen.paintCells t.size.rows t.size.cols ++
          screen.placeCursor t.size.rows t.size.cols 0 ++ screen.restorePen
      | none => []) ++ "\x1b[?1049h".toList ++ pushCharsets (.ascii, .ascii)
  else []

def pushScrollRegion (t : TerminalState) : Text :=
  match t.scrollRegion with
  | some (top, bottom) => csi ++ decimal top ++ [';'] ++ decimal bottom ++ ['r']
  | none => []

def originTop (t : TerminalState) : ℕ :=
  if t.modes.origin then
    match t.scrollRegion with
    | some (top, _) => if top - 1 < 2 ^ 16 then top - 1 else 0
    | none => 0
  else 0

/-- The sequences that rebuild this terminal on a fresh one. -/
def repaint (t : TerminalState) : Text :=
  "\x1bc".toList ++ t.pushPrimary ++ pushTabStops t.tabs ++ t.pushScrollRegion ++
  t.shown.paintCells t.size.rows t.size.cols ++ t.shown.saveCursor t.size.rows t.size.cols ++
  pushWhen t.modes.origin "\x1b[?6h" ++
  t.shown.placeCursor t.size.rows t.size.cols t.originTop ++ pushModeSequences t.modes ++
  pushWhen t.shiftOut "\x0e" ++ t.shown.restorePen

end TerminalState

end Muster.Terminal
