import Muster.Lib.Transducer
import Muster.Log.Files
import Muster.Terminal.LogLine

/-!
# LineDrawing — what a process's output leaves on each line

`Line` is the line being drawn.  What the parser calls on it is a `Call`; `Line.perform` gives the
line after the call and the lines the call finished, which `LineDrawing` keeps until they are taken.
A line is finished at a line feed, or cut because a glyph would reach past `maxLineCells` columns.
-/

namespace Muster.Terminal

open Muster.Log (Bytes lineFeed)

def tabStop : ℕ := 8
def maxColumn : ℕ := 1024
def maxLineCells : ℕ := 64 * 1024
def maxRise : ℕ := 256
def maxMarkBytes : ℕ := 32
def maxGlyphWidth : ℕ := tabStop
def maxPushedPens : ℕ := 10
def maxStamp : ℕ := 2 ^ 32 - 1

def carriageReturn : UInt8 := 0x0d
def backspace : UInt8 := 0x08
def tabByte : UInt8 := 0x09

/-- An erase to the cursor not yet applied to the cells it covers. -/
structure Erasure where
  stamp : ℕ
  /-- The first column the erase leaves alone. -/
  extent : ℕ
deriving DecidableEq, Repr

structure SavedCursor where
  column : ℕ
  pen : Pen
  risen : ℕ
deriving DecidableEq, Repr

/-- What the parser calls on a performer. -/
inductive Call where
  | print (character : Char)
  | execute (byte : UInt8)
  | hook (params : Params) (intermediates : List UInt8) (ignore : Bool) (action : Char)
  | put (byte : UInt8)
  | unhook
  | oscDispatch (params : List (List UInt8)) (bellTerminated : Bool)
  | csiDispatch (params : Params) (intermediates : List UInt8) (ignore : Bool) (action : Char)
  | escDispatch (intermediates : List UInt8) (ignore : Bool) (byte : UInt8)
deriving DecidableEq, Repr

structure Line where
  cells : List LineCell := []
  marks : Marks := []
  cursor : ℕ := 0
  pen : Pen := {}
  stamp : ℕ := 0
  /-- The erases to the cursor not yet applied, oldest first. -/
  erasures : List Erasure := []
  saved : Option SavedCursor := none
  /-- The pens pushed and not yet popped, newest last. -/
  pushed : List Pen := []
  /-- Whether a saved cursor jumped away, so what is drawn is an overlay. -/
  detached : Bool := false
  /-- Whether a sequence other than SGR reached the line. -/
  steered : Bool := false
  /-- How many rows above the newest line the cursor stands. -/
  risen : ℕ := 0
  /-- Columns of the line already handed out in part. -/
  shown : ℕ := 0
  shownChanged : Bool := false
deriving DecidableEq, Repr

namespace Line

def cell (l : Line) (index : ℕ) : LineCell := l.cells.getD index (.blank 0)

def touch (l : Line) (column : ℕ) : Line :=
  if column < l.shown then { l with shownChanged := true } else l

def leadOf (l : Line) (column : ℕ) : Option ℕ :=
  if l.cells.length ≤ column then none
  else
    let floor := column - maxGlyphWidth
    (List.range' floor (column + 1 - floor)).reverse.find? fun index => !(l.cell index).continues

/-- Readies `column` to be drawn over: the glyph covering it loses its marks, and is blanked whole
when it is wider than one column. -/
def breakGlyph (l : Line) (column : ℕ) : Line :=
  if l.cells.length ≤ column then l
  else match l.leadOf column with
    | none => { l with cells := l.cells.set column (.blank l.stamp) }
    | some lead =>
      let width := (l.cell lead).width
      let l := { l with marks := l.marks.filter fun (index, _) => index != lead }
      if width ≤ 1 then l
      else
        let last := min (lead + width) l.cells.length
        touch { l with
          cells := (List.range' lead (last - lead)).foldl
            (fun cells index => cells.set index (.blank l.stamp)) l.cells } lead

def padTo (l : Line) (last : ℕ) : Line :=
  { l with cells := l.cells ++ List.replicate (last - l.cells.length) (.blank l.stamp) }

def place (l : Line) (character : Char) (width : ℕ) : Line :=
  let start := l.cursor
  let l := (List.range' start width).foldl breakGlyph (l.padTo (start + width))
  let cells := l.cells.set start ⟨character, l.pen, min width 255, l.stamp⟩
  let cells := (List.range' (start + 1) (width - 1)).foldl
    (fun cells index => cells.set index (.continuation l.pen l.stamp)) cells
  { touch { l with cells := cells } start with cursor := start + width }

/-- Whether an erasure recorded after the cell at `index` was drawn covers it. -/
def isErased (l : Line) (index : ℕ) : Bool :=
  match l.erasures.dropWhile (·.stamp ≤ (l.cell index).stamp) with
  | [] => false
  | erasure :: _ => index < erasure.extent

def mark (l : Line) (character : Char) : Line :=
  match if l.cursor = 0 then none else l.leadOf (l.cursor - 1) with
  | none => l
  | some lead =>
    if l.isErased lead then l
    else
      let marks := (l.marks.lookup lead).getD []
      let marks :=
        if textBytes marks + character.utf8Size ≤ maxMarkBytes then marks ++ [character] else marks
      touch { l with
        marks := (lead, marks) :: l.marks.filter fun (index, _) => index != lead } lead

/-- `extent`, moved past the end of the glyph covering the column before it. -/
def glyphEnd (l : Line) (extent : ℕ) : ℕ :=
  match if extent = 0 then none else l.leadOf (extent - 1) with
  | none => extent
  | some lead => max extent (min (lead + (l.cell lead).width) l.cells.length)

/-- Writes every recorded erasure into the cells it covers and starts the stamps over. -/
def applyErasures (l : Line) : Line :=
  { l with
    cells := l.cells.mapIdx fun index cell =>
      if l.isErased index then .blank 0 else cell.restamped 0
    marks := l.marks.filter fun (index, _) => !(index < l.cells.length && l.isErased index)
    erasures := []
    stamp := 0 }

/-- Erases from the start of the line to the cursor by recording it; the older erasures it reaches
past are dropped. -/
def eraseToCursor (l : Line) : Line :=
  let extent := l.glyphEnd (min (l.cursor + 1) l.cells.length)
  if extent = 0 then l
  else
    let l := if l.stamp = maxStamp then l.applyErasures else l
    let stamp := l.stamp + 1
    let older := (l.erasures.reverse.dropWhile (·.extent ≤ extent)).reverse
    touch { l with stamp := stamp, erasures := older ++ [⟨stamp, extent⟩] } 0

def erase (l : Line) (mode : ℕ) : Line :=
  if mode = 0 then
    let start := min l.cursor l.cells.length
    if start < l.cells.length then
      let l := l.breakGlyph start
      touch { l with
        cells := l.cells.take start
        marks := l.marks.filter fun (index, _) => index < start } start
    else l
  else if mode = 1 then l.eraseToCursor
  else if mode = 2 then
    touch { l with cells := [], marks := [], erasures := [] } 0
  else l

/-- Whether the glyph at `index` has all its columns. -/
def whole (cells : List LineCell) (index : ℕ) (cell : LineCell) : Bool :=
  !cell.continues && index + cell.width ≤ cells.length &&
    ((cells.drop (index + 1)).take (cell.width - 1)).all LineCell.continues

/-- Blanks from `index` on what is left of glyphs that lost a column.  Every turn moves on by a
column at least, so as many turns as there are cells are enough. -/
def heal : ℕ → ℕ → List LineCell → List LineCell
  | 0, _, cells => cells
  | fuel + 1, index, cells => match cells[index]? with
    | none => cells
    | some cell =>
      if whole cells index cell then heal fuel (index + cell.width) cells
      else heal fuel (index + 1) (cells.set index (.blank 0))

def snapshot (l : Line) : LogLine :=
  let cells :=
    if l.erasures.isEmpty then l.cells
    else l.cells.mapIdx fun index cell => if l.isErased index then .blank 0 else cell
  let cells := heal cells.length 0 cells
  { cells := cells
    marks := l.marks.filter fun (index, _) => cells[index]? == l.cells[index]? }

def clearLine (l : Line) : Line :=
  { l with
    cells := [], marks := [], erasures := [], stamp := 0, cursor := 0, steered := false
    shown := 0, shownChanged := false }

/-- Ends the line being drawn; with what is left to show of it. -/
def closeLine (l : Line) (fed : Bool) : Line × List LogLine :=
  let line := l.snapshot
  let kept :=
    if l.shown = 0 then
      let redraw := l.steered || decide (0 < l.risen)
      if !line.isBlank || (fed && !redraw) then [line] else []
    else if l.shownChanged then
      if !line.isBlank then [line] else []
    else
      let rest := line.slice l.shown line.cells.length
      if !rest.isBlank then [rest] else []
  (l.clearLine, kept)

def endLine (l : Line) : Line × List LogLine :=
  let (l, kept) := l.closeLine true
  ({ l with
     risen := if l.detached then 0 else l.risen - 1
     detached := false
     saved := none }, kept)

def cut (l : Line) : Line × List LogLine := l.closeLine false

/-- Draws a glyph at the cursor; a full line is cut first. -/
def draw (l : Line) (character : Char) (width : ℕ) : Line × List LogLine :=
  if maxLineCells < l.cursor + width then
    let (l, kept) := l.cut
    (l.place character width, kept)
  else (l.place character width, [])

/-- Moves to the next tab stop; past the end of the line the tab is kept as a glyph. -/
def tab (l : Line) : Line × List LogLine :=
  let stop := (l.cursor / tabStop + 1) * tabStop
  if l.cells.length ≤ l.cursor then l.draw '\t' (stop - l.cursor)
  else ({ l with cursor := min stop maxLineCells }, [])

def save (l : Line) : Line := { l with saved := some ⟨l.cursor, l.pen, l.risen⟩ }

def restore (l : Line) : Line :=
  match l.saved with
  | some saved =>
    { l with
      saved := none, cursor := saved.column, pen := saved.pen, risen := saved.risen
      detached := false }
  | none => { l with detached := false }

def fullReset (l : Line) : Line :=
  { l.clearLine with pen := {}, pushed := [], saved := none, detached := false, risen := 0 }

def pushPen (l : Line) : Line :=
  { l with
    pushed := (if l.pushed.length = maxPushedPens then l.pushed.drop 1 else l.pushed) ++ [l.pen] }

def popPen (l : Line) : Line :=
  match l.pushed.getLast? with
  | some pen => { l with pushed := l.pushed.dropLast, pen := pen }
  | none => l

def moveToColumn (l : Line) (column : ℕ) : Line :=
  { l with cursor := min (max column 1) maxColumn - 1 }

/-- Moves the cursor right, never past `maxColumn` and never back from beyond it. -/
def forward (l : Line) (count : ℕ) : Line :=
  if l.cursor < maxColumn then { l with cursor := min (l.cursor + count) maxColumn } else l

def columnAbsolute : Char := Char.ofNat 0x60

def steer (l : Line) (params : Params) (action : Char) : Line :=
  let first := (paramValues params).head?
  let count := max (first.getD 1) 1
  if action = 's' && (params.isEmpty || first == some 0) then l.save
  else if action = 'u' then l.restore
  else if l.detached then l
  else if action = 'K' || action = 'J' then l.erase (first.getD 0)
  else if action = 'G' || action = columnAbsolute then l.moveToColumn (first.getD 1)
  else if action = 'C' then l.forward count
  else if action = 'D' then { l with cursor := l.cursor - count }
  else if action = 'A' || action = 'F' then
    { l with
      risen := min (l.risen + count) maxRise
      cursor := if action = 'F' then 0 else l.cursor }
  else if action = 'B' || action = 'E' then
    { l with
      risen := l.risen - count
      cursor := if action = 'E' then 0 else l.cursor }
  else if (action = 'H' || action = 'f' || action = 'd') && l.saved.isSome then
    { l with detached := true }
  else if action = 'H' || action = 'f' then l.moveToColumn ((paramValues params)[1]?.getD 1)
  else l

def csiDispatch (l : Line) (params : Params) (intermediates : List UInt8) (ignore : Bool)
    (action : Char) : Line :=
  if !ignore && intermediates.isEmpty && action = 'm' then { l with pen := l.pen.apply params }
  else if !ignore && intermediates == [0x23] && action.toNat = 0x7b then l.pushPen
  else if !ignore && intermediates == [0x23] && action.toNat = 0x7d then l.popPen
  else
    let l := { l with steered := true }
    if !ignore && intermediates.isEmpty then l.steer params action else l

def escDispatch (l : Line) (intermediates : List UInt8) (ignore : Bool) (byte : UInt8) : Line :=
  let l := { l with steered := true }
  if ignore || !intermediates.isEmpty then l
  else if byte = 0x37 then l.save
  else if byte = 0x38 then l.restore
  else if byte = 0x63 then l.fullReset
  else l

def execute (l : Line) (byte : UInt8) : Line × List LogLine :=
  if byte = lineFeed then l.endLine
  else if l.detached then (l, [])
  else if byte = carriageReturn then
    ({ l with cursor := 0 }, [])
  else if byte = backspace then ({ l with cursor := l.cursor - 1 }, [])
  else if byte = tabByte then l.tab
  else (l, [])

variable (u : Unicode)

/-- Draws a character in its columns, or joins it to the glyph before the cursor. -/
def printChar (l : Line) (character : Char) : Line × List LogLine :=
  match u.width character with
  | some 0 => (l.mark character, [])
  | some width => l.draw character width
  | none => (l, [])

def printing : Transducer Char LogLine Line := ⟨printChar u⟩

def print (l : Line) (character : Char) : Line × List LogLine :=
  if l.detached then (l, [])
  else if isAscii character then
    if isAsciiControl character then (l, []) else l.draw character 1
  else if isControl character then (l, [])
  else if u.steersTheTerminal character then (printing u).run l (escapeDefault character)
  else l.printChar u character

/-- Carries out what the parser calls; with the lines that finishes. -/
def perform (l : Line) : Call → Line × List LogLine
  | .print character => l.print u character
  | .execute byte => l.execute byte
  | .csiDispatch params intermediates ignore action =>
    (l.csiDispatch params intermediates ignore action, [])
  | .escDispatch intermediates ignore byte => (l.escDispatch intermediates ignore byte, [])
  | .oscDispatch _ _ => ({ l with steered := true }, [])
  | .hook _ _ _ _ => ({ l with steered := true }, [])
  | .put _ => (l, [])
  | .unhook => (l, [])

def performing : Transducer Call LogLine Line := ⟨perform u⟩

end Line

/-- The line being drawn and the lines finished and not yet taken. -/
structure LineDrawing where
  line : Line := {}
  finished : List LogLine := []
deriving DecidableEq, Repr

namespace LineDrawing

/-- Carries out `calls`, keeping the lines they finish. -/
def performs (u : Unicode) (d : LineDrawing) (calls : List Call) : LineDrawing :=
  let (line, lines) := (Line.performing u).run d.line calls
  ⟨line, d.finished ++ lines⟩

def takeLines (d : LineDrawing) : List LogLine × LineDrawing :=
  (d.finished, { d with finished := [] })

def peek (d : LineDrawing) : Option LogLine :=
  let line := d.line.snapshot
  if line.isBlank then none else some line

def finish (d : LineDrawing) : LineDrawing :=
  let (line, lines) := d.line.closeLine false
  ⟨line, d.finished ++ lines⟩

def dropLine (d : LineDrawing) : LineDrawing := ⟨{}, d.finished⟩

def width (d : LineDrawing) : ℕ := d.line.cells.length

end LineDrawing

end Muster.Terminal
