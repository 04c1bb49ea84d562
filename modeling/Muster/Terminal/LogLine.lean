import Muster.Terminal.Pen

/-!
# LogLine — one line of output as a log reader shows it

A line's columns carry the glyphs left on it.  The tables of Unicode the rendering asks, a
character's width and whether it is a format character, are parameters.
-/

namespace Muster.Terminal

/-- What the rendering asks of the Unicode tables. -/
structure Unicode where
  /-- Columns a character takes, none for a control character. -/
  width : Char → Option ℕ
  /-- Whether a character is of the general category Format. -/
  isFormat : Char → Bool

def isAscii (c : Char) : Bool := c.toNat < 0x80

def isAsciiControl (c : Char) : Bool := c.toNat < 0x20 || c.toNat == 0x7f

def isControl (c : Char) : Bool := c.toNat < 0x20 || (0x7f ≤ c.toNat && c.toNat < 0xa0)

def isWhitespace (c : Char) : Bool :=
  let n := c.toNat
  (0x9 ≤ n && n ≤ 0xd) || (0x2000 ≤ n && n ≤ 0x200a) ||
    [0x20, 0x85, 0xa0, 0x1680, 0x2028, 0x2029, 0x202f, 0x205f, 0x3000].contains n

def Unicode.steersTheTerminal (u : Unicode) (c : Char) : Bool :=
  (isControl c && c != '\t') || u.isFormat c

def escapeDefault (c : Char) : List Char :=
  if c = '\t' then ['\\', 't']
  else if c = '\r' then ['\\', 'r']
  else if c = '\n' then ['\\', 'n']
  else if c.toNat = 0x27 || c.toNat = 0x22 || c.toNat = 0x5c then ['\\', c]
  else if 0x20 ≤ c.toNat && c.toNat ≤ 0x7e then [c]
  else ['\\', 'u', Char.ofNat 0x7b] ++ Nat.toDigits 16 c.toNat ++ [Char.ofNat 0x7d]

def textBytes (text : List Char) : ℕ := (text.map Char.utf8Size).sum

structure LineCell where
  character : Char
  pen : Pen
  /-- Columns the glyph starting here spans, zero for a later column of a wider glyph. -/
  width : ℕ
  /-- When it was drawn, against which an erase to the cursor is checked. -/
  stamp : ℕ
deriving DecidableEq, Repr

namespace LineCell

def blank (stamp : ℕ) : LineCell := ⟨' ', {}, 1, stamp⟩

def continuation (pen : Pen) (stamp : ℕ) : LineCell := ⟨' ', pen, 0, stamp⟩

def restamped (cell : LineCell) (stamp : ℕ) : LineCell := { cell with stamp := stamp }

def continues (cell : LineCell) : Bool := cell.width == 0

end LineCell

abbrev Marks := List (ℕ × List Char)

structure LogLine where
  cells : List LineCell
  marks : Marks := []
deriving DecidableEq, Repr

namespace LogLine

def shows (line : LogLine) (cell : LineCell) (index : ℕ) : Bool :=
  !cell.continues && (!isWhitespace cell.character || (line.marks.lookup index).isSome)

def shownEnd (line : LogLine) : ℕ :=
  match line.cells.zipIdx.reverse.find? fun (cell, index) => line.shows cell index with
  | none => 0
  | some (cell, index) => min (index + cell.width) line.cells.length

def isBlank (line : LogLine) : Bool := line.shownEnd == 0

def plain (line : LogLine) : List Char :=
  (line.cells.take line.shownEnd).zipIdx.flatMap fun (cell, index) =>
    if cell.continues then [] else cell.character :: (line.marks.lookup index).getD []

def slice (line : LogLine) (first last : ℕ) : LogLine :=
  let last := min last line.cells.length
  let first := min first last
  { cells := (line.cells.take last).drop first
    marks := (line.marks.filter fun (index, _) => first ≤ index && index < last).map
      fun (index, marks) => (index - first, marks) }

end LogLine

end Muster.Terminal
