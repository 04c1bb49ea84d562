import Mathlib.Data.List.DropRight
import Mathlib.Data.Nat.Notation
import Mathlib.Data.UInt

/-!
# ScreenText — the text on a terminal's screen

`contentsBetween` reads a selection of the viewport whose last column is not part of it;
`screenText` asks it for the live screen up to the column before the last.  Every row but the bottom one
is read whole; the bottom one is shown as it is only while its last column is blank.
-/

namespace Muster.Terminal

/-- One cell of the grid; a spacer stands for the rest of a wide character, or before one that did not
fit its row. -/
structure GridCell where
  c : Char := ' '
  spacer : Bool := false
deriving DecidableEq, Repr

/-- The grid of a terminal: the screen's rows are the lines from zero on, the lines before them are
history, and the viewport stands `displayOffset` lines up. -/
structure Screen where
  rows : ℕ
  cols : ℕ
  displayOffset : ℕ
  cell : ℤ → ℕ → GridCell
  /-- A PTY has rows. -/
  someRow : 1 ≤ rows
  mostRows : rows ≤ 1000
  someCol : 1 ≤ cols
  mostCols : cols ≤ 2000

namespace Screen

variable (s : Screen)

/-- The characters of a line from column `first` up to `last`, without spacers. -/
def chars (line : ℤ) (first last : ℕ) : List Char :=
  (List.range' first (last - first)).filterMap fun col =>
    if (s.cell line col).spacer then none else some (s.cell line col).c

def trimEnd (text : List Char) : List Char := text.rdropWhile (· == ' ')

/-- What the viewport row `row` shows of the selection from `(top, startCol)` to `(bot, endCol)`. -/
def selectedRow (top startCol bot endCol row : ℕ) : List Char :=
  let line : ℤ := row - s.displayOffset
  let (first, last) :=
    if top = bot then (startCol, endCol)
    else if row = top then (startCol, s.cols)
    else if row = bot then (0, endCol)
    else (0, s.cols)
  trimEnd (s.chars line first (min last s.cols))

/-- The text of the selection from viewport row `top` at `startCol` to row `bot` before `endCol`. -/
def contentsBetween (top startCol bot endCol : ℕ) : List Char :=
  (List.range' top (bot + 1 - top)).flatMap fun row =>
    s.selectedRow top startCol bot endCol row ++ if row ≠ bot then ['\n'] else []

def size : UInt16 × UInt16 := (.ofNat s.rows, .ofNat s.cols)

def screenText : List Char :=
  let (rows, cols) := s.size
  if rows = 0 || cols = 0 then []
  else
    let display := UInt16.ofNat s.displayOffset
    s.contentsBetween display.toNat 0 (display + rows - 1).toNat (cols - 1).toNat

def liveRow (row : ℕ) : List Char := trimEnd (s.chars row 0 s.cols)

def lastCell : GridCell := s.cell (s.rows - 1 : ℕ) (s.cols - 1)

end Screen

theorem intercalate_concat (sep : List Char) (lines : List (List Char)) (last : List Char) :
    sep.intercalate (lines ++ [last]) = lines.flatMap (· ++ sep) ++ last := by
  induction lines with
  | nil => exact List.intercalate_singleton
  | cons line lines ih =>
    have hcons : ∃ next rest, lines ++ [last] = next :: rest :=
      List.exists_cons_of_ne_nil (List.append_ne_nil_of_right_ne_nil _ (List.cons_ne_nil _ _))
    obtain ⟨next, rest, hcons⟩ := hcons
    rw [hcons] at ih
    rw [List.cons_append, hcons, List.intercalate_cons_cons, ih, List.flatMap_cons]
    simp only [List.append_assoc]

namespace Screen

variable {s : Screen}

theorem chars_concat (s : Screen) (line : ℤ) : s.chars line 0 s.cols = s.chars line 0 (s.cols - 1) ++
    if (s.cell line (s.cols - 1)).spacer then [] else [(s.cell line (s.cols - 1)).c] := by
  obtain ⟨cols, hcols⟩ := Nat.exists_eq_add_of_le' s.someCol
  rw [hcols, Nat.add_sub_cancel, chars, Nat.sub_zero, List.range'_concat, List.filterMap_append,
    chars, Nat.sub_zero]
  simp only [Nat.zero_add, Nat.one_mul, List.filterMap_cons, List.filterMap_nil]
  split <;> simp_all

/-- The last column of a line shows nothing past the ones before exactly if it is blank or a spacer. -/
theorem trimEnd_chars_iff {line : ℤ} :
    trimEnd (s.chars line 0 (s.cols - 1)) = trimEnd (s.chars line 0 s.cols) ↔
      (s.cell line (s.cols - 1)).spacer ∨ (s.cell line (s.cols - 1)).c = ' ' := by
  rw [chars_concat]
  by_cases hspacer : (s.cell line (s.cols - 1)).spacer
  · simp [hspacer]
  rw [if_neg hspacer, or_iff_right hspacer]
  by_cases hblank : (s.cell line (s.cols - 1)).c = ' '
  · rw [iff_true_right hblank, hblank]
    exact (List.rdropWhile_concat_pos _ _ _ (by decide)).symm
  · refine iff_of_false (fun heq => ?_) hblank
    have hkept := heq.trans (List.rdropWhile_concat_neg _ _ _ (by simpa using hblank))
    have hle := (List.rdropWhile_prefix (· == ' ') (s.chars line 0 (s.cols - 1))).length_le
    have hlen := congrArg List.length hkept
    rw [List.length_append, List.length_singleton] at hlen
    unfold trimEnd at hlen
    omega

theorem selectedRow_of_lt {top bot endCol row : ℕ} (h : row < bot) (htop : top ≤ row) :
    s.selectedRow top 0 bot endCol row = trimEnd (s.chars (row - s.displayOffset) 0 s.cols) := by
  unfold selectedRow
  dsimp only
  rw [if_neg (by omega), if_neg (by omega : row ≠ bot), ite_self, Nat.min_self]

theorem selectedRow_bot {top bot endCol : ℕ} :
    s.selectedRow top 0 bot endCol bot =
      trimEnd (s.chars (bot - s.displayOffset) 0 (min endCol s.cols)) := by
  unfold selectedRow
  dsimp only
  by_cases hone : top = bot
  · rw [if_pos hone]
  · rw [if_neg hone, if_neg fun h => hone h.symm, if_pos rfl]

theorem screenText_eq (s : Screen) : s.screenText = s.contentsBetween (s.displayOffset % UInt16.size) 0
    ((s.displayOffset + (s.rows - 1)) % UInt16.size) (s.cols - 1) := by
  have hrow := s.someRow
  have hcol := s.someCol
  have hmost := s.mostRows
  have hcols := s.mostCols
  have hsize : UInt16.size = 65536 := rfl
  have hrows : (UInt16.ofNat s.rows).toNat = s.rows := UInt16.toNat_ofNat_of_lt (by omega)
  have hwide : (UInt16.ofNat s.cols).toNat = s.cols := UInt16.toNat_ofNat_of_lt (by omega)
  have hdisplay : (UInt16.ofNat s.displayOffset).toNat = s.displayOffset % UInt16.size := rfl
  have hone : (1 : UInt16).toNat = 1 := rfl
  have hbot : (UInt16.ofNat s.displayOffset + UInt16.ofNat s.rows - 1).toNat =
      (s.displayOffset + (s.rows - 1)) % UInt16.size := by
    rw [UInt16.toNat_sub, UInt16.toNat_add, hdisplay, hrows, hone, hsize]
    omega
  have hend : (UInt16.ofNat s.cols - 1).toNat = s.cols - 1 := by
    rw [UInt16.toNat_sub, hwide, hone]
    omega
  have hsome : ¬ ((UInt16.ofNat s.rows = 0 || UInt16.ofNat s.cols = 0) = true) := by
    rw [Bool.or_eq_true, decide_eq_true_eq, decide_eq_true_eq, ← UInt16.toNat_inj,
      ← UInt16.toNat_inj, hrows, hwide]
    exact fun h => h.elim (fun h => by simp at h; omega) (fun h => by simp at h; omega)
  unfold screenText size
  dsimp only
  rw [if_neg hsome, hdisplay, hbot, hend]

/-- Within the range of 16 bit numbers the live screen is read row by row, each row whole but the
bottom one, which is read up to its last column. -/
theorem screenText_eq_cut (h : s.displayOffset + s.rows ≤ UInt16.size) :
    s.screenText = ['\n'].intercalate ((List.range (s.rows - 1)).map s.liveRow ++
      [trimEnd (s.chars (s.rows - 1 : ℕ) 0 (s.cols - 1))]) := by
  have hrow := s.someRow
  rw [screenText_eq, Nat.mod_eq_of_lt (by omega), Nat.mod_eq_of_lt (by omega), intercalate_concat,
    contentsBetween]
  have hcount : s.displayOffset + (s.rows - 1) + 1 - s.displayOffset = s.rows - 1 + 1 := by omega
  rw [hcount, List.range'_concat, List.flatMap_append, List.flatMap_map, List.flatMap_singleton,
    Nat.one_mul, selectedRow_bot, if_neg (by simp), List.append_nil]
  congr 1
  · rw [List.range'_eq_map_range, List.flatMap_map]
    refine List.flatMap_congr fun row hmem => ?_
    have hlt := List.mem_range.1 hmem
    have hline : ((s.displayOffset + row : ℕ) : ℤ) - s.displayOffset = row := by omega
    rw [selectedRow_of_lt (by omega) (by omega), if_pos (by omega), liveRow, hline]
  · have hline : ((s.displayOffset + (s.rows - 1) : ℕ) : ℤ) - s.displayOffset = (s.rows - 1 : ℕ) := by
      omega
    rw [Nat.min_eq_left (Nat.sub_le _ _), hline]

/-- The rows of the live screen, each over all its columns. -/
def liveText (s : Screen) : List Char := ['\n'].intercalate ((List.range s.rows).map s.liveRow)

theorem liveText_eq (s : Screen) : s.liveText =
    ((List.range (s.rows - 1)).map s.liveRow).flatMap (· ++ ['\n']) ++ s.liveRow (s.rows - 1) := by
  have hrow := s.someRow
  rw [← intercalate_concat, liveText]
  conv_lhs => rw [show s.rows = s.rows - 1 + 1 by omega, List.range_succ, List.map_append]
  rfl

/-- Scrolled further up than 16 bit numbers count, the live screen is not read at all. -/
theorem screenText_of_history {t : Screen} (hoffset : UInt16.size ≤ s.displayOffset) (hrows : t.rows = s.rows)
    (hcols : t.cols = s.cols) (hdisplay : t.displayOffset = s.displayOffset)
    (hcell : ∀ line < 0, t.cell line = s.cell line) : t.screenText = s.screenText := by
  rw [screenText_eq, screenText_eq, hrows, hcols, hdisplay]
  refine List.flatMap_congr fun row hmem => ?_
  have hlast := Nat.mod_lt (s.displayOffset + (s.rows - 1)) (show 0 < UInt16.size by decide)
  have hline : ((row : ℤ) - s.displayOffset) < 0 := by
    rw [List.mem_range'_1] at hmem
    omega
  simp only [selectedRow, chars, hdisplay, hcols, hcell _ hline]

/-- **When the text is the live screen's.**  While the viewport is scrolled up by fewer lines than 16 bit
numbers count, the text of the live screen is its rows, each over all its columns, exactly if the bottom row
ends in a blank or a spacer and the screen's last line is still within that range.  From there on it is the
history's, whatever the screen shows. -/
theorem screenText_eq_rows (s : Screen) :
    (s.displayOffset < UInt16.size → (s.screenText = s.liveText ↔
      s.displayOffset + s.rows ≤ UInt16.size ∧ (s.lastCell.spacer ∨ s.lastCell.c = ' '))) ∧
    (UInt16.size ≤ s.displayOffset → ∀ t : Screen, t.rows = s.rows → t.cols = s.cols →
      t.displayOffset = s.displayOffset → (∀ line < 0, t.cell line = s.cell line) →
      t.screenText = s.screenText) := by
  refine ⟨fun hoffset => ?_, fun hoffset t => screenText_of_history hoffset⟩
  by_cases hrange : s.displayOffset + s.rows ≤ UInt16.size
  · rw [screenText_eq_cut hrange, intercalate_concat, liveText_eq, List.append_cancel_left_eq,
      and_iff_right hrange]
    exact trimEnd_chars_iff
  · -- the range of rows wraps and is empty, and two rows have a line feed between them
    refine iff_of_false (fun heq => ?_) fun h => hrange h.1
    have hmost := s.mostRows
    have hsize : UInt16.size = 65536 := rfl
    have hempty : s.screenText = [] := by
      rw [screenText_eq, contentsBetween, List.range'_eq_nil_iff.2 (by rw [hsize]; omega)]
      rfl
    obtain ⟨rows, hrows⟩ : ∃ rows, s.rows - 1 = rows + 1 := ⟨s.rows - 2, by omega⟩
    rw [hempty, liveText_eq, hrows, List.range_succ, List.map_append, List.flatMap_append] at heq
    simp at heq

end Screen

/-- A screen of the lines given, each character in a column of its own, scrolled up by some lines of
blank history. -/
def screenOf (lines : List (List Char)) (cols displayOffset : ℕ)
    (hrows : 1 ≤ lines.length ∧ lines.length ≤ 1000) (hcols : 1 ≤ cols ∧ cols ≤ 2000) : Screen where
  rows := lines.length
  cols := cols
  displayOffset := displayOffset
  cell line col := if line < 0 then {} else ⟨(lines[line.toNat]?.bind (·[col]?)).getD ' ', false⟩
  someRow := hrows.1
  mostRows := hrows.2
  someCol := hcols.1
  mostCols := hcols.2

theorem screenText_eq_rows_of_two :
    let s := screenOf [['a', 'b', 'c'], ['d', 'e']] 3 5 (by decide) (by decide)
    s.screenText = ['a', 'b', 'c', '\n', 'd', 'e'] := by
  intro s
  exact ((s.screenText_eq_rows.1 (by decide)).2 ⟨by decide, .inr (by decide)⟩).trans (by decide)

/-- A full row loses its last character when it is the bottom one; a viewport scrolled up by as many
lines as 16 bits count shows history. -/
theorem screenText_misses :
    (screenOf [['a', 'b']] 2 0 (by decide) (by decide)).screenText = ['a'] ∧
      (screenOf [['a', 'b']] 2 0 (by decide) (by decide)).liveRow 0 = ['a', 'b'] ∧
      (screenOf [['a', ' ']] 2 65536 (by decide) (by decide)).screenText = [] ∧
      (screenOf [['a', ' ']] 2 65536 (by decide) (by decide)).liveRow 0 = ['a'] := by
  decide

end Muster.Terminal
