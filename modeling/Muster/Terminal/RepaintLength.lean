import Mathlib.Algebra.Order.BigOperators.Group.List
import Mathlib.Algebra.Order.Group.Nat
import Muster.Terminal.Repaint

/-!
# RepaintLength — how long a repaint is

The longest repaint of a terminal of a size, with at most so many zero-width characters in a cell: every
cell takes four bytes for each of its characters and a pen of every attribute and two true colors, since
the pen before it is another, and a stop is set in every column.  What else is written is bounded part by
part, but for the cursor's row, the scroll region and origin mode: a higher region counts the row from
further down.  `fullest` is a terminal that reaches the bound.
-/

namespace Muster.Terminal

open Text
open String (utf8Len utf8Len_nil utf8Len_cons utf8Len_append)

namespace Text

theorem utf8Len_flatMap {α : Type*} (f : α → Text) (xs : List α) :
    utf8Len (xs.flatMap f) = (xs.map fun x => utf8Len (f x)).sum := by
  induction xs with
  | nil => rfl
  | cons x xs ih => rw [List.flatMap_cons, utf8Len_append, ih, List.map_cons, List.sum_cons]

theorem le_utf8Len_flatMap {α : Type*} {f : α → Text} {xs : List α} {least : ℕ}
    (h : ∀ x ∈ xs, least ≤ utf8Len (f x)) : xs.length * least ≤ utf8Len (xs.flatMap f) := by
  rw [utf8Len_flatMap]
  simpa using List.card_nsmul_le_sum (xs.map fun x => utf8Len (f x)) least (by simpa using h)

theorem utf8Len_flatMap_sublist {α : Type*} (f : α → Text) {xs ys : List α} (h : xs.Sublist ys) :
    utf8Len (xs.flatMap f) ≤ utf8Len (ys.flatMap f) := by
  rw [utf8Len_flatMap, utf8Len_flatMap]
  exact (h.map _).sum_le_sum (fun _ _ => Nat.zero_le _)

theorem utf8Len_le : ∀ text : Text, utf8Len text ≤ text.length * 4
  | [] => Nat.le_refl _
  | c :: text => by
    have hc := c.utf8Size_le_four
    have htext := utf8Len_le text
    rw [utf8Len_cons, List.length_cons]
    omega

theorem length_intoBytes : ∀ text : Text, text.intoBytes.length = utf8Len text
  | [] => rfl
  | c :: text => by
    have htext : (text.flatMap String.utf8EncodeChar).length = utf8Len text := length_intoBytes text
    rw [intoBytes, List.flatMap_cons, List.length_append, String.length_utf8EncodeChar, htext,
      utf8Len_cons, Nat.add_comm]

theorem utf8Len_eq_length : ∀ {text : Text}, (∀ c ∈ text, c.utf8Size = 1) →
    utf8Len text = text.length
  | [], _ => rfl
  | c :: text, h => by
    rw [utf8Len_cons, List.length_cons, h c List.mem_cons_self,
      utf8Len_eq_length fun c' hc' => h c' (List.mem_cons_of_mem _ hc')]

theorem utf8Len_decimal (n : ℕ) : utf8Len (decimal n) = (decimal n).length := by
  refine utf8Len_eq_length fun c hc => ?_
  have hdigit := Nat.isDigit_of_mem_toDigits (by decide) (by decide) hc
  rw [Char.isDigit, Bool.and_eq_true, decide_eq_true_eq, decide_eq_true_eq] at hdigit
  exact Char.utf8Size_eq_one_iff.2 (UInt32.le_trans hdigit.2 (by decide))

theorem utf8Len_decimal_le (digits : ℕ) {n : ℕ} (hpos : 0 < digits) (h : n < 10 ^ digits) :
    utf8Len (decimal n) ≤ digits := by
  rw [utf8Len_decimal]
  exact (Nat.length_toDigits_le_iff (by decide) hpos).2 h

theorem utf8Len_decimal_mono {m n : ℕ} (h : m ≤ n) : utf8Len (decimal m) ≤ utf8Len (decimal n) := by
  have hpos : 0 < utf8Len (decimal n) := by
    rw [utf8Len_decimal]
    exact Nat.length_toDigits_pos
  have hlt := (Nat.length_toDigits_le_iff (by decide) hpos).1 (utf8Len_decimal n).ge
  exact utf8Len_decimal_le _ hpos (Nat.lt_of_le_of_lt h hlt)

end Text

/-! ### The longest parts -/

/-- Bytes a pen's sequence takes at most: every attribute and two true colors. -/
def mostSgr : ℕ := 52

/-- Bytes a cell with at most `marks` zero-width characters takes at most, its pen written. -/
def mostCell (marks : ℕ) : ℕ := mostSgr + 4 * (1 + marks)

/-- Bytes a row of cells takes at most: its position, the cells and the reset of the pen. -/
def mostRow (cols marks row : ℕ) : ℕ := utf8Len (cursorPosition row 1) + cols * mostCell marks + 4

def mostCells (size : ScreenSize) (marks : ℕ) : ℕ :=
  ((List.range size.rows).map fun row => mostRow size.cols marks (row + 1)).sum

/-- A stop set in every column, the default ones cleared. -/
def everyTabStop (cols : ℕ) : Text :=
  "\x1b[3g".toList ++ (List.range cols).flatMap fun column =>
    cursorPosition 1 (min (column + 1) (2 ^ 16 - 1)) ++ "\x1bH".toList

/-- Bytes a repaint takes at most. -/
def mostRepaint (size : ScreenSize) (marks : ℕ) (alternate : Bool) : ℕ :=
  let corner := utf8Len (cursorPosition size.rows size.cols)
  -- The primary screen behind the alternate one: its cells, cursor and pen, and the switch.
  (if alternate then mostCells size marks + corner + mostCell marks + 76 else 0) +
  utf8Len (everyTabStop size.cols) + mostCells size marks +
  -- The saved cursor, and the region, origin mode and cursor, of which the row is the first addressed.
  (corner + 70) + (utf8Len (cursorPosition 1 size.cols) + mostCell marks + 23) +
  -- The reset, modes, shift out and pen.
  118

def ScreenSnapshot.MarksAtMost (s : ScreenSnapshot) (marks : ℕ) : Prop :=
  ∀ row ∈ s.rows, ∀ cell ∈ row, cell.zerowidth.length ≤ marks

theorem utf8Len_colorParams_le (introducer : ℕ) (h : introducer < 100) (color : CellColor) :
    utf8Len ((colorParams introducer color).flatMap (';' :: ·)) ≤ 17 := by
  have hintro := utf8Len_decimal_le 2 (by decide) h
  have hbyte : ∀ byte : UInt8, utf8Len (decimal byte.toNat) ≤ 3 := fun byte =>
    utf8Len_decimal_le 3 (by decide) (Nat.lt_trans byte.toNat_lt (by decide))
  have hsemicolon : ';'.utf8Size = 1 := rfl
  have hfive : utf8Len (decimal 5) = 1 := by decide
  have htwo : utf8Len (decimal 2) = 1 := by decide
  cases color with
  | default => simp [colorParams]
  | indexed index =>
    have hindex := hbyte index
    simp only [colorParams, List.flatMap_cons, List.flatMap_nil, utf8Len_append, utf8Len_cons, utf8Len_nil]
    omega
  | rgb red green blue =>
    have hred := hbyte red
    have hgreen := hbyte green
    have hblue := hbyte blue
    simp only [colorParams, List.flatMap_cons, List.flatMap_nil, utf8Len_append, utf8Len_cons, utf8Len_nil]
    omega

theorem utf8Len_attributeParams_le (flags : CellFlags) :
    utf8Len ((((attributeParams flags).filter (·.1)).map (·.2)).flatMap (';' :: ·)) ≤ 14 := by
  refine Nat.le_trans (utf8Len_flatMap_sublist _ (List.filter_sublist.map _)) ?_
  simp only [attributeParams, List.map_cons, List.map_nil]
  decide

theorem utf8Len_sgrSequence_le (style : CellStyle) : utf8Len (sgrSequence style) ≤ mostSgr := by
  have hflags := utf8Len_attributeParams_le style.flags
  have hfg := utf8Len_colorParams_le 38 (by decide) style.fg
  have hbg := utf8Len_colorParams_le 48 (by decide) style.bg
  have hcsi : utf8Len csi = 2 := by decide
  have hzero : utf8Len (decimal 0) = 1 := by decide
  have hfinal : 'm'.utf8Size = 1 := rfl
  simp only [sgrSequence, joined, List.flatMap_append, utf8Len_append, utf8Len_cons, utf8Len_nil, mostSgr]
  omega

theorem utf8Len_cursorPosition (row col : ℕ) :
    utf8Len (cursorPosition row col) = utf8Len (decimal row) + utf8Len (decimal col) + 4 := by
  have hcsi : utf8Len csi = 2 := by decide
  have hsemicolon : ';'.utf8Size = 1 := rfl
  have hfinal : 'H'.utf8Size = 1 := rfl
  simp only [cursorPosition, utf8Len_append, utf8Len_cons, utf8Len_nil]
  omega

theorem utf8Len_cursorPosition_mono {row row' col col' : ℕ} (hrow : row ≤ row') (hcol : col ≤ col') :
    utf8Len (cursorPosition row col) ≤ utf8Len (cursorPosition row' col') := by
  rw [utf8Len_cursorPosition, utf8Len_cursorPosition]
  exact Nat.add_le_add_right (Nat.add_le_add (utf8Len_decimal_mono hrow) (utf8Len_decimal_mono hcol)) 4

theorem utf8Len_printed_le {cell : SnapshotCell} {marks : ℕ} (h : cell.zerowidth.length ≤ marks) :
    utf8Len (cell.ch :: cell.zerowidth) ≤ 4 * (1 + marks) := by
  have hsize := utf8Len_le (cell.ch :: cell.zerowidth)
  rw [List.length_cons] at hsize
  omega

theorem utf8Len_paintRun_le {marks : ℕ} : ∀ {cells : List SnapshotCell} (pen : Option CellStyle),
    (∀ cell ∈ cells, cell.zerowidth.length ≤ marks) →
      utf8Len (paintRun pen cells) ≤ cells.length * mostCell marks
  | [], _, _ => Nat.zero_le _
  | cell :: cells, pen, h => by
    have hcell := utf8Len_printed_le (h cell List.mem_cons_self)
    have hcells := utf8Len_paintRun_le (some cell.style) fun cell' hcell' =>
      h cell' (List.mem_cons_of_mem _ hcell')
    have hpen : utf8Len (if pen ≠ some cell.style then sgrSequence cell.style else []) ≤ mostSgr := by
      split
      · exact utf8Len_sgrSequence_le cell.style
      · exact Nat.zero_le _
    rw [paintRun, utf8Len_append, utf8Len_append, List.length_cons, Nat.succ_mul, mostCell]
    rw [mostCell] at hcells
    omega

theorem utf8Len_sgrReset : utf8Len sgrReset = 4 := by decide

theorem utf8Len_paintRow_le {row cols marks : ℕ} {cells : List SnapshotCell}
    (h : ∀ cell ∈ cells, cell.zerowidth.length ≤ marks) :
    utf8Len (paintRow row cols cells) ≤ mostRow cols marks row := by
  set painted := ((cells.take cols).rdropWhile (·.isBlankDefault)).filter (!·.spacer) with hpainted
  have hsub : painted.Sublist (cells.take cols) :=
    List.filter_sublist.trans (List.rdropWhile_prefix _ _).sublist
  have hrun : utf8Len (paintRun none painted) ≤ painted.length * mostCell marks :=
    utf8Len_paintRun_le none fun cell hcell => h cell (List.mem_of_mem_take (hsub.subset hcell))
  have hlength : painted.length ≤ cols :=
    Nat.le_trans hsub.length_le (List.length_take_le _ _)
  have hcells := Nat.mul_le_mul_right (mostCell marks) hlength
  simp only [paintRow, ← hpainted, utf8Len_append, utf8Len_sgrReset, mostRow]
  omega

namespace ScreenSnapshot

variable {s : ScreenSnapshot} {size : ScreenSize} {rows cols marks : ℕ}

theorem utf8Len_paintCells (s : ScreenSnapshot) (rows cols : ℕ) : utf8Len (s.paintCells rows cols) =
    (((List.range rows).zip s.rows).map fun x => utf8Len (paintRow (x.1 + 1) cols x.2)).sum :=
  utf8Len_flatMap _ _

theorem mostCells_eq (h : s.Fits size) (marks : ℕ) : mostCells size marks =
    (((List.range size.rows).zip s.rows).map fun x => mostRow size.cols marks (x.1 + 1)).sum := by
  have hfst : ((List.range size.rows).zip s.rows).map Prod.fst = List.range size.rows :=
    List.map_fst_zip (by rw [List.length_range, h.1])
  have hmap : ((List.range size.rows).zip s.rows).map (fun x => mostRow size.cols marks (x.1 + 1)) =
      (((List.range size.rows).zip s.rows).map Prod.fst).map fun row =>
        mostRow size.cols marks (row + 1) := by
    rw [List.map_map]
    rfl
  rw [hmap, hfst, mostCells]

theorem utf8Len_paintCells_le (hfits : s.Fits size) (h : s.MarksAtMost marks) :
    utf8Len (s.paintCells size.rows size.cols) ≤ mostCells size marks := by
  rw [utf8Len_paintCells, mostCells_eq hfits]
  exact List.sum_le_sum fun x hx => utf8Len_paintRow_le (h x.2 (List.of_mem_zip hx).2)

theorem utf8Len_pushCharsets (charsets : Charset × Charset) : utf8Len (pushCharsets charsets) = 6 := by
  obtain ⟨_ | _, _ | _⟩ := charsets <;> decide

theorem utf8Len_pushPen (cursor : CursorState) :
    utf8Len (pushPen cursor) = 6 + utf8Len (sgrSequence cursor.pen) := by
  rw [pushPen, utf8Len_append, utf8Len_pushCharsets]

theorem utf8Len_saveCursor (s : ScreenSnapshot) (rows cols : ℕ) : utf8Len (s.saveCursor rows cols) =
    utf8Len (cursorPosition (min s.saved.position.1 (rows - 1) + 1) (min s.saved.position.2 (cols - 1) + 1)) +
      utf8Len (sgrSequence s.saved.pen) + 18 := by
  have hsave : utf8Len "\x1b7".toList = 2 := by decide
  rw [saveCursor, utf8Len_append, utf8Len_append, utf8Len_append, utf8Len_append, utf8Len_pushPen,
    utf8Len_pushCharsets, utf8Len_sgrReset, hsave]
  omega

theorem utf8Len_saveCursor_le (hrows : 1 ≤ rows) (hcols : 1 ≤ cols) :
    utf8Len (s.saveCursor rows cols) ≤ utf8Len (cursorPosition rows cols) + 70 := by
  have hposition : utf8Len (cursorPosition (min s.saved.position.1 (rows - 1) + 1)
      (min s.saved.position.2 (cols - 1) + 1)) ≤ utf8Len (cursorPosition rows cols) :=
    utf8Len_cursorPosition_mono (by omega) (by omega)
  have hpen : utf8Len (sgrSequence s.saved.pen) ≤ 52 := utf8Len_sgrSequence_le s.saved.pen
  rw [utf8Len_saveCursor]
  omega

theorem lastPrinted_spec {row last column : ℕ} {cell : SnapshotCell}
    (h : s.lastPrinted row last = some (column, cell)) :
    column ≤ last ∧ ∃ cells ∈ s.rows, cell ∈ cells := by
  unfold lastPrinted at h
  simp only [Option.bind_eq_bind, Option.bind_eq_some_iff] at h
  obtain ⟨cells, hcells, printed, hprinted, h⟩ := h
  have hrow := List.mem_of_getElem? hcells
  split at h
  · cases h
    exact ⟨Nat.le_refl _, cells, hrow, List.mem_of_getElem? hprinted⟩
  · split at h
    · cases h
    · simp only [Option.bind_eq_some_iff] at h
      obtain ⟨lead, hlead, h⟩ := h
      cases h
      exact ⟨Nat.sub_le _ _, cells, hrow, List.mem_of_getElem? hlead⟩

def addressed (s : ScreenSnapshot) (rows originTop : ℕ) : ℕ :=
  min s.cursor.position.1 (rows - 1) - originTop + 1

theorem utf8Len_placeCursor_le (hcols : 1 ≤ cols) (h : s.MarksAtMost marks) (originTop : ℕ) :
    utf8Len (s.placeCursor rows cols originTop) ≤
      utf8Len (cursorPosition (s.addressed rows originTop) cols) + mostCell marks + 4 := by
  have hposition : ∀ column < cols, utf8Len (cursorPosition (s.addressed rows originTop) (column + 1)) ≤
      utf8Len (cursorPosition (s.addressed rows originTop) cols) := fun column hcolumn =>
    utf8Len_cursorPosition_mono (Nat.le_refl _) hcolumn
  have hplain := hposition (min s.cursor.position.2 (cols - 1)) (by omega)
  rw [addressed] at hposition hplain ⊢
  unfold placeCursor
  dsimp only
  split
  · split
    · next column cell hlast =>
      obtain ⟨hcolumn, cells, hcells, hcell⟩ := lastPrinted_spec hlast
      have hcolumn := hposition column (by omega)
      have hpen := utf8Len_sgrSequence_le cell.style
      have hprinted := utf8Len_printed_le (h cells hcells cell hcell)
      rw [utf8Len_append, utf8Len_append, utf8Len_append, utf8Len_sgrReset, mostCell]
      omega
    · omega
  · omega

end ScreenSnapshot

theorem utf8Len_pushTabStops_le (tabs : List Bool) :
    utf8Len (pushTabStops tabs) ≤ utf8Len (everyTabStop tabs.length) := by
  have hcolumns : (tabColumns tabs).Sublist (List.range tabs.length) := by
    have hall : tabs.zipIdx.map Prod.snd = List.range tabs.length := by
      rw [List.zipIdx_map_snd, List.range_eq_range']
    exact hall ▸ List.filter_sublist.map _
  unfold pushTabStops everyTabStop
  split
  · exact Nat.zero_le _
  · rw [utf8Len_append, utf8Len_append]
    exact Nat.add_le_add_left (utf8Len_flatMap_sublist _ hcolumns) _

theorem utf8Len_pushWhen_le (on : Bool) (sequence : String) :
    utf8Len (pushWhen on sequence) ≤ utf8Len sequence.toList := by
  cases on
  · exact Nat.zero_le _
  · exact Nat.le_refl _

theorem utf8Len_pushModeSequences_le (modes : Modes) : utf8Len (pushModeSequences modes) ≤ 57 := by
  have hstyle : utf8Len (pushCursorStyle modes.cursorStyle) ≤ 5 := by
    rcases modes.cursorStyle with - | ⟨_ | _ | _ | _ | _, _ | _⟩ <;> decide
  have hmouse : utf8Len (pushMouseMode modes.mouseMode) ≤ 8 := by
    cases modes.mouseMode <;> decide
  have hencoding : utf8Len (pushMouseEncoding modes.mouseEncoding) ≤ 8 := by
    cases modes.mouseEncoding <;> decide
  have hwrap : utf8Len (pushWhen (!modes.lineWrap) "\x1b[?7l") ≤ 5 := utf8Len_pushWhen_le _ _
  have hfocus : utf8Len (pushWhen modes.focusInOut "\x1b[?1004h") ≤ 8 := utf8Len_pushWhen_le _ _
  have hcursor : utf8Len (pushWhen (!modes.showCursor) "\x1b[?25l") ≤ 6 := utf8Len_pushWhen_le _ _
  have hpaste : utf8Len (pushWhen modes.bracketedPaste "\x1b[?2004h") ≤ 8 := utf8Len_pushWhen_le _ _
  have hkeys : utf8Len (pushWhen modes.applicationCursor "\x1b[?1h") ≤ 5 := utf8Len_pushWhen_le _ _
  have hinsert : utf8Len (pushWhen modes.insert "\x1b[4h") ≤ 4 := utf8Len_pushWhen_le _ _
  simp only [pushModeSequences, utf8Len_append]
  omega

namespace TerminalState

variable {t : TerminalState} {marks : ℕ}

def MarksAtMost (t : TerminalState) (marks : ℕ) : Prop :=
  t.shown.MarksAtMost marks ∧ ∀ screen ∈ t.primary, screen.MarksAtMost marks

theorem utf8Len_pushPrimary_le (h : t.MarksAtMost marks) : utf8Len t.pushPrimary ≤
    if t.alternateScreen then
      mostCells t.size marks + utf8Len (cursorPosition t.size.rows t.size.cols) + mostCell marks + 76
    else 0 := by
  have hrows : 1 ≤ t.size.rows := t.size.rows_least
  have hcols : 1 ≤ t.size.cols := Nat.le_trans (by decide) t.size.cols_least
  have halternate : utf8Len "\x1b[?1049h".toList = 8 := by decide
  have hsgr : mostSgr = 52 := rfl
  unfold pushPrimary
  split
  · rw [utf8Len_append, utf8Len_append, halternate, ScreenSnapshot.utf8Len_pushCharsets]
    cases hprimary : t.primary with
    | none =>
      simp only [utf8Len_nil]
      omega
    | some screen =>
      have hmarks := h.2 screen hprimary
      have hcells := ScreenSnapshot.utf8Len_paintCells_le (t.primary_fits screen hprimary) hmarks
      have hcursor : utf8Len (screen.placeCursor t.size.rows t.size.cols 0) ≤ _ :=
        ScreenSnapshot.utf8Len_placeCursor_le hcols hmarks 0
      have hcorner : utf8Len (cursorPosition (screen.addressed t.size.rows 0) t.size.cols) ≤
          utf8Len (cursorPosition t.size.rows t.size.cols) :=
        utf8Len_cursorPosition_mono (by rw [ScreenSnapshot.addressed]; omega) (Nat.le_refl _)
      have hpen := utf8Len_sgrSequence_le screen.cursor.pen
      simp only [utf8Len_append, ScreenSnapshot.restorePen, ScreenSnapshot.utf8Len_pushPen]
      omega
  · exact Nat.le_refl _

theorem utf8Len_pushScrollRegion {top bottom : ℕ} (h : t.scrollRegion = some (top, bottom)) :
    utf8Len t.pushScrollRegion = utf8Len (decimal top) + utf8Len (decimal bottom) + 4 := by
  have hcsi : utf8Len csi = 2 := by decide
  have hsemicolon : utf8Len [';'] = 1 := by decide
  have hfinal : utf8Len ['r'] = 1 := by decide
  unfold pushScrollRegion
  rw [h]
  simp only [utf8Len_append]
  omega

/-- A row counted from the top of a region has the fewer digits the more the top has. -/
theorem utf8Len_addressed_le {top row : ℕ} (htop : top < 2 ^ 16) (hrow : row < maxRows) :
    utf8Len (decimal top) + utf8Len (decimal (row - (top - 1) + 1)) ≤ 6 := by
  have hmax : maxRows = 1000 := rfl
  rcases lt_or_ge top 100 with hlow | hlow
  · have hdigits := utf8Len_decimal_le 2 (by decide) hlow
    have hrow : utf8Len (decimal (row - (top - 1) + 1)) ≤ 4 := utf8Len_decimal_le 4 (by decide) (by omega)
    omega
  · rcases lt_or_ge top 1000 with hhigh | hhigh
    · have hdigits := utf8Len_decimal_le 3 (by decide) hhigh
      have hrow : utf8Len (decimal (row - (top - 1) + 1)) ≤ 3 := utf8Len_decimal_le 3 (by decide) (by omega)
      omega
    · have hdigits : utf8Len (decimal top) ≤ 5 := utf8Len_decimal_le 5 (by decide) (by omega)
      have hrow : utf8Len (decimal (row - (top - 1) + 1)) ≤ 1 := utf8Len_decimal_le 1 (by decide) (by omega)
      omega

/-- The region, origin mode and the row the cursor is addressed by take at most twenty bytes together. -/
theorem utf8Len_origin_le (t : TerminalState) : utf8Len t.pushScrollRegion +
    utf8Len (pushWhen t.modes.origin "\x1b[?6h") +
    utf8Len (decimal (t.shown.addressed t.size.rows t.originTop)) ≤ 20 := by
  have hrows := t.size.rows_most
  have hmax : maxRows = 1000 := rfl
  have horigin : utf8Len (pushWhen t.modes.origin "\x1b[?6h") ≤ 5 := utf8Len_pushWhen_le _ _
  have hrow : utf8Len (decimal (t.shown.addressed t.size.rows t.originTop)) ≤ 4 :=
    utf8Len_decimal_le 4 (by decide) (by rw [ScreenSnapshot.addressed]; omega)
  cases hregion : t.scrollRegion with
  | none =>
    have hnone : utf8Len t.pushScrollRegion = 0 := by
      rw [pushScrollRegion, hregion]
      rfl
    omega
  | some region =>
    obtain ⟨top, bottom⟩ := region
    obtain ⟨htop, hlt, hbottom⟩ := t.region_fits _ hregion
    dsimp only at htop hlt hbottom
    have hdigits : utf8Len (decimal bottom) ≤ 5 := utf8Len_decimal_le 5 (by decide) (by omega)
    rw [utf8Len_pushScrollRegion hregion]
    cases hon : t.modes.origin with
    | false =>
      have hdigits : utf8Len (decimal top) ≤ 5 := utf8Len_decimal_le 5 (by decide) (by omega)
      have hoff : utf8Len (pushWhen false "\x1b[?6h") = 0 := rfl
      omega
    | true =>
      have horiginTop : t.originTop = top - 1 := by
        rw [originTop, if_pos hon, hregion]
        exact if_pos (by omega)
      have hboth : utf8Len (decimal top) +
          utf8Len (decimal (t.shown.addressed t.size.rows (top - 1))) ≤ 6 :=
        utf8Len_addressed_le (by omega) (by omega)
      rw [hon] at horigin
      rw [horiginTop]
      omega

theorem utf8Len_repaint (t : TerminalState) : utf8Len t.repaint =
    utf8Len "\x1bc".toList + utf8Len t.pushPrimary + utf8Len (pushTabStops t.tabs) +
    utf8Len t.pushScrollRegion + utf8Len (t.shown.paintCells t.size.rows t.size.cols) +
    utf8Len (t.shown.saveCursor t.size.rows t.size.cols) +
    utf8Len (pushWhen t.modes.origin "\x1b[?6h") +
    utf8Len (t.shown.placeCursor t.size.rows t.size.cols t.originTop) +
    utf8Len (pushModeSequences t.modes) + utf8Len (pushWhen t.shiftOut "\x0e") +
    utf8Len t.shown.restorePen := by
  unfold repaint
  simp only [utf8Len_append]

theorem utf8Len_paintCells_le_repaint (t : TerminalState) :
    utf8Len (t.shown.paintCells t.size.rows t.size.cols) ≤ utf8Len t.repaint := by
  have hsum := t.utf8Len_repaint
  omega

/-- **No repaint is longer** of a terminal whose cells have at most `marks` zero-width characters. -/
theorem utf8Len_repaint_le (h : t.MarksAtMost marks) :
    utf8Len t.repaint ≤ mostRepaint t.size marks t.alternateScreen := by
  have hrows : 1 ≤ t.size.rows := t.size.rows_least
  have hcols : 1 ≤ t.size.cols := Nat.le_trans (by decide) t.size.cols_least
  have hreset : utf8Len "\x1bc".toList = 2 := by decide
  have hprimary := utf8Len_pushPrimary_le h
  have htabs : utf8Len (pushTabStops t.tabs) ≤ utf8Len (everyTabStop t.size.cols) :=
    t.tabs_fit ▸ utf8Len_pushTabStops_le t.tabs
  have hcells := ScreenSnapshot.utf8Len_paintCells_le t.shown_fits h.1
  have hsaved : utf8Len (t.shown.saveCursor t.size.rows t.size.cols) ≤ _ :=
    ScreenSnapshot.utf8Len_saveCursor_le hrows hcols
  have hcursor : utf8Len (t.shown.placeCursor t.size.rows t.size.cols t.originTop) ≤ _ :=
    ScreenSnapshot.utf8Len_placeCursor_le hcols h.1 t.originTop
  have horigin := t.utf8Len_origin_le
  have hone : utf8Len (decimal 1) = 1 := by decide
  have hmodes := utf8Len_pushModeSequences_le t.modes
  have hshift : utf8Len (pushWhen t.shiftOut "\x0e") ≤ 1 := utf8Len_pushWhen_le _ _
  have hpen : utf8Len (sgrSequence t.shown.cursor.pen) ≤ 52 := utf8Len_sgrSequence_le _
  rw [utf8Len_cursorPosition] at hcursor
  rw [utf8Len_repaint, ScreenSnapshot.restorePen, ScreenSnapshot.utf8Len_pushPen, mostRepaint,
    utf8Len_cursorPosition 1, hone]
  omega

end TerminalState

/-! ### The fullest terminal -/

def turns (a b : SnapshotCell) : ℕ → List SnapshotCell
  | 0 => []
  | n + 1 => a :: turns b a n

theorem length_turns (a b : SnapshotCell) (n : ℕ) : (turns a b n).length = n := by
  induction n generalizing a b with
  | zero => rfl
  | succ n ih => rw [turns, List.length_cons, ih]

variable {a b : SnapshotCell}

theorem mem_turns {cell : SnapshotCell} {n : ℕ} (h : cell ∈ turns a b n) : cell = a ∨ cell = b := by
  induction n generalizing a b with
  | zero => cases h
  | succ n ih =>
    rcases List.mem_cons.1 h with h | h
    · exact .inl h
    · exact (ih h).symm

theorem utf8Len_paintRun_turns {most : ℕ} (hne : a.style ≠ b.style)
    (ha : utf8Len (sgrSequence a.style) + utf8Len (a.ch :: a.zerowidth) = most)
    (hb : utf8Len (sgrSequence b.style) + utf8Len (b.ch :: b.zerowidth) = most) (n : ℕ)
    {pen : Option CellStyle} (hpen : pen ≠ some a.style) :
    utf8Len (paintRun pen (turns a b n)) = n * most := by
  induction n generalizing a b pen with
  | zero => rw [Nat.zero_mul]; rfl
  | succ n ih =>
    rw [turns, paintRun, if_pos hpen, utf8Len_append, utf8Len_append, Nat.succ_mul,
      ih hne.symm hb ha fun h => hne (Option.some.inj h)]
    omega

theorem utf8Len_paintRow_turns {most : ℕ} (hne : a.style ≠ b.style)
    (ha : utf8Len (sgrSequence a.style) + utf8Len (a.ch :: a.zerowidth) = most)
    (hb : utf8Len (sgrSequence b.style) + utf8Len (b.ch :: b.zerowidth) = most)
    (hshown : ∀ cell, cell = a ∨ cell = b → cell.isBlankDefault = false ∧ cell.spacer = false)
    (row cols : ℕ) :
    utf8Len (paintRow row cols (turns a b cols)) = utf8Len (cursorPosition row 1) + cols * most + 4 := by
  have htake : (turns a b cols).take cols = turns a b cols :=
    List.take_of_length_le (Nat.le_of_eq (length_turns a b cols))
  have hused : (turns a b cols).rdropWhile (·.isBlankDefault) = turns a b cols := by
    refine List.rdropWhile_eq_self_iff.2 fun hne => ?_
    rw [(hshown _ (mem_turns (List.getLast_mem hne))).1]
    exact Bool.false_ne_true
  have hprinted : (turns a b cols).filter (!·.spacer) = turns a b cols :=
    List.filter_eq_self.2 fun cell hcell => by rw [(hshown cell (mem_turns hcell)).2]; rfl
  rw [paintRow, htake, hused, hprinted, utf8Len_append, utf8Len_append, utf8Len_sgrReset,
    utf8Len_paintRun_turns hne ha hb cols (by simp)]

def fullStyle (red : UInt8) : CellStyle where
  fg := .rgb red 255 255
  bg := .rgb 255 255 255
  flags := ⟨true, true, true, true, true, true, true⟩

/-- A letter of four bytes under as many marks of four bytes. -/
def fullCell (marks : ℕ) (red : UInt8) : SnapshotCell where
  ch := Char.ofNat 0x1d400
  zerowidth := List.replicate marks (Char.ofNat 0xe0100)
  style := fullStyle red

/-- The last column, with the wrap still to come. -/
def fullCursor (size : ScreenSize) : CursorState where
  position := (size.rows - 1, size.cols - 1)
  wrapPending := true
  pen := fullStyle 255

def fullScreen (size : ScreenSize) (marks : ℕ) : ScreenSnapshot where
  rows := List.replicate size.rows (turns (fullCell marks 255) (fullCell marks 254) size.cols)
  cursor := fullCursor size
  saved := fullCursor size

/-- Every mode that is written, origin mode with them. -/
def fullModes : Modes where
  lineWrap := false
  focusInOut := true
  showCursor := false
  bracketedPaste := true
  applicationCursor := true
  insert := true
  origin := true
  mouseMode := .anyMotion
  mouseEncoding := .sgr
  cursorStyle := some (.block, true)

theorem fullScreen_fits (size : ScreenSize) (marks : ℕ) : (fullScreen size marks).Fits size := by
  refine ⟨List.length_replicate, fun row hrow => ?_⟩
  rw [List.eq_of_mem_replicate hrow]
  exact length_turns _ _ _

/-- The terminal with the longest repaint. -/
def fullest (size : ScreenSize) (marks : ℕ) (alternate : Bool) : TerminalState where
  size
  shown := fullScreen size marks
  alternateScreen := alternate
  primary := some (fullScreen size marks)
  scrollRegion := some (10000, 65535)
  tabs := List.replicate size.cols true
  modes := fullModes
  shiftOut := true
  shown_fits := fullScreen_fits size marks
  primary_fits := by
    rintro _ ⟨⟩
    exact fullScreen_fits size marks
  region_fits := by
    rintro _ ⟨⟩
    decide
  tabs_fit := List.length_replicate

section

variable (size : ScreenSize) (marks : ℕ)

theorem utf8Len_fullCell {red : UInt8} (h : utf8Len (sgrSequence (fullStyle red)) = 52) :
    utf8Len (sgrSequence (fullCell marks red).style) +
      utf8Len ((fullCell marks red).ch :: (fullCell marks red).zerowidth) = mostCell marks := by
  have hmarks : utf8Len (List.replicate marks (Char.ofNat 0xe0100)) = marks * 4 := by
    induction marks with
    | zero => rfl
    | succ marks ih =>
      have hsize : (Char.ofNat 0xe0100).utf8Size = 4 := by decide
      rw [List.replicate_succ, utf8Len_cons, ih, hsize, Nat.succ_mul]
  have hletter : (Char.ofNat 0x1d400).utf8Size = 4 := by decide
  show utf8Len (sgrSequence (fullStyle red)) + utf8Len (Char.ofNat 0x1d400 :: List.replicate marks _) = _
  rw [h, utf8Len_cons, hmarks, hletter, mostCell, mostSgr]
  omega

theorem fullCell_shown (cell : SnapshotCell) (h : cell = fullCell marks 255 ∨ cell = fullCell marks 254) :
    cell.isBlankDefault = false ∧ cell.spacer = false := by
  have hletter : ¬ Char.ofNat 0x1d400 = ' ' := by decide
  rcases h with rfl | rfl <;> simp [fullCell, SnapshotCell.isBlankDefault, hletter]

theorem utf8Len_fullScreen_cells : utf8Len ((fullScreen size marks).paintCells size.rows size.cols) =
    mostCells size marks := by
  rw [ScreenSnapshot.utf8Len_paintCells, ScreenSnapshot.mostCells_eq (fullScreen_fits size marks)]
  refine congrArg List.sum (List.map_congr_left fun x hx => ?_)
  rw [List.eq_of_mem_replicate (List.of_mem_zip hx).2]
  refine utf8Len_paintRow_turns ?_ (utf8Len_fullCell marks (by decide)) (utf8Len_fullCell marks (by decide))
    (fullCell_shown marks) _ _
  show fullStyle 255 ≠ fullStyle 254
  decide

theorem lastPrinted_fullScreen : ∃ red, utf8Len (sgrSequence (fullStyle red)) = 52 ∧
    (fullScreen size marks).lastPrinted (size.rows - 1) (size.cols - 1) =
      some (size.cols - 1, fullCell marks red) := by
  have hrows : 1 ≤ size.rows := size.rows_least
  have hcols : 1 ≤ size.cols := Nat.le_trans (by decide) size.cols_least
  set cells := turns (fullCell marks 255) (fullCell marks 254) size.cols with hcells
  have hrow : (fullScreen size marks).rows[size.rows - 1]? = some cells :=
    List.getElem?_replicate_of_lt (by omega)
  have hlast : size.cols - 1 < cells.length := by
    rw [hcells, length_turns]
    omega
  have hcell := mem_turns (List.getElem_mem hlast)
  have hprinted : (fullScreen size marks).lastPrinted (size.rows - 1) (size.cols - 1) =
      some (size.cols - 1, cells[size.cols - 1]) := by
    unfold ScreenSnapshot.lastPrinted
    rw [hrow, Option.bind_eq_bind, Option.bind_some, List.getElem?_eq_getElem hlast, Option.bind_eq_bind,
      Option.bind_some, (fullCell_shown marks _ hcell).2]
    rfl
  rcases hcell with hcell | hcell
  · exact ⟨255, by decide, hcell ▸ hprinted⟩
  · exact ⟨254, by decide, hcell ▸ hprinted⟩

/-- The wrap to come is restored by the last cell of the last row. -/
theorem utf8Len_fullScreen_cursor (originTop : ℕ) :
    utf8Len ((fullScreen size marks).placeCursor size.rows size.cols originTop) =
      utf8Len (cursorPosition ((fullScreen size marks).addressed size.rows originTop) size.cols) +
        mostCell marks + 4 := by
  have hcols : 1 ≤ size.cols := Nat.le_trans (by decide) size.cols_least
  obtain ⟨red, hsgr, hlast⟩ := lastPrinted_fullScreen size marks
  have hcell := utf8Len_fullCell marks hsgr
  have hrow : min (fullScreen size marks).cursor.position.1 (size.rows - 1) = size.rows - 1 := Nat.min_self _
  have hwrap : ((fullScreen size marks).cursor.wrapPending &&
      size.cols - 1 ≤ (fullScreen size marks).cursor.position.2) = true :=
    decide_eq_true (Nat.le_refl (size.cols - 1))
  unfold ScreenSnapshot.placeCursor ScreenSnapshot.addressed
  dsimp only
  rw [hrow, if_pos hwrap, hlast]
  dsimp only
  rw [utf8Len_append, utf8Len_append, utf8Len_append, utf8Len_sgrReset, Nat.sub_add_cancel hcols]
  omega

end

theorem pushTabStops_replicate {cols : ℕ} (h : 2 ≤ cols) :
    pushTabStops (List.replicate cols true) = everyTabStop cols := by
  have hchanged : defaultTabs (List.replicate cols true) = false := by
    refine decide_eq_false fun hsame => ?_
    have hsecond := congrArg (·[1]?) hsame
    simp [show 1 < cols from h, tabInterval] at hsecond
  have hcolumns : tabColumns (List.replicate cols true) = List.range cols := by
    have hall : (List.replicate cols true).zipIdx.filter (·.1) = (List.replicate cols true).zipIdx :=
      List.filter_eq_self.2 fun x hx => List.eq_of_mem_replicate (List.fst_mem_of_mem_zipIdx hx)
    rw [tabColumns, hall, List.zipIdx_map_snd, List.length_replicate, List.range_eq_range']
  rw [pushTabStops, hchanged, hcolumns]
  rfl

section

variable (size : ScreenSize) (marks : ℕ)

theorem utf8Len_fullScreen_pen : utf8Len (fullScreen size marks).restorePen = 58 := by
  have hsgr : utf8Len (sgrSequence (fullStyle 255)) = 52 := by decide
  rw [ScreenSnapshot.restorePen, ScreenSnapshot.utf8Len_pushPen]
  exact congrArg (6 + ·) hsgr

theorem utf8Len_fullScreen_saved : utf8Len ((fullScreen size marks).saveCursor size.rows size.cols) =
    utf8Len (cursorPosition size.rows size.cols) + 70 := by
  have hrows : 1 ≤ size.rows := size.rows_least
  have hcols : 1 ≤ size.cols := Nat.le_trans (by decide) size.cols_least
  have hsgr : utf8Len (sgrSequence (fullStyle 255)) = 52 := by decide
  have hrow : min (size.rows - 1) (size.rows - 1) + 1 = size.rows := by omega
  have hcol : min (size.cols - 1) (size.cols - 1) + 1 = size.cols := by omega
  rw [ScreenSnapshot.utf8Len_saveCursor]
  show utf8Len (cursorPosition (min (size.rows - 1) (size.rows - 1) + 1)
    (min (size.cols - 1) (size.cols - 1) + 1)) + utf8Len (sgrSequence (fullStyle 255)) + 18 = _
  rw [hrow, hcol, hsgr]

theorem utf8Len_fullest_primary (alternate : Bool) :
    utf8Len (fullest size marks alternate).pushPrimary = if alternate then
      mostCells size marks + utf8Len (cursorPosition size.rows size.cols) + mostCell marks + 76 else 0 := by
  have hrows : 1 ≤ size.rows := size.rows_least
  have hcorner : (fullScreen size marks).addressed size.rows 0 = size.rows := by
    show min (size.rows - 1) (size.rows - 1) - 0 + 1 = size.rows
    omega
  have hcells := utf8Len_fullScreen_cells size marks
  have hcursor := utf8Len_fullScreen_cursor size marks 0
  have hpen := utf8Len_fullScreen_pen size marks
  have halternate : utf8Len "\x1b[?1049h".toList = 8 := by decide
  rw [hcorner] at hcursor
  cases alternate with
  | false => rfl
  | true =>
    show utf8Len (((fullScreen size marks).paintCells size.rows size.cols ++
      (fullScreen size marks).placeCursor size.rows size.cols 0 ++ (fullScreen size marks).restorePen) ++
        "\x1b[?1049h".toList ++ pushCharsets (.ascii, .ascii)) = _
    simp only [utf8Len_append, ScreenSnapshot.utf8Len_pushCharsets, if_true]
    omega

/-- **The bound is reached.** -/
theorem utf8Len_fullest (alternate : Bool) :
    utf8Len (fullest size marks alternate).repaint = mostRepaint size marks alternate := by
  have hmost : size.rows ≤ 1000 := size.rows_most
  have hregion : utf8Len (fullest size marks alternate).pushScrollRegion = 14 := by
    rw [TerminalState.utf8Len_pushScrollRegion rfl]
    decide
  -- The region is so far down that the cursor's row is the first one counted from its top.
  have hfirst : (fullScreen size marks).addressed size.rows (fullest size marks alternate).originTop = 1 := by
    show min (size.rows - 1) (size.rows - 1) - 9999 + 1 = 1
    omega
  have hcursor := utf8Len_fullScreen_cursor size marks (fullest size marks alternate).originTop
  have hreset : utf8Len "\x1bc".toList = 2 := by decide
  have horigin : utf8Len (pushWhen true "\x1b[?6h") = 5 := by decide
  have hmodes : utf8Len (pushModeSequences fullModes) = 57 := by decide
  have hshift : utf8Len (pushWhen true "\x0e") = 1 := by decide
  rw [hfirst] at hcursor
  rw [TerminalState.utf8Len_repaint, utf8Len_fullest_primary, hregion]
  show _ + utf8Len (pushTabStops (List.replicate size.cols true)) + 14 +
    utf8Len ((fullScreen size marks).paintCells size.rows size.cols) +
    utf8Len ((fullScreen size marks).saveCursor size.rows size.cols) + utf8Len (pushWhen true "\x1b[?6h") +
    utf8Len ((fullScreen size marks).placeCursor size.rows size.cols _) +
    utf8Len (pushModeSequences fullModes) +
    utf8Len (pushWhen true "\x0e") + utf8Len (fullScreen size marks).restorePen = _
  rw [pushTabStops_replicate size.cols_least, utf8Len_fullScreen_cells, utf8Len_fullScreen_saved, hcursor,
    utf8Len_fullScreen_pen, mostRepaint]
  omega

theorem fullest_marks (alternate : Bool) : (fullest size marks alternate).MarksAtMost marks := by
  have hscreen : (fullScreen size marks).MarksAtMost marks := fun row hrow cell hcell => by
    rw [List.eq_of_mem_replicate hrow] at hcell
    rcases mem_turns hcell with rfl | rfl <;> exact Nat.le_of_eq List.length_replicate
  refine ⟨hscreen, ?_⟩
  rintro _ ⟨⟩
  exact hscreen

end

end Muster.Terminal
