import Mathlib.Tactic.Common
import Muster.Terminal.Renderer

/-!
# Rendering — what a renderer makes of a stream, byte by byte

`rendering` is the VT parser's calls drawn on the line, one byte after another: it does not know of
slices, of pieces or of a bound.  While no more than `maxPendingBytes` bytes in a row dispatch
nothing (`Brisk`), the bounded parser never drops a sequence and the renderer follows it whatever
pieces it is fed (`LogRenderer.Follows.advance`).  While every glyph has room on its line (`roomy`),
nothing but a line feed finishes a line.
-/

namespace Muster.Terminal

open Muster.Log (Bytes lineFeed)

variable {σ : Type} (vt : VtParser σ) (u : Unicode)

def rendering : Transducer UInt8 LogLine (σ × Line) := vt.comp (Line.performing u)

namespace VtParser

/-- How many bytes in a row dispatched nothing, after one more byte. -/
def quietStep (s : σ) (quiet : ℕ) (b : UInt8) : ℕ := if (vt.step s b).2.isEmpty then quiet + 1 else 0

def quietAfter : σ → ℕ → Bytes → ℕ
  | _, quiet, [] => quiet
  | s, quiet, b :: bytes => quietAfter (vt.step s b).1 (vt.quietStep s quiet b) bytes

/-- Never more than `maxPendingBytes` bytes in a row dispatch nothing. -/
def Brisk : σ → ℕ → Bytes → Prop
  | _, _, [] => True
  | s, quiet, b :: bytes =>
    vt.quietStep s quiet b ≤ maxPendingBytes ∧ Brisk (vt.step s b).1 (vt.quietStep s quiet b) bytes

instance Brisk.instDecidable : ∀ s quiet bytes, Decidable (vt.Brisk s quiet bytes)
  | _, _, [] => .isTrue trivial
  | s, quiet, b :: bytes =>
    have := Brisk.instDecidable (vt.step s b).1 (vt.quietStep s quiet b) bytes
    inferInstanceAs (Decidable (_ ∧ _))

theorem quietAfter_append (s : σ) (quiet : ℕ) (xs ys : Bytes) :
    vt.quietAfter s quiet (xs ++ ys) = vt.quietAfter (vt.run s xs).1 (vt.quietAfter s quiet xs) ys := by
  induction xs generalizing s quiet with
  | nil => rfl
  | cons b xs ih => exact ih _ _

variable {vt} {s : σ} {quiet : ℕ} {xs : Bytes}

theorem brisk_append {ys : Bytes} : vt.Brisk s quiet (xs ++ ys) ↔
    vt.Brisk s quiet xs ∧ vt.Brisk (vt.run s xs).1 (vt.quietAfter s quiet xs) ys := by
  induction xs generalizing s quiet with
  | nil => exact (and_iff_right trivial).symm
  | cons b xs ih =>
    rw [List.cons_append, Brisk, Brisk, ih, and_assoc]
    rfl

theorem quietAfter_of_nil (h : (vt.run s xs).2 = []) :
    vt.quietAfter s quiet xs = quiet + xs.length := by
  induction xs generalizing s quiet with
  | nil => rfl
  | cons b xs ih =>
    rw [Transducer.run_cons] at h
    obtain ⟨hb, hxs⟩ := List.append_eq_nil_iff.1 h
    rw [quietAfter, ih hxs, quietStep, if_pos (by rw [hb]; rfl), List.length_cons]
    omega

theorem Brisk.quietAfter_le (h : vt.Brisk s quiet xs) (hquiet : quiet ≤ maxPendingBytes) :
    vt.quietAfter s quiet xs ≤ maxPendingBytes := by
  induction xs generalizing s quiet with
  | nil => exact hquiet
  | cons b xs ih => exact ih h.2 h.1

end VtParser

/-! ### The bounded parser within its bound -/

namespace BoundedParser

/-- The bounded parser is where the plain one is, and counts no more quiet bytes than there were. -/
structure Follows (b : BoundedParser σ) (s : σ) (quiet : ℕ) : Prop where
  parser : b.parser = s
  pending : b.pending ≤ quiet
  dropping : b.dropping = false

variable {vt} {b : BoundedParser σ} {s : σ} {quiet : ℕ} {bytes : Bytes}

theorem sliceEnd_pos (h : bytes ≠ []) : 0 < sliceEnd bytes := by
  have := List.length_pos_iff.2 h
  unfold sliceEnd charEnd sliceBytes
  omega

theorem Follows.feed (h : b.Follows s quiet) (hquiet : quiet ≤ maxPendingBytes) {slice : Bytes}
    (hbrisk : vt.Brisk s quiet slice) :
    (b.feed vt slice).1.Follows (vt.run s slice).1 (vt.quietAfter s quiet slice) ∧
      (b.feed vt slice).2 = (vt.run s slice).2 := by
  obtain ⟨rfl, hpending, hdropping⟩ := h
  have hcount : (if (vt.run b.parser slice).2.isEmpty then b.pending + slice.length else 0) ≤
      vt.quietAfter b.parser quiet slice := by
    split
    · next hnil =>
      rw [VtParser.quietAfter_of_nil (List.isEmpty_iff.1 hnil)]
      omega
    · exact Nat.zero_le _
  have hfits := Nat.le_trans hcount (hbrisk.quietAfter_le hquiet)
  rw [BoundedParser.feed]
  dsimp only
  rw [if_pos hfits]
  exact ⟨⟨rfl, hcount, hdropping⟩, rfl⟩

/-- Slice by slice, the bounded parser goes through a brisk stream as the plain one does. -/
theorem Follows.advanceLoop {fuel : ℕ} (h : b.Follows s quiet)
    (hquiet : quiet ≤ maxPendingBytes) (hbrisk : vt.Brisk s quiet bytes) (hfuel : bytes.length ≤ fuel) :
    (b.advanceLoop vt fuel bytes).1.Follows (vt.run s bytes).1 (vt.quietAfter s quiet bytes) ∧
      (b.advanceLoop vt fuel bytes).2 = (vt.run s bytes).2 := by
  induction fuel generalizing b s quiet bytes with
  | zero =>
    obtain rfl : bytes = [] := List.length_eq_zero_iff.1 (by omega)
    exact ⟨h, rfl⟩
  | succ fuel ih =>
    rw [BoundedParser.advanceLoop]
    by_cases hnil : bytes = []
    · subst hnil
      exact ⟨h, rfl⟩
    rw [if_neg hnil, if_neg (by rw [h.dropping]; decide)]
    have hpos := sliceEnd_pos hnil
    -- the first slice and the rest, in which the induction goes on
    obtain ⟨hslice, hrest⟩ : vt.Brisk s quiet (bytes.take (sliceEnd bytes)) ∧
        vt.Brisk (vt.run s (bytes.take (sliceEnd bytes))).1
          (vt.quietAfter s quiet (bytes.take (sliceEnd bytes))) (bytes.drop (sliceEnd bytes)) := by
      rw [← VtParser.brisk_append, List.take_append_drop]
      exact hbrisk
    obtain ⟨hfed, hcalls⟩ := h.feed hquiet hslice
    obtain ⟨hend, hmore⟩ := ih hfed (hslice.quietAfter_le hquiet) hrest (by
      rw [List.length_drop]
      omega)
    have hrun := vt.run_append s (bytes.take (sliceEnd bytes)) (bytes.drop (sliceEnd bytes))
    have hcount := vt.quietAfter_append s quiet (bytes.take (sliceEnd bytes))
      (bytes.drop (sliceEnd bytes))
    rw [List.take_append_drop] at hrun hcount
    rw [hrun, hcount]
    refine ⟨hend, ?_⟩
    dsimp only
    rw [hcalls, hmore]

theorem Follows.advance (h : b.Follows s quiet) (hquiet : quiet ≤ maxPendingBytes)
    (hbrisk : vt.Brisk s quiet bytes) :
    (b.advance vt bytes).1.Follows (vt.run s bytes).1 (vt.quietAfter s quiet bytes) ∧
      (b.advance vt bytes).2 = (vt.run s bytes).2 :=
  h.advanceLoop hquiet hbrisk (by omega)

end BoundedParser

namespace LogRenderer

/-- The renderer's parser and line are where the rendering is. -/
structure Follows (r : LogRenderer σ) (s : σ × Line) (quiet : ℕ) : Prop where
  parser : r.parser.Follows s.1 quiet
  line : r.drawing.line = s.2

variable {vt u} {r : LogRenderer σ} {s : σ × Line} {quiet : ℕ}

theorem new_follows : (new vt).Follows (vt.init, {}) 0 := ⟨⟨rfl, Nat.le_refl 0, rfl⟩, rfl⟩

theorem Follows.advanceLine {bytes : Bytes} (h : r.Follows s quiet) (hquiet : quiet ≤ maxPendingBytes)
    (hbrisk : vt.Brisk s.1 quiet bytes) :
    (r.advanceLine vt u bytes).Follows ((rendering vt u).run s bytes).1 (vt.quietAfter s.1 quiet bytes) ∧
      (r.advanceLine vt u bytes).drawing.finished =
        r.drawing.finished ++ ((rendering vt u).run s bytes).2 := by
  obtain ⟨hparser, hline⟩ := h
  obtain ⟨hend, hcalls⟩ := hparser.advance hquiet hbrisk
  rw [rendering, Transducer.comp_run]
  unfold LogRenderer.advanceLine LineDrawing.performs
  dsimp only
  rw [hcalls, hline]
  exact ⟨⟨hend, rfl⟩, rfl⟩

theorem Follows.advanceLines {pieces : List Bytes} (h : r.Follows s quiet)
    (hquiet : quiet ≤ maxPendingBytes) (hbrisk : vt.Brisk s.1 quiet pieces.flatten) :
    (pieces.foldl (LogRenderer.advanceLine vt u) r).Follows ((rendering vt u).run s pieces.flatten).1
        (vt.quietAfter s.1 quiet pieces.flatten) ∧
      (pieces.foldl (LogRenderer.advanceLine vt u) r).drawing.finished =
        r.drawing.finished ++ ((rendering vt u).run s pieces.flatten).2 := by
  induction pieces generalizing r s quiet with
  | nil => exact ⟨h, (List.append_nil _).symm⟩
  | cons piece pieces ih =>
    rw [List.flatten_cons] at hbrisk ⊢
    obtain ⟨hpiece, hrest⟩ := VtParser.brisk_append.1 hbrisk
    obtain ⟨hfollows, hfinished⟩ := h.advanceLine (u := u) hquiet hpiece
    have hstate : ((rendering vt u).run s piece).1.1 = (vt.run s.1 piece).1 := by
      rw [rendering, Transducer.comp_run]
    rw [← hstate] at hrest
    obtain ⟨hend, hmore⟩ := ih hfollows (hpiece.quietAfter_le hquiet) hrest
    rw [List.foldl_cons, Transducer.run_append, VtParser.quietAfter_append, ← hstate]
    refine ⟨hend, ?_⟩
    rw [hmore, hfinished, List.append_assoc]

/-- Whatever pieces it is fed, the renderer follows the rendering of a brisk stream. -/
theorem Follows.advance {bytes : Bytes} (h : r.Follows s quiet) (hquiet : quiet ≤ maxPendingBytes)
    (hbrisk : vt.Brisk s.1 quiet bytes) :
    (r.advance vt u bytes).Follows ((rendering vt u).run s bytes).1 (vt.quietAfter s.1 quiet bytes) ∧
      (r.advance vt u bytes).drawing.finished =
        r.drawing.finished ++ ((rendering vt u).run s bytes).2 := by
  have hpieces := splitInclusive_flatten (· == lineFeed) bytes
  have := h.advanceLines (u := u) hquiet (hpieces.symm ▸ hbrisk)
  rwa [hpieces] at this

end LogRenderer

/-! ### Lines with room for what is drawn on them -/

namespace Line

/-- Whether a glyph `width` columns wide has room at the cursor. -/
def fits (l : Line) (width : ℕ) : Bool := l.cursor + width ≤ maxLineCells

def charFits (l : Line) (character : Char) : Bool :=
  match u.width character with
  | some 0 => true
  | some width => l.fits width
  | none => true

def charsFit : Line → List Char → Bool
  | _, [] => true
  | l, c :: cs => l.charFits u c && charsFit (l.printChar u c).1 cs

/-- Whether what a call draws has room on the line: no glyph reaches past `maxLineCells` columns. -/
def roomFor (l : Line) : Call → Bool
  | .print c =>
    l.detached ||
      if isAscii c then isAsciiControl c || l.fits 1
      else isControl c ||
        if u.steersTheTerminal c then l.charsFit u (escapeDefault c) else l.charFits u c
  | .execute byte =>
    byte != tabByte || l.detached || decide (l.cursor < l.cells.length) ||
      l.fits ((l.cursor / tabStop + 1) * tabStop - l.cursor)
  | _ => true

def roomy : Line → List Call → Bool
  | _, [] => true
  | l, call :: calls => l.roomFor u call && roomy (l.perform u call).1 calls

variable {u} {l : Line}

theorem roomy_append {xs ys : List Call} : l.roomy u (xs ++ ys) =
    (l.roomy u xs && ((performing u).run l xs).1.roomy u ys) := by
  induction xs generalizing l with
  | nil => rfl
  | cons call xs ih =>
    rw [List.cons_append, roomy, roomy, ih, Bool.and_assoc]
    rfl

theorem draw_of_fits {c : Char} {width : ℕ} (h : l.fits width) : (l.draw c width).2 = [] := by
  have : l.cursor + width ≤ maxLineCells := by simpa [fits] using h
  rw [draw, if_neg (by omega)]

theorem printChar_of_fits {c : Char} (h : l.charFits u c) : (l.printChar u c).2 = [] := by
  unfold charFits at h
  unfold printChar
  split
  · rfl
  · next width hne hwidth =>
    rw [hwidth] at h
    cases width with
    | zero => exact absurd rfl hne
    | succ width => exact draw_of_fits h
  · rfl

theorem printing_of_fits {cs : List Char} (h : l.charsFit u cs) : ((printing u).run l cs).2 = [] := by
  induction cs generalizing l with
  | nil => rfl
  | cons c cs ih =>
    rw [charsFit, Bool.and_eq_true] at h
    rw [Transducer.run_cons]
    exact List.append_eq_nil_iff.2 ⟨printChar_of_fits h.1, ih h.2⟩

theorem print_of_room {c : Char} (h : l.roomFor u (.print c)) : (l.print u c).2 = [] := by
  rw [roomFor] at h
  unfold print
  split
  · rfl
  · next hon =>
    rw [Bool.eq_false_of_not_eq_true hon, Bool.false_or] at h
    split
    · next hascii =>
      rw [if_pos hascii] at h
      split
      · rfl
      · next hprintable =>
        rw [Bool.eq_false_of_not_eq_true hprintable, Bool.false_or] at h
        exact draw_of_fits h
    · next hascii =>
      rw [if_neg hascii] at h
      split
      · rfl
      · next hcontrol =>
        rw [Bool.eq_false_of_not_eq_true hcontrol, Bool.false_or] at h
        split
        · next hsteers =>
          rw [if_pos hsteers] at h
          exact printing_of_fits h
        · next hsteers =>
          rw [if_neg hsteers] at h
          exact printChar_of_fits h

theorem execute_of_room {byte : UInt8} (h : l.roomFor u (.execute byte)) (hne : byte ≠ lineFeed) :
    (l.execute byte).2 = [] := by
  unfold execute
  rw [if_neg hne]
  split
  · rfl
  · next hon =>
    split
    · rfl
    split
    · rfl
    split
    · next htab =>
      unfold tab
      dsimp only
      split
      · next hpast =>
        refine draw_of_fits ?_
        simpa [roomFor, htab, hon, Nat.not_lt.2 hpast] using h
      · rfl
    · rfl

/-- **Only a line feed finishes a line** while what is drawn has room. -/
theorem perform_of_room {call : Call} (h : l.roomFor u call) (hne : call ≠ .execute lineFeed) :
    (l.perform u call).2 = [] := by
  cases call with
  | print c => exact print_of_room h
  | execute byte => exact execute_of_room h fun hbyte => hne (by rw [hbyte])
  | _ => rfl

theorem performing_of_room {calls : List Call} (h : l.roomy u calls)
    (hne : Call.execute lineFeed ∉ calls) : ((performing u).run l calls).2 = [] := by
  induction calls generalizing l with
  | nil => rfl
  | cons call calls ih =>
    rw [roomy, Bool.and_eq_true] at h
    rw [Transducer.run_cons]
    refine List.append_eq_nil_iff.2 ⟨perform_of_room h.1 ?_, ih h.2 ?_⟩
    · rintro rfl
      exact hne List.mem_cons_self
    · exact fun hmem => hne (List.mem_cons_of_mem _ hmem)

/-! What is drawn never counts as shown: only a line handed out in part does. -/

@[simp] theorem touch_shown (column : ℕ) : (l.touch column).shown = l.shown := by
  unfold touch
  split <;> rfl

@[simp] theorem breakGlyph_shown (column : ℕ) : (l.breakGlyph column).shown = l.shown := by
  unfold breakGlyph
  split
  · rfl
  split
  · rfl
  dsimp only
  split
  · rfl
  · exact touch_shown _

theorem foldl_breakGlyph_shown (columns : List ℕ) :
    (columns.foldl breakGlyph l).shown = l.shown := by
  induction columns generalizing l with
  | nil => rfl
  | cons column columns ih => rw [List.foldl_cons, ih, breakGlyph_shown]

@[simp] theorem place_shown (c : Char) (width : ℕ) : (l.place c width).shown = l.shown := by
  unfold place
  dsimp only
  rw [touch_shown]
  exact foldl_breakGlyph_shown _

@[simp] theorem mark_shown (c : Char) : (l.mark c).shown = l.shown := by
  unfold mark
  split
  · rfl
  split
  · rfl
  · exact touch_shown _

@[simp] theorem eraseToCursor_shown : l.eraseToCursor.shown = l.shown := by
  unfold eraseToCursor
  dsimp only
  split
  · rfl
  rw [touch_shown]
  dsimp only
  split <;> rfl

@[simp] theorem erase_shown (mode : ℕ) : (l.erase mode).shown = l.shown := by
  unfold erase
  split
  · dsimp only
    split
    · rw [touch_shown]
      exact breakGlyph_shown _
    · rfl
  split
  · exact eraseToCursor_shown
  split
  · exact touch_shown _
  · rfl

@[simp] theorem restore_shown : l.restore.shown = l.shown := by
  unfold restore
  split <;> rfl

@[simp] theorem forward_shown (count : ℕ) : (l.forward count).shown = l.shown := by
  unfold forward
  split <;> rfl

theorem ite_shown {p : Prop} [Decidable p] {a b : Line} {n : ℕ} (ha : a.shown = n)
    (hb : b.shown = n) : (if p then a else b).shown = n := by
  split
  · exact ha
  · exact hb

@[simp] theorem steer_shown (params : Params) (action : Char) :
    (l.steer params action).shown = l.shown := by
  unfold steer
  refine ite_shown rfl (ite_shown restore_shown (ite_shown rfl ?_))
  refine ite_shown (erase_shown _) (ite_shown rfl (ite_shown (forward_shown _) ?_))
  exact ite_shown rfl (ite_shown rfl (ite_shown rfl (ite_shown rfl (ite_shown rfl rfl))))

theorem closeLine_shown (fed : Bool) : (l.closeLine fed).1.shown = 0 := rfl

theorem draw_shown (h : l.shown = 0) (c : Char) (width : ℕ) : (l.draw c width).1.shown = 0 := by
  unfold draw
  split
  · exact place_shown c width
  · exact (place_shown c width).trans h

theorem printChar_shown (h : l.shown = 0) (c : Char) : (l.printChar u c).1.shown = 0 := by
  unfold printChar
  split
  · exact (mark_shown c).trans h
  · exact draw_shown h c _
  · exact h

theorem printing_shown (h : l.shown = 0) (cs : List Char) : ((printing u).run l cs).1.shown = 0 := by
  induction cs generalizing l with
  | nil => exact h
  | cons c cs ih => exact ih (printChar_shown h c)

theorem perform_shown (h : l.shown = 0) (call : Call) : (l.perform u call).1.shown = 0 := by
  cases call with
  | print c =>
    unfold perform print
    dsimp only
    repeat' split
    all_goals first
      | exact h | exact draw_shown h c 1 | exact printing_shown h _ | exact printChar_shown h c
  | execute byte =>
    unfold perform execute tab
    dsimp only
    repeat' split
    all_goals first | exact h | rfl | exact draw_shown h _ _
  | csiDispatch params intermediates ignore action =>
    unfold perform csiDispatch pushPen popPen
    dsimp only
    repeat' split
    all_goals first | exact h | exact (steer_shown _ _).trans h
  | escDispatch intermediates ignore byte =>
    unfold perform escDispatch
    dsimp only
    repeat' split
    all_goals first | exact h | rfl | exact restore_shown.trans h
  | _ => exact h

theorem performing_shown (h : l.shown = 0) (calls : List Call) :
    ((performing u).run l calls).1.shown = 0 := by
  induction calls generalizing l with
  | nil => exact h
  | cons call calls ih => exact ih (perform_shown h call)

theorem closeLine_false_eq_peek (h : l.shown = 0) :
    (l.closeLine false).2 = (LineDrawing.peek ⟨l, []⟩).toList := by
  unfold closeLine LineDrawing.peek
  dsimp only
  rw [if_pos h]
  cases l.snapshot.isBlank <;> rfl

end Line

/-- A stream that draws every glyph in its line and never goes quiet for too long. -/
structure Tame (s : σ × Line) (quiet : ℕ) (bytes : Bytes) : Prop where
  brisk : vt.Brisk s.1 quiet bytes
  room : s.2.roomy u (vt.run s.1 bytes).2

variable {vt u} {s : σ × Line}

theorem rendering_run_fst (s : σ × Line) (bytes : Bytes) :
    ((rendering vt u).run s bytes).1 =
      ((vt.run s.1 bytes).1, ((Line.performing u).run s.2 (vt.run s.1 bytes).2).1) := by
  rw [rendering, Transducer.comp_run]

theorem tame_append {quiet : ℕ} {xs ys : Bytes} : Tame vt u s quiet (xs ++ ys) ↔
    Tame vt u s quiet xs ∧
      Tame vt u ((rendering vt u).run s xs).1 (vt.quietAfter s.1 quiet xs) ys := by
  have hroom : s.2.roomy u (vt.run s.1 (xs ++ ys)).2 =
      (s.2.roomy u (vt.run s.1 xs).2 && ((rendering vt u).run s xs).1.2.roomy u
        (vt.run ((rendering vt u).run s xs).1.1 ys).2) := by
    rw [Transducer.run_append, Line.roomy_append, rendering_run_fst]
  constructor
  · rintro ⟨hbrisk, hall⟩
    obtain ⟨hxs, hys⟩ := VtParser.brisk_append.1 hbrisk
    rw [hroom, Bool.and_eq_true] at hall
    exact ⟨⟨hxs, hall.1⟩, ⟨by rw [rendering_run_fst]; exact hys, hall.2⟩⟩
  · rintro ⟨⟨hxs, hx⟩, ⟨hys, hy⟩⟩
    rw [rendering_run_fst] at hys
    exact ⟨VtParser.brisk_append.2 ⟨hxs, hys⟩, by rw [hroom, hx, hy]; rfl⟩

theorem Tame.of_isPrefix {quiet : ℕ} {xs ys : Bytes} (h : Tame vt u s quiet ys)
    (hxs : xs <+: ys) : Tame vt u s quiet xs := by
  obtain ⟨rest, rfl⟩ := hxs
  exact (tame_append.1 h).1

/-! ### Lines and where they began -/

/-- Where the rendering stands: its state, where the raw line in progress began, and where the next
byte sits. -/
structure Placing (σ : Type) where
  state : σ × Line
  lineAt : ℕ
  next : ℕ

def Placing.new (vt : VtParser σ) (start : ℕ) : Placing σ := ⟨(vt.init, {}), start, start⟩

/-- The line being drawn, unless it is blank, with where its raw line began. -/
def Placing.unfinished (p : Placing σ) : List (ℕ × LogLine) :=
  (LineDrawing.peek ⟨p.state.2, []⟩).toList.map (p.lineAt, ·)

variable (vt u) in
/-- Each line a stream finishes with where the raw line it ended on began. -/
def placing : Transducer UInt8 (ℕ × LogLine) (Placing σ) where
  step := fun p b =>
    let (state, lines) := (rendering vt u).step p.state b
    (⟨state, if b = lineFeed then p.next + 1 else p.lineAt, p.next + 1⟩, lines.map (p.lineAt, ·))

variable {p : Placing σ} {body : Bytes}

theorem placing_state (bytes : Bytes) :
    ((placing vt u).run p bytes).1.state = ((rendering vt u).run p.state bytes).1 := by
  induction bytes generalizing p with
  | nil => rfl
  | cons b bytes ih =>
    rw [Transducer.run_cons, ih, Transducer.run_cons]
    rfl

theorem placing_next (bytes : Bytes) :
    ((placing vt u).run p bytes).1.next = p.next + bytes.length := by
  induction bytes generalizing p with
  | nil => rfl
  | cons b bytes ih =>
    rw [Transducer.run_cons, ih, List.length_cons]
    simp only [placing]
    omega

theorem placing_body (h : lineFeed ∉ body) : (placing vt u).run p body =
      (⟨((rendering vt u).run p.state body).1, p.lineAt, p.next + body.length⟩,
        ((rendering vt u).run p.state body).2.map (p.lineAt, ·)) := by
  induction body generalizing p with
  | nil => rfl
  | cons b body ih =>
    have hb : b ≠ lineFeed := fun hb => h (hb ▸ List.mem_cons_self)
    rw [Transducer.run_cons, ih fun hmem => h (List.mem_cons_of_mem _ hmem), Transducer.run_cons]
    simp only [placing, if_neg hb, List.length_cons, List.map_append, Prod.mk.injEq,
      Placing.mk.injEq, true_and, and_true]
    omega

theorem placing_line (h : lineFeed ∉ body) : (placing vt u).run p (body ++ [lineFeed]) =
      (⟨((rendering vt u).run p.state (body ++ [lineFeed])).1, p.next + (body.length + 1),
          p.next + (body.length + 1)⟩,
        ((rendering vt u).run p.state (body ++ [lineFeed])).2.map (p.lineAt, ·)) := by
  rw [Transducer.run_append, placing_body h, Transducer.run_append, Transducer.run_singleton,
    Transducer.run_singleton]
  simp only [placing, if_true, List.map_append, Prod.mk.injEq, Placing.mk.injEq, true_and, and_true]
  omega

theorem Tame.quiet {quiet : ℕ} (htame : Tame vt u s quiet body)
    (h : lineFeed ∉ body) : ((rendering vt u).run s body).2 = [] := by
  rw [rendering, Transducer.comp_run]
  refine Line.performing_of_room htame.room fun hmem => ?_
  -- a line feed among the calls would come from a line feed among the bytes
  clear htame
  obtain ⟨s, l⟩ := s
  induction body generalizing s with
  | nil => exact absurd hmem List.not_mem_nil
  | cons b body ih =>
    rw [Transducer.run_cons] at hmem
    rcases List.mem_append.1 hmem with hmem | hmem
    · exact h (vt.lineFeed_of_execute s b hmem ▸ List.mem_cons_self)
    · exact ih (fun hb => h (List.mem_cons_of_mem _ hb)) _ hmem

end Muster.Terminal
