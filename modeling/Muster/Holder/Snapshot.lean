import Muster.Holder.Wire
import Muster.Terminal.Keyboard

/-!
# Snapshot — which screens fit in a frame

The holder answers a hello with a snapshot: the repaint of its emulator, then the keyboard flags, in one
frame.  A frame has a maximum; a screen of many cells whose pen changes at each of them has none below
it, so how large a screen may be depends on what its cells hold.
-/

namespace Muster.Holder

open Muster.Terminal Muster.Terminal.Text
open String (utf8Len utf8Len_cons utf8Len_append)

def snapshotOf (terminal : TerminalState) (keyboard : ScreenState)
    (pid attached runStart logEnd : ℕ) : HolderMessage :=
  .snapshot (terminal.repaint.intoBytes ++ (restoreSequence keyboard).intoBytes)
    ⟨terminal.size.rows, terminal.size.cols⟩ pid attached runStart logEnd

/-- The frame is within the maximum, so that it is written, and the other side reads it. -/
def Sent (frame : Frame) : Prop :=
  frame.payload.length ≤ maxFrameBytes ∧
    ∃ wire, writeFrame frame = .ok wire ∧ ∀ rest, readFrame (wire ++ rest) = .ok (frame, rest)

theorem length_snapshotOf (json : JsonBodies) (terminal : TerminalState) (keyboard : ScreenState)
    (pid attached runStart logEnd : ℕ) :
    (Frame.ofMessage json
      (snapshotOf terminal keyboard pid attached runStart logEnd)).payload.length =
      snapshotHeaderBytes + (utf8Len terminal.repaint + utf8Len (restoreSequence keyboard)) := by
  rw [snapshotOf, length_snapshot_payload, List.length_append, length_intoBytes, length_intoBytes]

/-- **Which screens can be sent.**  With at most `marks` zero-width characters in a cell, every content of
a size is sent exactly if the longest repaint of that size leaves room for the header and the keyboard
flags. -/
theorem screen_sent (json : JsonBodies) (size : ScreenSize) (marks : ℕ) (alternate : Bool)
    (pid attached runStart logEnd : ℕ) :
    (∀ (terminal : TerminalState) (keyboard : ScreenState), terminal.size = size →
        terminal.alternateScreen = alternate → terminal.MarksAtMost marks → keyboard.Masked →
        Sent (Frame.ofMessage json (snapshotOf terminal keyboard pid attached runStart logEnd))) ↔
      mostRepaint size marks alternate + mostRestore + snapshotHeaderBytes ≤ maxFrameBytes := by
  refine ⟨fun hsent => ?_, fun hfits terminal keyboard hsize halternate hmarks hmasked => ?_⟩
  · obtain ⟨hpayload, -⟩ := hsent (fullest size marks alternate) fullKeyboard rfl rfl
      (fullest_marks size marks alternate) fullKeyboard_masked
    rw [length_snapshotOf, utf8Len_fullest, utf8Len_restoreSequence fullKeyboard_masked] at hpayload
    have hmost : 5 * fullKeyboard.levels.length = mostRestore := by decide
    omega
  · subst hsize halternate
    have hrepaint := TerminalState.utf8Len_repaint_le hmarks
    have hrestore := utf8Len_restoreSequence_le hmasked
    have hpayload : (Frame.ofMessage json (snapshotOf terminal keyboard pid attached runStart
        logEnd)).payload.length ≤ maxFrameBytes := by
      rw [length_snapshotOf]
      omega
    exact ⟨hpayload, readFrame_writeFrame hpayload⟩

def blankTerminal : TerminalState where
  size := ⟨24, 80, by decide, by decide, by decide, by decide⟩
  shown := { rows := List.replicate 24 (List.replicate 80 { ch := ' ' }) }
  tabs := List.replicate 80 false
  shown_fits := by
    refine ⟨List.length_replicate, fun row hrow => ?_⟩
    rw [List.eq_of_mem_replicate hrow]
    exact List.length_replicate
  primary_fits := by simp
  tabs_fit := List.length_replicate

theorem blankTerminal_marks : blankTerminal.MarksAtMost 0 := by
  refine ⟨fun row hrow cell hcell => ?_, by simp [blankTerminal]⟩
  rw [List.eq_of_mem_replicate hrow] at hcell
  rw [List.eq_of_mem_replicate hcell]
  exact Nat.le_refl 0

def emptyJson : JsonBodies := ⟨fun _ => [], fun _ => [], fun _ => []⟩

theorem screen_sent_blank : Sent (Frame.ofMessage emptyJson (snapshotOf blankTerminal {} 7 0 0 0)) :=
  (screen_sent emptyJson blankTerminal.size 0 false 7 0 0 0).2 (by decide +kernel) blankTerminal {} rfl rfl
    blankTerminal_marks (by decide)

/-! ### A screen that cannot be sent -/

def paletteCell (index : UInt8) : SnapshotCell := { ch := 'x', style := { fg := .indexed index } }

def checkeredTerminal : TerminalState where
  size := ⟨1000, 2000, by decide, by decide, by decide, by decide⟩
  shown := { rows := List.replicate 1000 (turns (paletteCell 1) (paletteCell 2) 2000) }
  primary := none
  tabs := List.replicate 2000 false
  shown_fits := by
    refine ⟨List.length_replicate, fun row hrow => ?_⟩
    rw [List.eq_of_mem_replicate hrow]
    exact length_turns _ _ 2000
  primary_fits := by simp
  tabs_fit := List.length_replicate

theorem le_utf8Len_checkered :
    24000000 ≤ utf8Len (checkeredTerminal.shown.paintCells 1000 2000) := by
  have hcell : ∀ index, index = 1 ∨ index = 2 → utf8Len (sgrSequence (paletteCell index).style) +
      utf8Len ((paletteCell index).ch :: (paletteCell index).zerowidth) = 12 := by
    rintro _ (rfl | rfl) <;> decide
  have hcells : ((List.range 1000).zip checkeredTerminal.shown.rows).length * 24000 ≤
      utf8Len (checkeredTerminal.shown.paintCells 1000 2000) := by
    refine le_utf8Len_flatMap fun x hx => ?_
    show 24000 ≤ utf8Len (paintRow (x.1 + 1) 2000 x.2)
    rw [List.eq_of_mem_replicate (List.of_mem_zip hx).2, utf8Len_paintRow_turns (by decide)
      (hcell 1 (.inl rfl)) (hcell 2 (.inr rfl)) (by rintro _ (rfl | rfl) <;> decide)]
    omega
  rw [List.length_zip, List.length_range, checkeredTerminal.shown_fits.1] at hcells
  exact hcells

/-- **A screen of the largest size cannot be sent** when its pen changes at every cell. -/
theorem checkered_not_sent :
    let frame := Frame.ofMessage emptyJson (snapshotOf checkeredTerminal {} 7 0 0 0)
    maxFrameBytes < frame.payload.length ∧ writeFrame frame = .error .oversizedPayload := by
  have hlength := length_snapshotOf emptyJson checkeredTerminal {} 7 0 0 0
  have hrepaint : 24000000 ≤ utf8Len checkeredTerminal.repaint :=
    Nat.le_trans le_utf8Len_checkered checkeredTerminal.utf8Len_paintCells_le_repaint
  have hmost : maxFrameBytes = 16777216 := rfl
  have hlong : maxFrameBytes <
      (Frame.ofMessage emptyJson (snapshotOf checkeredTerminal {} 7 0 0 0)).payload.length := by
    rw [hlength]
    omega
  exact ⟨hlong, if_neg (Nat.not_le.2 hlong)⟩

end Muster.Holder
