import Mathlib.Algebra.Order.BigOperators.Group.List
import Muster.Holder.NewestStart
import Muster.Service.OutputTap

/-!
# TapRing — how much a tap keeps

The ring drops its oldest lines while the texts it holds take more than `tapRingBytes`, so the bytes
are bounded whatever is written.  A blank line takes no byte: a process that writes line feeds alone
grows the ring by one line with each, and no number bounds it.  Every other line takes a byte, so the
lines are bounded as far as the blank ones that come in a row are, and no further.
-/

namespace Muster.Service

open Muster.Log
open Muster.Terminal
open Muster.Holder (byteParser singleWidth)

def lineBytes (lines : List TapLine) : ℕ := (lines.map fun line => textBytes line.text).sum

def AllBlank (lines : List TapLine) : Prop := ∀ line ∈ lines, line.text = []

/-- No more than `k` blank lines come in a row. -/
def Sparse (k : ℕ) (lines : List TapLine) : Prop :=
  ∀ blanks, blanks <:+: lines → AllBlank blanks → blanks.length ≤ k

theorem lineBytes_cons (line : TapLine) (lines : List TapLine) :
    lineBytes (line :: lines) = textBytes line.text + lineBytes lines := List.sum_cons

theorem lineBytes_concat (lines : List TapLine) (line : TapLine) :
    lineBytes (lines ++ [line]) = lineBytes lines + textBytes line.text := by
  simp [lineBytes]

theorem Sparse.of_infix {k : ℕ} {lines part : List TapLine} (h : Sparse k lines) (hpart : part <:+: lines) :
    Sparse k part := fun blanks hblanks => h blanks (hblanks.trans hpart)

theorem Sparse.length_le {k : ℕ} {lead lines : List TapLine} (h : Sparse k (lead ++ lines))
    (hlead : AllBlank lead) : lead.length + lines.length ≤ (k + 1) * lineBytes lines + k := by
  have hfew := h lead (List.prefix_append lead lines).isInfix hlead
  -- The induction carries the blank lines before those that are left.
  induction lines generalizing lead with
  | nil =>
    rw [List.length_nil]
    omega
  | cons line lines ih =>
    rw [lineBytes_cons, List.length_cons]
    rw [List.append_cons] at h
    cases htext : line.text with
    | nil =>
      have hblank : AllBlank (lead ++ [line]) :=
        List.forall_mem_append.2 ⟨hlead, List.forall_mem_singleton.2 htext⟩
      have hle := ih h hblank (h _ (List.prefix_append _ _).isInfix hblank)
      rw [List.length_append, List.length_singleton] at hle
      have hbytes : textBytes [] + lineBytes lines = lineBytes lines := Nat.zero_add _
      rw [hbytes]
      omega
    | cons c text =>
      have hrest : Sparse k ([] ++ lines) := h.of_infix (List.suffix_append _ _).isInfix
      have hle := ih hrest (fun _ => nofun) (Nat.zero_le _)
      have hbyte : 1 ≤ textBytes (c :: text) := Nat.le_trans (Char.utf8Size_pos c) (Nat.le_add_right _ _)
      have hmul := Nat.mul_le_mul_left (k + 1) (Nat.add_le_add_right hbyte (lineBytes lines))
      rw [Nat.mul_add, Nat.mul_one] at hmul
      rw [List.length_nil] at hle
      omega

/-- The calls that may change a tap. -/
inductive TapCall where
  | seedAt (start : ℕ) (bytes : Bytes)
  | beginRun
  | beginRunAt (start : ℕ)
  | feed (start : Option ℕ) (bytes : Bytes)
  | feedUnlogged (bytes : Bytes)
  | unfinishedForPattern (now : ℕ)
  | unfinishedDue (now : ℕ)

namespace OutputTap

variable {σ : Type} (vt : VtParser σ) (u : Unicode)

def take (t : OutputTap σ) : TapCall → OutputTap σ
  | .seedAt start bytes => t.seedAt vt u start bytes
  | .beginRun => t.beginRun vt
  | .beginRunAt start => t.beginRunAt vt start
  | .feed start bytes => (t.feed vt u start bytes).1
  | .feedUnlogged bytes => (t.feedUnlogged vt u bytes).1
  | .unfinishedForPattern now => (t.unfinishedForPattern now).1
  | .unfinishedDue now => (t.unfinishedDue now).1

/-- The line being written, as a gap ends it. -/
def cutLine (t : OutputTap σ) : List TapLine := { t with renderer := t.renderer.finish }.keepFinished.2

/-- The lines the rendering ends over one chunk, with the one a gap before it ends. -/
def feedLines (t : OutputTap σ) (start : Option ℕ) (bytes : Bytes) : List TapLine :=
  (match start with
    | some start => if t.cursor < start then t.cutLine else []
    | none => []) ++ (t.feed vt u start bytes).2

def lines (t : OutputTap σ) : TapCall → List TapLine
  | .seedAt start bytes =>
    if t.cursor ≤ start then
      t.cutLine ++ feedLines vt u { t.finishLine with renderer := .new vt start, partialAt := start }
        (some start) bytes
    else t.feedLines vt u (some start) bytes
  | .beginRun => { t with renderer := t.renderer.restart vt }.keepFinished.2
  | .beginRunAt start => if t.runStart = some start then [] else if t.cursor ≤ start then t.cutLine else []
  | .feed start bytes => t.feedLines vt u start bytes
  | .feedUnlogged _ | .unfinishedForPattern _ | .unfinishedDue _ => []

/-- A tap takes one call after another, any of them at any time. -/
def taking : Transducer TapCall TapLine (OutputTap σ) := ⟨fun t call => (t.take vt u call, t.lines vt u call)⟩

/-- What the ring is after the lines that ended so far: the newest of them, with the blank ones at their
end, counted right and within the bound. -/
structure Kept (t : OutputTap σ) (ended : List TapLine) : Prop where
  counted : t.ringBytes = lineBytes t.ring
  bounded : t.ringBytes ≤ tapRingBytes
  newest : t.ring <:+ ended
  blanks : ∀ blanks, blanks <:+ ended → AllBlank blanks → blanks <:+ t.ring

variable {vt u} {t : OutputTap σ} {ended : List TapLine}

theorem trim_spec {ring : List TapLine} {bytes : ℕ} (h : bytes = lineBytes ring) :
    (trim ring bytes).2 = lineBytes (trim ring bytes).1 ∧ (trim ring bytes).2 ≤ tapRingBytes ∧
      (trim ring bytes).1 <:+ ring := by
  induction ring generalizing bytes with
  | nil =>
    subst h
    exact ⟨rfl, Nat.zero_le _, List.suffix_refl _⟩
  | cons line ring ih =>
    rw [trim]
    by_cases hfull : tapRingBytes < bytes
    · rw [if_pos hfull]
      obtain ⟨hcounted, hbounded, hnewest⟩ := ih (show bytes - textBytes line.text = lineBytes ring by
        rw [h, lineBytes_cons]
        omega)
      exact ⟨hcounted, hbounded, hnewest.trans (List.suffix_cons line ring)⟩
    · rw [if_neg hfull]
      exact ⟨h, by omega, List.suffix_refl _⟩

theorem trim_of_le {ring : List TapLine} {bytes : ℕ} (h : bytes ≤ tapRingBytes) :
    trim ring bytes = (ring, bytes) := by
  cases ring with
  | nil => rfl
  | cons line ring => rw [trim, if_neg (by omega)]

namespace Kept

theorem new (start : ℕ) : (OutputTap.new vt start).Kept [] :=
  ⟨rfl, Nat.zero_le _, List.suffix_refl _, fun _ hblanks _ => hblanks⟩

theorem congr (h : t.Kept ended) {t' : OutputTap σ} (hring : t'.ring = t.ring)
    (hbytes : t'.ringBytes = t.ringBytes) : t'.Kept ended :=
  ⟨by rw [hring, hbytes, h.counted], hbytes ▸ h.bounded, hring ▸ h.newest, hring ▸ h.blanks⟩

theorem keep (h : t.Kept ended) (line : TapLine) : (t.keep line).Kept (ended ++ [line]) := by
  obtain ⟨hcounted, hbounded, hnewest⟩ :=
    trim_spec (show t.ringBytes + textBytes line.text = lineBytes (t.ring ++ [line]) by
      rw [lineBytes_concat, h.counted])
  refine ⟨hcounted, hbounded, hnewest.trans ?_, fun blanks hblanks hall => ?_⟩
  · obtain ⟨older, rfl⟩ := h.newest
    exact ⟨older, (List.append_assoc ..).symm⟩
  · rcases List.suffix_concat_iff.1 hblanks with rfl | ⟨before, rfl, hbefore⟩
    · exact List.nil_suffix
    · -- A blank line adds nothing to what the ring counts, so that nothing is dropped for it.
      have hline : line.text = [] := hall line (List.mem_append_right _ (List.mem_singleton_self line))
      have hnone : (t.keep line).ring = t.ring ++ [line] := by
        have hle : t.ringBytes + textBytes line.text ≤ tapRingBytes := by
          rw [hline]
          exact h.bounded
        rw [OutputTap.keep, trim_of_le hle]
      obtain ⟨older, hring⟩ := h.blanks before hbefore fun line hline =>
        hall line (List.mem_append_left _ hline)
      rw [hnone, ← hring]
      exact ⟨older, (List.append_assoc ..).symm⟩

theorem foldl_keep (h : t.Kept ended) (lines : List TapLine) :
    (lines.foldl OutputTap.keep t).Kept (ended ++ lines) := by
  induction lines generalizing t ended with
  | nil => rwa [List.append_nil]
  | cons line lines ih =>
    rw [List.append_cons]
    exact ih (h.keep line)

theorem keepFinished (h : t.Kept ended) : t.keepFinished.1.Kept (ended ++ t.keepFinished.2) :=
  foldl_keep (t := { t with renderer := t.renderer.takeLines.2 }) (h.congr rfl rfl) _

theorem finishLine (h : t.Kept ended) : t.finishLine.Kept (ended ++ t.cutLine) :=
  keepFinished (t := { t with renderer := t.renderer.finish }) (h.congr rfl rfl)

theorem skipTo (h : t.Kept ended) (start : ℕ) : (t.skipTo vt start).Kept (ended ++ t.cutLine) :=
  h.finishLine.congr rfl rfl

theorem feedPiece (h : t.Kept ended) (piece : Bytes) :
    (t.feedPiece vt u piece).1.Kept (ended ++ (t.feedPiece vt u piece).2) := by
  have hkept := keepFinished (t := { t with renderer := t.renderer.advance vt u piece }) (h.congr rfl rfl)
  exact hkept.congr rfl rfl

theorem feedPieces (h : t.Kept ended) (pieces : List Bytes) :
    ((feedingPieces vt u).run t pieces).1.Kept (ended ++ ((feedingPieces vt u).run t pieces).2) := by
  induction pieces generalizing t ended with
  | nil => rwa [Transducer.run_nil, List.append_nil]
  | cons piece pieces ih =>
    rw [Transducer.run_cons, ← List.append_assoc]
    exact ih (h.feedPiece piece)

theorem feed (h : t.Kept ended) (start : Option ℕ) (bytes : Bytes) :
    (t.feed vt u start bytes).1.Kept (ended ++ t.feedLines vt u start bytes) := by
  have hbare : ({ t with unlogged := none } : OutputTap σ).Kept ended := h.congr rfl rfl
  unfold feedLines OutputTap.feed
  rw [← List.append_assoc]
  cases start with
  | none =>
    rw [List.append_nil]
    exact feedPieces hbare _
  | some start =>
    have hcursor : cursor { t with unlogged := none } = t.cursor := rfl
    dsimp only
    rw [hcursor]
    split
    · exact feedPieces (hbare.skipTo start) _
    · rw [List.append_nil]
      exact feedPieces hbare _

theorem take (h : t.Kept ended) (call : TapCall) : (t.take vt u call).Kept (ended ++ t.lines vt u call) := by
  cases call with
  | seedAt start bytes =>
    show (t.seedAt vt u start bytes).Kept _
    unfold OutputTap.seedAt OutputTap.lines
    dsimp only
    split
    · have hcut : ({ t.finishLine with renderer := .new vt start, partialAt := start } : OutputTap σ).Kept
          (ended ++ t.cutLine) := h.finishLine.congr rfl rfl
      rw [← List.append_assoc]
      exact (hcut.feed (some start) bytes).congr rfl rfl
    · exact (h.feed (some start) bytes).congr rfl rfl
  | beginRun =>
    have hkept := keepFinished (t := { t with renderer := t.renderer.restart vt }) (h.congr rfl rfl)
    exact hkept.congr rfl rfl
  | beginRunAt start =>
    show (t.beginRunAt vt start).Kept
      (ended ++ if t.runStart = some start then [] else if t.cursor ≤ start then t.cutLine else [])
    unfold OutputTap.beginRunAt
    split
    · rwa [List.append_nil]
    · split
      · exact (show (t.skipTo vt start).Kept _ from h.skipTo start).congr rfl rfl
      · rw [List.append_nil]
        exact h.congr rfl rfl
  | feed start bytes => exact h.feed start bytes
  | feedUnlogged bytes =>
    show (t.feedUnlogged vt u bytes).1.Kept (ended ++ [])
    rw [List.append_nil]
    exact h.congr rfl rfl
  | unfinishedForPattern now =>
    show (t.unfinishedForPattern now).1.Kept (ended ++ [])
    rw [List.append_nil]
    unfold OutputTap.unfinishedForPattern
    split <;> exact h.congr rfl rfl
  | unfinishedDue now =>
    show (t.unfinishedDue now).1.Kept (ended ++ [])
    rw [List.append_nil]
    unfold OutputTap.unfinishedDue
    split
    · split <;> exact h.congr rfl rfl
    · exact h

theorem run (h : t.Kept ended) (calls : List TapCall) :
    ((taking vt u).run t calls).1.Kept (ended ++ ((taking vt u).run t calls).2) := by
  induction calls generalizing t ended with
  | nil => rwa [Transducer.run_nil, List.append_nil]
  | cons call calls ih =>
    rw [Transducer.run_cons, ← List.append_assoc]
    exact ih (h.take call)

end Kept

/-- After any calls the ring holds at most `tapRingBytes` bytes, counted right.  While no more than `k`
blank lines come in a row, it holds no more than as many lines for each byte and once more; and it holds
every blank line that ended since the last one that shows something. -/
theorem ring_bounded (vt : VtParser σ) (u : Unicode) (start : ℕ) (calls : List TapCall) :
    let (t, ended) := (taking vt u).run (new vt start) calls
    lineBytes t.ring ≤ tapRingBytes ∧ t.ringBytes = lineBytes t.ring ∧
    (∀ k, Sparse k ended → t.ring.length ≤ (k + 1) * tapRingBytes + k) ∧
    ∀ blanks, blanks <:+ ended → AllBlank blanks → blanks.length ≤ t.ring.length := by
  have h : ((taking vt u).run (new vt start) calls).1.Kept _ := (Kept.new start).run calls
  rcases hrun : (taking vt u).run (new vt start) calls with ⟨t, ended⟩
  rw [hrun, List.nil_append] at h
  have hbytes : lineBytes t.ring ≤ tapRingBytes := h.counted ▸ h.bounded
  refine ⟨hbytes, h.counted, fun k hsparse => ?_, fun blanks hblanks hall =>
    (h.blanks blanks hblanks hall).length_le⟩
  have hring : Sparse k ([] ++ t.ring) := hsparse.of_infix h.newest.isInfix
  have hle := hring.length_le (fun _ => nofun)
  rw [List.length_nil, Nat.zero_add] at hle
  exact hle.trans (Nat.add_le_add_right (Nat.mul_le_mul_left _ hbytes) k)

/-- Two lines of text with a blank one between them. -/
theorem ring_bounded_of_two :
    let (t, ended) := (taking byteParser singleWidth).run (new byteParser 0)
      [.feed (some 0) [97, 10, 10, 98, 98, 10]]
    ended = [⟨0, ['a']⟩, ⟨2, []⟩, ⟨3, ['b', 'b']⟩] ∧ Sparse 1 ended ∧
      t.ring.length ≤ 2 * tapRingBytes + 1 ∧ t.ringBytes = lineBytes t.ring := by
  have hsparse : Sparse 1 [⟨0, ['a']⟩, ⟨2, []⟩, ⟨3, ['b', 'b']⟩] := fun blanks hblanks hall => by
    have hle := (hblanks.sublist.filter (·.text.isEmpty)).length_le
    rwa [List.filter_eq_self.2 fun line hline => by rw [hall line hline]; rfl] at hle
  obtain ⟨-, hcounted, hlines, -⟩ := ring_bounded byteParser singleWidth 0
    [.feed (some 0) [97, 10, 10, 98, 98, 10]]
  have hended : ((taking byteParser singleWidth).run (new byteParser 0)
      [.feed (some 0) [97, 10, 10, 98, 98, 10]]).2 = [⟨0, ['a']⟩, ⟨2, []⟩, ⟨3, ['b', 'b']⟩] := by decide
  have hfed : Sparse 1 ((taking byteParser singleWidth).run (new byteParser 0)
      [.feed (some 0) [97, 10, 10, 98, 98, 10]]).2 := hended.symm ▸ hsparse
  exact ⟨hended, hfed, hlines 1 hfed, hcounted⟩

/-! ### Line feeds alone -/

theorem advance_lineFeed :
    (LogRenderer.new byteParser).advance byteParser singleWidth [lineFeed] =
      ⟨.new byteParser, ⟨{}, [(Line.snapshot {})]⟩⟩ := by
  decide

/-- The rendering stands at the start of a line and the ring holds nothing but blank lines. -/
structure Blank (t : OutputTap Unit) (count : ℕ) : Prop where
  renderer : t.renderer.renderer = .new byteParser
  bytes : t.ringBytes = 0
  count : t.ring.length = count

theorem Blank.feed_lineFeed {t : OutputTap Unit} {count : ℕ} (h : t.Blank count) :
    (t.take byteParser singleWidth (.feed none [lineFeed])).Blank (count + 1) := by
  have hpieces : splitInclusive (· == lineFeed) [lineFeed] = [[lineFeed]] := by decide
  have hplain : (Line.snapshot {}).plain = [] := by decide
  show ((t.feed byteParser singleWidth none [lineFeed]).1).Blank (count + 1)
  unfold OutputTap.feed
  dsimp only
  rw [hpieces, Transducer.run_singleton]
  simp only [feedingPieces, feedPiece, keepFinished, PlacedRenderer.advance, PlacedRenderer.takeLines,
    LogRenderer.takeLines, LineDrawing.takeLines, h.renderer, advance_lineFeed, List.map_cons,
    List.map_nil, List.foldl_cons, List.foldl_nil, hplain, keep, h.bytes]
  rw [trim_of_le (by decide)]
  exact ⟨rfl, rfl, by rw [List.length_append, h.count]; rfl⟩

/-- No number bounds the ring: a run of more line feeds than that leaves as many lines in it. -/
theorem ring_unbounded : ¬∃ bound : ℕ, ∀ calls : List TapCall,
    ((taking byteParser singleWidth).run (new byteParser 0) calls).1.ring.length ≤ bound := by
  rintro ⟨bound, hbound⟩
  have hrun : ∀ count, ((taking byteParser singleWidth).run (new byteParser 0)
      (List.replicate count (.feed none [lineFeed]))).1.Blank count := by
    intro count
    induction count with
    | zero => exact ⟨rfl, rfl, rfl⟩
    | succ count ih =>
      rw [List.replicate_succ', Transducer.run_append, Transducer.run_singleton]
      exact ih.feed_lineFeed
  have hle := hbound (List.replicate (bound + 1) (.feed none [lineFeed]))
  rw [(hrun (bound + 1)).count] at hle
  omega

end OutputTap

end Muster.Service
