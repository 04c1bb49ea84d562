import Muster.Holder.LogReader
import Muster.Service.OutputTap
import Muster.Terminal.Rendering

/-!
# TapScan — the live tap and a scan of the log show the same lines

Both split the output into raw lines around one rendering: the tap as chunks come, the scan as it
reads the log back.  `placing` is what each line and its place are, whatever the chunks.  The tap
follows it chunk by chunk and the scan read by read, as long as no line is cut, no raw line is
longer than a scan holds and no sequence is dropped.
-/

namespace Muster.Service

open Muster.Log
open Muster.Terminal
open Muster.Holder

variable {σ : Type} {vt : VtParser σ} {u : Unicode}

def tapLines (lines : List (ℕ × LogLine)) : List TapLine :=
  lines.map fun (start, line) => ⟨start, line.plain⟩

theorem tapLines_append (xs ys : List (ℕ × LogLine)) :
    tapLines (xs ++ ys) = tapLines xs ++ tapLines ys := List.map_append

namespace OutputTap

variable {t : OutputTap σ} {p : Placing σ} {quiet : ℕ} {bytes : Bytes}

/-- The tap has rendered what `placing` has. -/
structure Follows (t : OutputTap σ) (p : Placing σ) (quiet : ℕ) : Prop where
  renderer : t.renderer.renderer.Follows p.state quiet
  finished : t.renderer.renderer.drawing.finished = []
  next : t.cursor = p.next
  partialAt : t.partialAt = p.lineAt
  unlogged : t.unlogged = none

theorem foldl_keep (lines : List TapLine) :
    lines.foldl keep t =
      { t with ring := (lines.foldl keep t).ring, ringBytes := (lines.foldl keep t).ringBytes } := by
  induction lines generalizing t with
  | nil => rfl
  | cons line lines ih =>
    rw [List.foldl_cons, ih]
    rfl

theorem new_follows (start : ℕ) : (new vt start).Follows (.new vt start) 0 :=
  ⟨LogRenderer.new_follows, rfl, rfl, rfl, rfl⟩

theorem Follows.feedPiece {piece : Bytes} (h : t.Follows p quiet) (hquiet : quiet ≤ maxPendingBytes)
    (hbrisk : vt.Brisk p.state.1 quiet piece) {lineAt : ℕ}
    (hlineAt : lineAt = if piece.getLast? = some lineFeed ||
        !((rendering vt u).run p.state piece).2.isEmpty then p.next + piece.length else p.lineAt) :
    (t.feedPiece vt u piece).1.Follows
        ⟨((rendering vt u).run p.state piece).1, lineAt, p.next + piece.length⟩
        (vt.quietAfter p.state.1 quiet piece) ∧
      (t.feedPiece vt u piece).2 =
        tapLines (((rendering vt u).run p.state piece).2.map (p.lineAt, ·)) := by
  obtain ⟨hrenderer, hfinished, hcursor, hopen, hunlogged⟩ := h
  obtain ⟨⟨hparser, hline⟩, hlines⟩ := hrenderer.advance (u := u) hquiet hbrisk
  rw [hfinished, List.nil_append] at hlines
  have hnext : t.renderer.next = p.next := hcursor
  unfold OutputTap.feedPiece keepFinished
  dsimp only
  rw [foldl_keep]
  simp only [PlacedRenderer.advance, PlacedRenderer.takeLines, LogRenderer.takeLines,
    LineDrawing.takeLines, hlines, hopen, List.isEmpty_map]
  refine ⟨⟨⟨hparser, hline⟩, rfl, ?_, ?_, hunlogged⟩, ?_⟩
  · exact congrArg (· + piece.length) hnext
  · rw [hlineAt, cursor, hnext]
  · rw [tapLines, List.map_map]
    rfl

theorem Follows.feedBody {body : Bytes} (h : t.Follows p quiet) (hquiet : quiet ≤ maxPendingBytes)
    (htame : Tame vt u p.state quiet body) (hbody : lineFeed ∉ body) :
    (t.feedPiece vt u body).1.Follows ((placing vt u).run p body).1
        (vt.quietAfter p.state.1 quiet body) ∧
      (t.feedPiece vt u body).2 = tapLines ((placing vt u).run p body).2 := by
  rw [placing_body hbody]
  refine h.feedPiece hquiet htame.brisk ?_
  have hlast : body.getLast? ≠ some lineFeed := fun hlast => hbody (List.mem_of_getLast? hlast)
  rw [htame.quiet hbody]
  simp [hlast]

theorem Follows.feedLine {body : Bytes} (h : t.Follows p quiet) (hquiet : quiet ≤ maxPendingBytes)
    (hbrisk : vt.Brisk p.state.1 quiet (body ++ [lineFeed])) (hbody : lineFeed ∉ body) :
    (t.feedPiece vt u (body ++ [lineFeed])).1.Follows ((placing vt u).run p (body ++ [lineFeed])).1
        (vt.quietAfter p.state.1 quiet (body ++ [lineFeed])) ∧
      (t.feedPiece vt u (body ++ [lineFeed])).2 =
        tapLines ((placing vt u).run p (body ++ [lineFeed])).2 := by
  rw [placing_line hbody]
  have := h.feedPiece (u := u) hquiet hbrisk rfl
  simpa using this

theorem Follows.feedPieces (h : t.Follows p quiet) (hquiet : quiet ≤ maxPendingBytes)
    (htame : Tame vt u p.state quiet bytes) :
    ((feedingPieces vt u).run t (splitInclusive (· == lineFeed) bytes)).1.Follows
        ((placing vt u).run p bytes).1 (vt.quietAfter p.state.1 quiet bytes) ∧
      ((feedingPieces vt u).run t (splitInclusive (· == lineFeed) bytes)).2 =
        tapLines ((placing vt u).run p bytes).2 := by
  induction bytes using bodies_induction (· == lineFeed) generalizing t p quiet with
  | tail body hbody =>
    have hfree : lineFeed ∉ body := fun hmem => by simpa using hbody lineFeed hmem
    by_cases hnil : body = []
    · subst hnil
      exact ⟨h, rfl⟩
    · rw [splitInclusive_tail _ hbody hnil, Transducer.run_singleton]
      exact h.feedBody hquiet htame hfree
  | piece body b rest hbody hb ih =>
    obtain rfl : b = lineFeed := by simpa using hb
    have hfree : lineFeed ∉ body := fun hmem => by simpa using hbody lineFeed hmem
    rw [splitInclusive_body _ hbody hb, Transducer.run_cons]
    rw [show body ++ lineFeed :: rest = (body ++ [lineFeed]) ++ rest by simp] at htame ⊢
    obtain ⟨hline, hrest⟩ := tame_append.1 htame
    obtain ⟨hfollows, hlines⟩ := h.feedLine (u := u) hquiet hline.brisk hfree
    rw [← placing_state] at hrest
    obtain ⟨hend, hmore⟩ := ih hfollows (hline.brisk.quietAfter_le hquiet) hrest
    rw [Transducer.run_append, VtParser.quietAfter_append]
    rw [placing_state, rendering_run_fst] at hend
    refine ⟨hend, ?_⟩
    rw [tapLines, List.map_append]
    exact congrArg₂ (· ++ ·) hlines hmore

/-- A chunk that does not start past the cursor gives what `placing` makes of its new bytes. -/
theorem Follows.feed {start : ℕ} (h : t.Follows p quiet)
    (hquiet : quiet ≤ maxPendingBytes) (hstart : start ≤ p.next)
    (htame : Tame vt u p.state quiet (bytes.drop (p.next - start))) :
    (t.feed vt u (some start) bytes).1.Follows
        ((placing vt u).run p (bytes.drop (p.next - start))).1
        (vt.quietAfter p.state.1 quiet (bytes.drop (p.next - start))) ∧
      (t.feed vt u (some start) bytes).2 =
        tapLines ((placing vt u).run p (bytes.drop (p.next - start))).2 := by
  have hsame : { t with unlogged := none } = t := by rw [← h.unlogged]
  rw [OutputTap.feed]
  dsimp only
  rw [hsame, h.next, if_neg (by omega)]
  exact h.feedPieces hquiet htame

theorem drop_isPrefix {S : Bytes} {start next : ℕ} (h : bytes <+: S.drop start)
    (hstart : start ≤ next) : bytes.drop (next - start) <+: S.drop next := by
  obtain ⟨rest, hrest⟩ := h
  have hdrop : S.drop next = (S.drop start).drop (next - start) := by
    rw [List.drop_drop, show start + (next - start) = next by omega]
  rw [hdrop, ← hrest]
  exact ⟨rest.drop (next - start - bytes.length), (List.drop_append ..).symm⟩

/-- However the stream is cut into chunks, and whatever they repeat, the tap has rendered a stretch
of the stream from where it stood. -/
theorem Follows.feeding {S : Bytes} {chunks : List (ℕ × Bytes)} (h : t.Follows p quiet)
    (hquiet : quiet ≤ maxPendingBytes) (htame : Tame vt u p.state quiet (S.drop p.next))
    (hplaces : ∀ chunk ∈ chunks, chunk.2 <+: S.drop chunk.1)
    (hgapless : ∀ before chunk after, chunks = before ++ chunk :: after →
      chunk.1 ≤ ((feeding vt u).run t before).1.cursor) :
    ∃ bytes, bytes <+: S.drop p.next ∧
      ((feeding vt u).run t chunks).1.Follows ((placing vt u).run p bytes).1
        (vt.quietAfter p.state.1 quiet bytes) ∧
      ((feeding vt u).run t chunks).2 = tapLines ((placing vt u).run p bytes).2 := by
  induction chunks generalizing t p quiet with
  | nil => exact ⟨[], List.nil_prefix, h, rfl⟩
  | cons chunk chunks ih =>
    have hstart : chunk.1 ≤ p.next := h.next ▸ hgapless [] chunk chunks rfl
    -- the bytes this chunk brings, and those still to come
    have hnew := drop_isPrefix (hplaces chunk List.mem_cons_self) hstart
    obtain ⟨hfed, hlines⟩ := h.feed hquiet hstart (htame.of_isPrefix hnew)
    obtain ⟨rest, hrest⟩ := hnew
    have hsplit := htame
    rw [← hrest] at hsplit
    obtain ⟨hnow, hlater⟩ := tame_append.1 hsplit
    have hdrop : rest = S.drop ((placing vt u).run p (chunk.2.drop (p.next - chunk.1))).1.next := by
      rw [placing_next, ← List.drop_drop, ← hrest, List.drop_left]
    rw [hdrop, ← placing_state] at hlater
    obtain ⟨bytes, hbytes, hend, hmore⟩ := ih hfed (hnow.brisk.quietAfter_le hquiet) hlater
      (fun c hc => hplaces c (List.mem_cons_of_mem _ hc))
      (fun before c after hc => hgapless (chunk :: before) c after (by rw [hc]; rfl))
    refine ⟨chunk.2.drop (p.next - chunk.1) ++ bytes, ?_, ?_, ?_⟩
    · rw [← hrest, hdrop]
      exact (List.prefix_append_right_inj _).2 hbytes
    · rw [Transducer.run_append, VtParser.quietAfter_append]
      rw [placing_state, rendering_run_fst] at hend
      exact hend
    · rw [Transducer.run_cons, Transducer.run_append, tapLines, List.map_append]
      exact congrArg₂ (· ++ ·) hlines hmore

end OutputTap

/-! ### The scan -/

def scanLines (lines : List (ℕ × LogLine)) : List (ℕ × List Char) :=
  lines.map fun (start, line) => (start, line.plain)

theorem scanLines_append (xs ys : List (ℕ × LogLine)) :
    scanLines (xs ++ ys) = scanLines xs ++ scanLines ys := List.map_append

theorem lines_of_lineAt_eq {piece : VisitedPiece} (h : piece.lineAt = piece.start) :
    piece.lines = piece.texts.map (piece.start, ·) := by
  unfold VisitedPiece.lines VisitedPiece.began
  rw [h]
  simp only [ite_self]
  have hmap : (fun x : List Char × ℕ => (piece.start, x.1)) = (piece.start, ·) ∘ Prod.fst := rfl
  rw [hmap, ← List.map_map, List.zipIdx_map_fst]

/-- A scan has rendered all but the raw line it holds. -/
structure Scanned (s : Scan σ (List (ℕ × List Char))) (p : Placing σ) (quiet : ℕ) : Prop where
  renderer : s.renderer.renderer.Follows p.state quiet
  finished : s.renderer.renderer.drawing.finished = []
  /-- The rendering stands at the start of a raw line. -/
  fresh : p.lineAt = p.next
  drawnFrom : s.drawnFrom = p.lineAt
  lineAt : s.line ≠ [] → s.lineAt = p.lineAt
  free : lineFeed ∉ s.line
  broke : s.broke = false

theorem handLine_of_ne_nil {s : Scan σ (List (ℕ × List Char))} (h : s.line ≠ []) :
    s.handLine vt u keepLines false =
      let lines := (s.renderer.advance vt u s.line).takeLines
      ({ s with
          renderer := lines.2
          line := []
          kept := s.kept ++
            (⟨s.lineAt, s.line, s.drawnFrom, lines.1.map LogLine.plain⟩ : VisitedPiece).lines
          broke := false }, !(lines.1.map LogLine.plain).isEmpty) := by
  unfold Scan.handLine keepLines
  dsimp only
  rw [if_neg (by simp [h])]
  rfl

namespace Scanned

variable {s : Scan σ (List (ℕ × List Char))} {p : Placing σ} {quiet : ℕ} {cursor : ℕ}

theorem takeBody {body : Bytes} (h : Scanned s p quiet) (hbody : lineFeed ∉ body)
    (hshort : (s.line ++ body).length < lineMaxBytes) (hcursor : cursor = p.next + s.line.length) :
    Scanned (s.takePiece vt u keepLines cursor body) p quiet ∧
      (s.takePiece vt u keepLines cursor body).line = s.line ++ body ∧
      (s.takePiece vt u keepLines cursor body).kept = s.kept := by
  have hlast : body.getLast? ≠ some lineFeed := fun hlast => hbody (List.mem_of_getLast? hlast)
  unfold Scan.takePiece
  dsimp only
  rw [if_pos (by simp [hlast]; simpa using hshort)]
  refine ⟨⟨h.renderer, h.finished, h.fresh, h.drawnFrom, ?_, ?_, h.broke⟩, rfl, rfl⟩
  · intro _
    by_cases hline : s.line = []
    · simp [hline, hcursor, h.fresh]
    · simp [hline, h.lineAt hline]
  · exact fun hmem => (List.mem_append.1 hmem).elim h.free hbody

theorem takeLine {body : Bytes} (h : Scanned s p quiet) (hquiet : quiet ≤ maxPendingBytes)
    (hbrisk : vt.Brisk p.state.1 quiet (s.line ++ body ++ [lineFeed])) (hbody : lineFeed ∉ body)
    (hcursor : cursor = p.next + s.line.length) :
    Scanned (s.takePiece vt u keepLines cursor (body ++ [lineFeed]))
        ((placing vt u).run p (s.line ++ body ++ [lineFeed])).1
        (vt.quietAfter p.state.1 quiet (s.line ++ body ++ [lineFeed])) ∧
      (s.takePiece vt u keepLines cursor (body ++ [lineFeed])).line = [] ∧
      (s.takePiece vt u keepLines cursor (body ++ [lineFeed])).kept =
        s.kept ++ scanLines ((placing vt u).run p (s.line ++ body ++ [lineFeed])).2 := by
  have hfree : lineFeed ∉ s.line ++ body := fun hmem => (List.mem_append.1 hmem).elim h.free hbody
  obtain ⟨⟨hparser, hline⟩, hlines⟩ := h.renderer.advance (u := u) hquiet hbrisk
  rw [h.finished, List.nil_append] at hlines
  have hat : (if s.line.isEmpty then cursor else s.lineAt) = p.lineAt := by
    by_cases hnil : s.line = []
    · simp [hnil, hcursor, h.fresh]
    · simp [hnil, h.lineAt hnil]
  have hpiece : (⟨p.lineAt, s.line ++ (body ++ [lineFeed]), p.lineAt,
      ((rendering vt u).run p.state (s.line ++ body ++ [lineFeed])).2.map LogLine.plain⟩ :
        VisitedPiece).lines =
      scanLines (((rendering vt u).run p.state (s.line ++ body ++ [lineFeed])).2.map (p.lineAt, ·)) := by
    rw [lines_of_lineAt_eq rfl, scanLines, List.map_map, List.map_map]
    rfl
  have hended : (body ++ [lineFeed]).getLast? = some lineFeed := List.getLast?_concat
  rw [placing_line hfree]
  rw [List.append_assoc] at hparser hline hlines hpiece ⊢
  have hlen : cursor + (body ++ [lineFeed]).length = p.next + ((s.line ++ body).length + 1) := by
    rw [hcursor]
    simp
    omega
  unfold Scan.takePiece
  dsimp only
  rw [if_neg (by simp [hended]), handLine_of_ne_nil (by simp)]
  dsimp only
  simp only [hat, h.drawnFrom, PlacedRenderer.advance, PlacedRenderer.takeLines,
    LogRenderer.takeLines, LineDrawing.takeLines, hlines, hpiece, hended, hlen]
  refine ⟨⟨⟨hparser, hline⟩, rfl, rfl, rfl, ?_, ?_, rfl⟩, rfl, rfl⟩
  · exact fun hne => absurd rfl hne
  · exact List.not_mem_nil

theorem takePieces {bytes : Bytes} (h : Scanned s p quiet) (hquiet : quiet ≤ maxPendingBytes)
    (htame : Tame vt u p.state quiet (s.line ++ bytes))
    (hshort : ∀ body, body <:+: s.line ++ bytes → lineFeed ∉ body → body.length < lineMaxBytes)
    (hcursor : cursor = p.next + s.line.length) :
    let s' := s.takePieces vt u keepLines cursor (splitInclusive (· == lineFeed) bytes)
    ∃ done, done ++ s'.line = s.line ++ bytes ∧
      Scanned s' ((placing vt u).run p done).1 (vt.quietAfter p.state.1 quiet done) ∧
      s'.kept = s.kept ++ scanLines ((placing vt u).run p done).2 := by
  induction bytes using bodies_induction (· == lineFeed) generalizing s p quiet cursor with
  | tail body hbody =>
    have hfree : lineFeed ∉ body := fun hmem => by simpa using hbody lineFeed hmem
    by_cases hnil : body = []
    · subst hnil
      exact ⟨[], by simp [Scan.takePieces], h, (List.append_nil _).symm⟩
    · have hlen := hshort _ (List.infix_refl _) fun hmem =>
        (List.mem_append.1 hmem).elim h.free hfree
      obtain ⟨hheld, hline, hkept⟩ := h.takeBody (u := u) hfree hlen hcursor
      rw [splitInclusive_tail _ hbody hnil]
      simp only [Scan.takePieces, h.broke, Bool.false_eq_true, if_false]
      exact ⟨[], by rw [hline]; rfl, hheld, by rw [hkept]; exact (List.append_nil _).symm⟩
  | piece body b rest hbody hb ih =>
    obtain rfl : b = lineFeed := by simpa using hb
    have hfree : lineFeed ∉ body := fun hmem => by simpa using hbody lineFeed hmem
    rw [splitInclusive_body _ hbody hb]
    simp only [Scan.takePieces, h.broke, Bool.false_eq_true, if_false]
    have hsplit : s.line ++ (body ++ lineFeed :: rest) = s.line ++ body ++ [lineFeed] ++ rest := by simp
    rw [hsplit] at htame hshort ⊢
    obtain ⟨hnow, hlater⟩ := tame_append.1 htame
    obtain ⟨hheld, hline, hkept⟩ := h.takeLine (u := u) hquiet hnow.brisk hfree hcursor
    rw [← placing_state] at hlater
    generalize s.takePiece vt u keepLines cursor (body ++ [lineFeed]) = s' at hheld hline hkept ⊢
    have hnext : cursor + (body ++ [lineFeed]).length =
        ((placing vt u).run p (s.line ++ body ++ [lineFeed])).1.next + s'.line.length := by
      rw [hline, placing_next, hcursor]
      simp
      omega
    obtain ⟨done, hdone, hend, hmore⟩ := ih hheld (hnow.brisk.quietAfter_le hquiet)
      (by rw [hline]; exact hlater)
      (by rw [hline]; exact fun b hb => hshort b (hb.trans (List.suffix_append _ _).isInfix)) hnext
    refine ⟨s.line ++ body ++ [lineFeed] ++ done, ?_, ?_, ?_⟩
    · rw [List.append_assoc, hdone, hline, List.nil_append]
    · rw [Transducer.run_append, VtParser.quietAfter_append]
      rw [placing_state, rendering_run_fst] at hend
      exact hend
    · rw [hmore, hkept, (placing vt u).run_append p (s.line ++ body ++ [lineFeed]) done,
        scanLines_append, List.append_assoc]

theorem readRange_of_oldest_le {S : Bytes} {shelf : Shelf} (hstop : shelf.stop = S.length) {next : ℕ}
    (holdest : shelf.oldest ≤ next) :
    shelf.readRange S next S.length catchUpChunkBytes =
      (next, (S.drop next).take catchUpChunkBytes) := by
  unfold Shelf.readRange
  rw [Nat.max_eq_left holdest, hstop]
  dsimp only
  rw [List.extract_eq_take_drop, List.take_eq_take_iff.2]
  rw [List.length_drop]
  omega

/-- The whole scan of a log that keeps the stream from `next` on: all raw lines that end are handed
out, the last one is held. -/
theorem readOn {S : Bytes} {shelf : Shelf} (hstop : shelf.stop = S.length) {fuel turn next : ℕ}
    {began : Option ℕ} (h : Scanned s p quiet) (hquiet : quiet ≤ maxPendingBytes)
    (htame : Tame vt u p.state quiet (s.line ++ S.drop next))
    (hshort : ∀ body, body <:+: s.line ++ S.drop next → lineFeed ∉ body →
      body.length < lineMaxBytes)
    (hnext : next = p.next + s.line.length) (holdest : shelf.oldest ≤ next)
    (hfuel : S.length - next ≤ fuel) :
    ∃ s' done, s.readOn vt u S keepLines (fun _ => some shelf) S.length fuel turn next began =
        some (if next < S.length then some (began.getD next) else began, s') ∧
      done ++ s'.line = s.line ++ S.drop next ∧
      Scanned s' ((placing vt u).run p done).1 (vt.quietAfter p.state.1 quiet done) ∧
      s'.kept = s.kept ++ scanLines ((placing vt u).run p done).2 := by
  induction fuel generalizing s p quiet turn next began with
  | zero =>
    have hend : S.drop next = [] := List.drop_eq_nil_of_le (by omega)
    rw [hend, List.append_nil] at htame ⊢
    refine ⟨s, [], ?_, rfl, h, (List.append_nil _).symm⟩
    rw [Scan.readOn, if_neg (by omega)]
  | succ fuel ih =>
    rw [Scan.readOn]
    by_cases hlast : S.length ≤ next
    · have hend : S.drop next = [] := List.drop_eq_nil_of_le hlast
      rw [hend, List.append_nil] at htame ⊢
      refine ⟨s, [], ?_, rfl, h, (List.append_nil _).symm⟩
      rw [if_pos (by simp [hlast]), if_neg (by omega)]
    · -- a read brings the next bytes of the stream, at least one
      rw [if_neg (by simp [hlast, h.broke])]
      dsimp only
      rw [readRange_of_oldest_le hstop holdest]
      have hne : (S.drop next).take catchUpChunkBytes ≠ [] := by
        rw [← List.length_pos_iff, List.length_take, List.length_drop, catchUpChunkBytes]
        omega
      have hlen : 0 < ((S.drop next).take catchUpChunkBytes).length := List.length_pos_iff.2 hne
      dsimp only
      rw [if_neg (by simpa using hne), if_neg (Nat.lt_irrefl next), h.broke,
        if_neg Bool.false_ne_true, if_pos (by omega)]
      have hcut : S.drop next = (S.drop next).take catchUpChunkBytes ++
          S.drop (next + ((S.drop next).take catchUpChunkBytes).length) := by
        rw [← List.drop_drop]
        exact (List.prefix_iff_eq_append.1 (List.take_prefix _ _)).symm
      generalize (S.drop next).take catchUpChunkBytes = bytes at hne hlen hcut ⊢
      rw [hcut, ← List.append_assoc] at htame hshort ⊢
      obtain ⟨done, hdone, hheld, hkept⟩ := h.takePieces hquiet
        (tame_append.1 htame).1
        (fun body hbody => hshort body (hbody.trans (List.prefix_append _ _).isInfix)) hnext
      generalize
        s.takePieces vt u keepLines next (splitInclusive (· == lineFeed) bytes) = s' at hdone hheld hkept ⊢
      rw [← hdone, List.append_assoc] at htame hshort
      obtain ⟨hnow, hlater⟩ := tame_append.1 htame
      rw [← placing_state] at hlater
      obtain ⟨s'', more, hread, hmore, hend, hrest⟩ := ih
        hheld
        (hnow.brisk.quietAfter_le hquiet) hlater
        (fun body hbody => hshort body (hbody.trans (List.suffix_append _ _).isInfix))
        (by
          have := congrArg List.length hdone
          rw [List.length_append, List.length_append] at this
          rw [placing_next, hnext]
          omega)
        (by omega) (by omega)
      refine ⟨s'', done ++ more, ?_, ?_, ?_, ?_⟩
      · rw [hread]
        simp
      · rw [List.append_assoc, hmore, ← List.append_assoc, hdone]
      · rw [Transducer.run_append, VtParser.quietAfter_append]
        rw [placing_state, rendering_run_fst] at hend
        exact hend
      · rw [hrest, hkept, Transducer.run_append, scanLines_append, List.append_assoc]

theorem finish (h : Scanned s p quiet) (hquiet : quiet ≤ maxPendingBytes)
    (htame : Tame vt u p.state quiet s.line) (hshown : p.state.2.shown = 0) :
    (s.handLine vt u keepLines true).1.kept =
      s.kept ++ scanLines ((placing vt u).run p s.line).1.unfinished := by
  rw [placing_body h.free, Placing.unfinished]
  obtain ⟨⟨hparser, hline⟩, hlines⟩ := h.renderer.advance (u := u) hquiet htame.brisk
  rw [h.finished, List.nil_append, htame.quiet h.free] at hlines
  have hpeek : (((rendering vt u).run p.state s.line).1.2.closeLine false).2 =
      (LineDrawing.peek ⟨((rendering vt u).run p.state s.line).1.2, []⟩).toList := by
    refine Line.closeLine_false_eq_peek ?_
    rw [rendering_run_fst]
    exact Line.performing_shown hshown _
  unfold Scan.handLine
  simp only [if_true, PlacedRenderer.advance, PlacedRenderer.finish, PlacedRenderer.takeLines,
    LogRenderer.finish, LogRenderer.takeLines, LineDrawing.finish, LineDrawing.takeLines, hlines, hline,
    List.nil_append, hpeek, h.drawnFrom]
  cases LineDrawing.peek ⟨((rendering vt u).run p.state s.line).1.2, []⟩ with
  | none =>
    split
    · exact (List.append_nil _).symm
    · rfl
  | some line =>
    rw [if_neg (by simp)]
    rfl

end Scanned

theorem rendererAt_oldest (S : Bytes) (start stop : ℕ) :
    rendererAt vt u S ⟨start, stop⟩ start = PlacedRenderer.new vt start := by
  have hbound : max start (start - renderLookbackBytes) = start := by omega
  unfold rendererAt lookBack
  dsimp only
  rw [hbound, Nat.sub_self]
  simp only [decide_true, if_true, LookBack.blocks, drawBack]
  rw [if_neg (by simp [PlacedRenderer.advance, PlacedRenderer.takeLines, PlacedRenderer.finish,
    PlacedRenderer.new])]
  rfl

/-- A scan of a log that begins at `start` hands out what `placing` makes of the stream from there. -/
theorem visitLines_eq {S : Bytes} {start : ℕ}
    (hbytes : ∀ line, line <:+: S.drop start → lineFeed ∉ line → line.length < lineMaxBytes)
    (htame : Tame vt u (vt.init, {}) 0 (S.drop start)) :
    visitLines vt u S keepLines ⟨start, S.length⟩ (fun _ => some ⟨start, S.length⟩) start S.length [] =
      let placed := (placing vt u).run (.new vt start) (S.drop start)
      some (start, scanLines (placed.2 ++ placed.1.unfinished)) := by
  have hscan : Scanned (σ := σ) ⟨.new vt start, [], start, start, [], false⟩ (.new vt start) 0 :=
    ⟨LogRenderer.new_follows, rfl, rfl, rfl, fun h => absurd rfl h, List.not_mem_nil, rfl⟩
  have hstop : (⟨start, S.length⟩ : Shelf).stop = S.length := rfl
  obtain ⟨s, done, hread, hdone, hheld, hkept⟩ := hscan.readOn hstop (Nat.zero_le _)
    htame hbytes rfl (Nat.le_refl _) (Nat.le_refl _)
  rw [List.nil_append] at hdone
  rw [← hdone] at htame
  obtain ⟨hnow, hlater⟩ := tame_append.1 htame
  have hstate : ((rendering vt u).run (vt.init, {}) done).1 =
      ((placing vt u).run (.new vt start) done).1.state := by
    rw [placing_state]
    rfl
  rw [hstate] at hlater
  have hshown : ((placing vt u).run (.new vt start) done).1.state.2.shown = 0 := by
    rw [← hstate, rendering_run_fst]
    exact Line.performing_shown rfl _
  have hend := hheld.finish (hnow.brisk.quietAfter_le (Nat.zero_le _)) hlater hshown
  have htail : ((placing vt u).run ((placing vt u).run (.new vt start) done).1 s.line).2 = [] := by
    rw [placing_body hheld.free, hlater.quiet hheld.free]
    rfl
  unfold visitLines
  dsimp only
  have hmax : max (PlacedRenderer.new vt start).next start = start := Nat.max_self start
  rw [Nat.max_self, rendererAt_oldest, hmax, hread]
  dsimp only
  rw [hheld.broke, if_neg Bool.false_ne_true, hend, hkept, ← hdone, Transducer.run_append, htail,
    List.append_nil, scanLines_append]
  split <;> rfl

namespace OutputTap

variable {t : OutputTap σ} {p : Placing σ} {quiet : ℕ}

theorem Follows.unfinished_eq (h : t.Follows p quiet) :
    t.unfinished.toList = tapLines p.unfinished := by
  have hpeek : t.renderer.peekPartial = LineDrawing.peek ⟨p.state.2, []⟩ := by
    rw [← h.renderer.line]
    rfl
  rw [OutputTap.unfinished, hpeek, h.partialAt, Placing.unfinished]
  cases LineDrawing.peek ⟨p.state.2, []⟩ <;> rfl

theorem feedPiece_cursor (t : OutputTap σ) (piece : Bytes) :
    (t.feedPiece vt u piece).1.cursor = t.cursor + piece.length := by
  unfold OutputTap.feedPiece keepFinished
  dsimp only
  rw [foldl_keep]
  rfl

theorem feedingPieces_cursor (t : OutputTap σ) (pieces : List Bytes) :
    ((feedingPieces vt u).run t pieces).1.cursor = t.cursor + pieces.flatten.length := by
  induction pieces generalizing t with
  | nil => rfl
  | cons piece pieces ih =>
    rw [Transducer.run_cons, ih, List.flatten_cons, List.length_append]
    simp only [feedingPieces, feedPiece_cursor]
    omega

theorem skipTo_cursor (vt : VtParser σ) (t : OutputTap σ) (start : ℕ) :
    (t.skipTo vt start).cursor = max t.cursor start := by
  unfold OutputTap.skipTo finishLine keepFinished
  dsimp only
  rw [foldl_keep]
  rfl

theorem cursor_le_feed (t : OutputTap σ) (start : Option ℕ) (bytes : Bytes) :
    t.cursor ≤ (t.feed vt u start bytes).1.cursor := by
  unfold OutputTap.feed
  dsimp only
  rw [feedingPieces_cursor]
  cases start with
  | none => exact Nat.le_add_right _ _
  | some start =>
    dsimp only
    split
    · rw [skipTo_cursor]
      exact Nat.le_trans (Nat.le_max_left _ _) (Nat.le_add_right _ _)
    · exact Nat.le_add_right _ _

theorem feed_of_seen (h : t.unlogged = none) {start : ℕ} {bytes : Bytes}
    (hseen : start + bytes.length ≤ t.cursor) : t.feed vt u (some start) bytes = (t, []) := by
  have hsame : { t with unlogged := none } = t := by rw [← h]
  unfold OutputTap.feed
  dsimp only
  rw [hsame, if_neg (by omega), List.drop_eq_nil_of_le (by omega)]
  rfl

/-- **The live tap and the log scan agree.**  The stream is what the output `S` holds from `start`
on, where the tap is made and the log begins.  No glyph is drawn past a line's columns, no raw line
reaches what a scan holds, and no more bytes in a row than the parser takes dispatch nothing, which
is what a sequence is to it.  Then the lines the tap completes over any chunks that deliver the
stream, and its unfinished line, are those a scan of the log hands out, each with where it began. -/
theorem tap_agrees_with_scan (vt : VtParser σ) (u : Unicode) (S : Bytes) (start : ℕ)
    (chunks : List (ℕ × Bytes))
    (hbytes : ∀ line, line <:+: S.drop start → lineFeed ∉ line → line.length < lineMaxBytes)
    (hcells : Line.roomy u {} (vt.run vt.init (S.drop start)).2)
    (hsequences : vt.Brisk vt.init 0 (S.drop start))
    (hplaces : ∀ chunk ∈ chunks, chunk.2 <+: S.drop chunk.1)
    (hgapless : ∀ before chunk after, chunks = before ++ chunk :: after →
      chunk.1 ≤ ((feeding vt u).run (new vt start) before).1.cursor)
    (hall : ((feeding vt u).run (new vt start) chunks).1.cursor = S.length) :
    let fed := (feeding vt u).run (new vt start) chunks
    visitLines vt u S keepLines ⟨start, S.length⟩ (fun _ => some ⟨start, S.length⟩) start S.length [] =
        some (start, (fed.2 ++ fed.1.unfinished.toList).map fun line => (line.start, line.text)) ∧
      ∀ before, before <+: chunks → ∀ first bytes,
        let t := ((feeding vt u).run (new vt start) before).1
        t.cursor ≤ (t.feed vt u (some first) bytes).1.cursor ∧
          (first + bytes.length ≤ t.cursor → t.feed vt u (some first) bytes = (t, [])) := by
  have htame : Tame vt u (vt.init, ({} : Line)) 0 (S.drop start) := ⟨hsequences, hcells⟩
  have hfresh : (new vt start).Follows (.new vt start) 0 := new_follows start
  refine ⟨?_, ?_⟩
  · obtain ⟨bytes, hdelivered, hfed, hlines⟩ := hfresh.feeding (Nat.zero_le _) htame hplaces hgapless
    -- all of the stream was delivered
    have hlen : bytes.length = (S.drop start).length := by
      have hend : S.length = start + bytes.length := by
        rw [← hall, hfed.next, placing_next]
        rfl
      rw [List.length_drop]
      omega
    obtain rfl : bytes = S.drop start := hdelivered.eq_of_length hlen
    rw [visitLines_eq hbytes htame, hlines, hfed.unfinished_eq, ← tapLines_append, tapLines, List.map_map]
    rfl
  · intro before hbefore first bytes
    obtain ⟨after, rfl⟩ := hbefore
    obtain ⟨_, _, hfed, _⟩ := hfresh.feeding (Nat.zero_le _) htame
      (fun chunk hchunk => hplaces chunk (List.mem_append_left _ hchunk))
      (fun b chunk rest hb => hgapless b chunk (rest ++ after) (by rw [hb]; simp))
    exact ⟨cursor_le_feed _ _ _, feed_of_seen hfed.unlogged⟩

/-- A parser of ASCII text and titles: a title's string swallows all bytes up to its BEL. -/
inductive TitleState where
  | ground
  | escape
  | title
deriving DecidableEq, Repr

def TitleState.step : TitleState → UInt8 → TitleState × List Call
  | ground, b =>
    if b = Terminal.esc then (escape, [])
    else if b < 0x20 then (ground, [.execute b])
    else (ground, [.print (Char.ofNat b.toNat)])
  | escape, b => if b = 0x5d then (title, []) else (ground, [.escDispatch [] false b])
  | title, b => if b = bel then (ground, [.oscDispatch [] true]) else (title, [])

def titleParser : VtParser TitleState where
  step := TitleState.step
  init := .ground
  lineFeed_of_execute := by
    intro s b h
    cases s with
    | ground =>
      simp only [TitleState.step] at h
      split_ifs at h <;> simp at h
      exact h.symm
    | escape =>
      simp only [TitleState.step] at h
      split_ifs at h <;> simp at h
    | title =>
      simp only [TitleState.step] at h
      split_ifs at h <;> simp at h

def narrow : Unicode := ⟨fun _ => some 1, fun _ => false⟩

/-- A title that swallows a line feed, then a blank line; the chunks overlap and one repeats. -/
theorem tap_agrees_with_scan_titled :
    visitLines titleParser narrow [0x78, 0x61, 0x1b, 0x5d, 0x0a, 0x74, 0x07, 0x62, 0x0a, 0x0a, 0x63]
        keepLines ⟨1, 11⟩ (fun _ => some ⟨1, 11⟩) 1 11 [] =
      some (1, [(5, ['a', 'b']), (9, []), (10, ['c'])]) := by
  have h := tap_agrees_with_scan titleParser narrow
    [0x78, 0x61, 0x1b, 0x5d, 0x0a, 0x74, 0x07, 0x62, 0x0a, 0x0a, 0x63] 1
    [(1, [0x61, 0x1b]), (1, [0x61]), (2, [0x1b, 0x5d, 0x0a, 0x74, 0x07, 0x62, 0x0a, 0x0a, 0x63])]
    (fun line hline _ => Nat.lt_of_le_of_lt hline.length_le (by decide)) (by decide) (by decide)
    (by decide)
    (by
      intro before chunk after hsplit
      rcases before with _ | ⟨a, _ | ⟨b, _ | ⟨c, before⟩⟩⟩
      all_goals simp only [List.nil_append, List.cons_append, List.cons.injEq] at hsplit
      · rw [← hsplit.1]; decide
      · rw [← hsplit.1, ← hsplit.2.1]; decide
      · rw [← hsplit.1, ← hsplit.2.1, ← hsplit.2.2.1]; decide
      · simp at hsplit)
    (by decide)
  exact h.1.trans (by decide)

end OutputTap

end Muster.Service
