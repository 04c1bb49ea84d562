import Muster.Holder.Kept
import Muster.Holder.LogReader
import Muster.Log.Span

/-!
# NewestStart — where the newest lines of a log begin

A read of the newest lines finds its start by scanning the kept output back from its end in blocks,
testing each line on its own.  The scan carries the end of the line it is in from one block to the
next, and reads a line's head again where it reaches past the block.
-/

namespace Muster.Holder

open Muster.Log
open Muster.Terminal

def rawLineKeepBytes : ℕ := 64 * 1024

def maxLogLines : ℕ := 2000
def maxLogBytes : ℕ := 64 * 1024

abbrev LineLimit := { lines : ℕ // 0 < lines ∧ lines ≤ maxLogLines }
abbrev ByteLimit := { bytes : ℕ // 0 < bytes ∧ bytes ≤ maxLogBytes }

structure LogQuery where
  /-- Read only output after this cursor; without it, the newest lines. -/
  since : Option ℕ
  lines : LineLimit
  filter : LineFilter
  maxBytes : ByteLimit

section Counts

variable {σ : Type} (vt : VtParser σ) (u : Unicode) (isErrorLine : String → Bool)

/-- The text of one raw line rendered alone; none when it only redrew the screen. -/
def stripLine (raw : Bytes) : Option (List Char) :=
  let renderer := (LogRenderer.new vt).advance vt u raw
  let renderer :=
    if raw.getLast? = some lineFeed then renderer else renderer.advance vt u [lineFeed]
  let lines := renderer.takeLines.1
  if lines.isEmpty then none else some (lines.flatMap LogLine.plain)

/-- Whether a line counts toward the newest wanted, told from its head.  A line with no escape
sequence cannot have redrawn the screen, so counting every line skips rendering it. -/
def LineFilter.countsHead (filter : LineFilter) (head : Bytes) : Bool :=
  match filter with
  | .all => !head.contains Terminal.esc || (stripLine vt u head).isSome
  | .grep isMatch => (stripLine vt u head).any fun text => isMatch (String.ofList text)
  | .errorsOnly => (stripLine vt u head).any fun text => isErrorLine (String.ofList text)

end Counts

/-- A scan back under way: the lines counted, and where the line it is in ends. -/
structure BackScan where
  counted : ℕ
  lineEnd : ℕ
deriving DecidableEq, Repr

namespace BackScan

variable (content : Inode → Bytes) (sp : Span) (test : Bytes → Bool) (wanted : ℕ)

/-- Reads `n` bytes from absolute `offset`, across pieces; fewer only at the end of the stream.  Each
read asks for all that is still wanted. -/
def readFullAt (offset n : ℕ) : Bytes := sp.readToEnd content n n offset n

/-- Whether the line from `start` up to `stop` counts, its head read from `block`, which starts at
`low`, when it lies there. -/
def counts (start stop low : ℕ) (block : Bytes) : Bool :=
  let headEnd := min stop (start + rawLineKeepBytes)
  test <|
    if headEnd ≤ low + block.length then block.extract (start - low) (headEnd - low)
    else readFullAt content sp start (headEnd - start)

/-- Scans back over the first bytes of `block`: the line that completes the count, or how far the
scan got. -/
def scanBlock (low : ℕ) (block : Bytes) : ℕ → BackScan → ℕ ⊕ BackScan
  | 0, scan => .inr scan
  | index + 1, scan =>
    if block[index]? ≠ some lineFeed then scanBlock low block index scan
    else
      let lineStart := low + index + 1
      let trailing := decide (lineStart = sp.stop)
      if !trailing && counts content sp test lineStart scan.lineEnd low block then
        if wanted ≤ scan.counted + 1 then .inl lineStart
        else scanBlock low block index ⟨scan.counted + 1, lineStart - 1⟩
      else scanBlock low block index ⟨scan.counted, lineStart - 1⟩

def blockStart (high : ℕ) : ℕ := max (high - blockBytes) sp.oldest

@[irreducible] def scanBelow (high : ℕ) (scan : BackScan) : ℕ ⊕ BackScan :=
  let low := blockStart sp high
  let block := readFullAt content sp low (high - low)
  scanBlock content sp test wanted low block block.length scan

/-- Scans the blocks back from `high`.  Every turn that goes on moves down by a byte. -/
def scanBack : ℕ → ℕ → BackScan → ℕ
  | 0, _, _ => sp.oldest
  | fuel + 1, high, scan =>
    if high ≤ sp.oldest then sp.oldest
    else match scanBelow content sp test wanted high scan with
      | .inl start => start
      | .inr scan => scanBack fuel (blockStart sp high) scan

end BackScan

def newestStart {σ : Type} (vt : VtParser σ) (u : Unicode) (isErrorLine : String → Bool)
    (content : Inode → Bytes) (sp : Span) (query : LogQuery) : ℕ :=
  BackScan.scanBack content sp (query.filter.countsHead vt u isErrorLine) query.lines.1
    (sp.stop - sp.oldest) sp.stop ⟨0, sp.stop⟩

/-! ### The obvious scan -/

section Reference

variable (test : Bytes → Bool) (kept : Bytes)

def lineFrom (start : ℕ) : Bytes := (kept.drop start).takeWhile (· ≠ lineFeed)

/-- Whether a line that counts begins just past `index`: a line feed stands there, something follows
it, and the head of what follows passes. -/
def countsAfter (index : ℕ) : Bool :=
  kept[index]? = some lineFeed && index + 1 ≠ kept.length &&
    test ((lineFrom kept (index + 1)).take rawLineKeepBytes)

/-- Where the lines that count begin, oldest first. -/
def countedStarts : List ℕ := ((List.range kept.length).filter (countsAfter test kept)).map (· + 1)

/-- The positions from `first` up to `last` after which a line that counts begins, newest first. -/
def countedBack (first last : ℕ) : List ℕ :=
  (List.range' first (last - first)).reverse.filter (countsAfter test kept)

variable {test kept}

theorem lineFrom_of_feed {index : ℕ} (h : kept[index]? = some lineFeed) : lineFrom kept index = [] := by
  obtain ⟨hlt, hget⟩ := List.getElem?_eq_some_iff.1 h
  rw [lineFrom, List.drop_eq_getElem_cons hlt, hget, List.takeWhile_cons_of_neg]
  simp

theorem lineFrom_of_ne {index : ℕ} (hlt : index < kept.length) (h : kept[index]? ≠ some lineFeed) :
    lineFrom kept index = kept[index] :: lineFrom kept (index + 1) := by
  have hne : kept[index] ≠ lineFeed := fun heq => h (by rw [List.getElem?_eq_getElem hlt, heq])
  rw [lineFrom, List.drop_eq_getElem_cons hlt, List.takeWhile_cons_of_pos (by simpa using hne)]
  rfl

theorem countedBack_self (index : ℕ) : countedBack test kept index index = [] := by
  simp [countedBack]

theorem countedBack_succ {first last : ℕ} (h : first ≤ last) :
    countedBack test kept first (last + 1) =
      (if countsAfter test kept last then [last] else []) ++ countedBack test kept first last := by
  have hrange : List.range' first (last + 1 - first) = List.range' first (last - first) ++ [last] := by
    have hlast : last + 1 - first = (last - first) + 1 := by omega
    rw [hlast, List.range'_concat, Nat.one_mul]
    congr 2
    omega
  rw [countedBack, hrange, List.reverse_append, List.filter_append, countedBack]
  congr 1
  simp [List.filter_cons]

theorem countedBack_append {first middle last : ℕ} (h : first ≤ middle) (h' : middle ≤ last) :
    countedBack test kept middle last ++ countedBack test kept first middle =
      countedBack test kept first last := by
  induction last, h' using Nat.le_induction with
  | base => rw [countedBack_self, List.nil_append]
  | succ last hle ih =>
    rw [countedBack_succ hle, countedBack_succ (h.trans hle), List.append_assoc, ih]

theorem take_lineFrom (start n : ℕ) :
    (lineFrom kept start).take n = kept.extract start (start + min (lineFrom kept start).length n) := by
  have hline : lineFrom kept start = (kept.drop start).take (lineFrom kept start).length :=
    List.prefix_iff_eq_take.1 (List.takeWhile_prefix _)
  have hlength : start + min (lineFrom kept start).length n - start =
      min (lineFrom kept start).length n := by omega
  rw [List.extract_eq_take_drop, hlength, Nat.min_comm, ← List.take_take, ← hline]

end Reference

/-! ### The scan in blocks is the obvious one -/

namespace BackScan

variable {content : Inode → Bytes} {sp : Span} {S : Bytes} (test : Bytes → Bool) {wanted : ℕ}
  {b : ℕ}

theorem readFullAt_eq (h : sp.Serves content S) (a n : ℕ) :
    readFullAt content sp (sp.oldest + a) n = (S.extract sp.oldest sp.stop).extract a (a + n) := by
  rw [readFullAt, h.readToEnd n n _ _ le_rfl (Nat.le_add_right ..), extract_extract, Nat.add_assoc]

theorem length_kept (h : sp.Serves content S) :
    (S.extract sp.oldest sp.stop).length = sp.stop - sp.oldest := by
  have hstop := h.stop_le
  rw [length_extract]
  omega

theorem counts_eq (h : sp.Serves content S) {a i : ℕ} (hi : a ≤ i) (hb : i < b)
    (hstop : b ≤ (S.extract sp.oldest sp.stop).length) : counts content sp test (sp.oldest + i + 1)
        (sp.oldest + (i + 1 + (lineFrom (S.extract sp.oldest sp.stop) (i + 1)).length)) (sp.oldest + a)
        ((S.extract sp.oldest sp.stop).extract a b) =
      test ((lineFrom (S.extract sp.oldest sp.stop) (i + 1)).take rawLineKeepBytes) := by
  have hread := readFullAt_eq h (i + 1)
  generalize S.extract sp.oldest sp.stop = kept at *
  have hblock : (kept.extract a b).length = b - a := by
    rw [length_extract]
    omega
  rw [counts, take_lineFrom]
  congr 1
  set n := min (lineFrom kept (i + 1)).length rawLineKeepBytes with hn
  have hend : min (sp.oldest + (i + 1 + (lineFrom kept (i + 1)).length))
      (sp.oldest + i + 1 + rawLineKeepBytes) = sp.oldest + (i + 1) + n := by omega
  rw [hend, hblock]
  split
  · rw [extract_extract]
    congr 1 <;> omega
  · have hlength : sp.oldest + (i + 1) + n - (sp.oldest + i + 1) = n := by omega
    rw [hlength]
    exact hread n

/-- Scanning back over the positions from `a` up to `a + index`: the line that completes the count is
the one wanted of those that count there, and else all of them are counted and the scan stands in the
line `a` falls in. -/
theorem scanBlock_eq (h : sp.Serves content S) {a : ℕ}
    (hstop : b ≤ (S.extract sp.oldest sp.stop).length) {index : ℕ} (hindex : a + index ≤ b)
    (scan : BackScan) (hcounted : scan.counted < wanted) (hend : scan.lineEnd = sp.oldest +
      (a + index + (lineFrom (S.extract sp.oldest sp.stop) (a + index)).length)) :
    scanBlock content sp test wanted (sp.oldest + a) ((S.extract sp.oldest sp.stop).extract a b) index
        scan =
      match (countedBack test (S.extract sp.oldest sp.stop) a (a + index))[wanted - scan.counted - 1]? with
      | some i => .inl (sp.oldest + i + 1)
      | none => .inr ⟨scan.counted +
          (countedBack test (S.extract sp.oldest sp.stop) a (a + index)).length,
          sp.oldest + (a + (lineFrom (S.extract sp.oldest sp.stop) a).length)⟩ := by
  have hlength := length_kept h
  induction index generalizing scan with
  | zero =>
    rw [scanBlock, Nat.add_zero, countedBack_self, List.getElem?_nil, List.length_nil, Nat.add_zero,
      ← Nat.add_zero a, ← hend]
  | succ index ih =>
    have hcounts := counts_eq test h (Nat.le_add_right a index) (by omega : a + index < b) hstop
    have holdest := h.oldest_le
    generalize S.extract sp.oldest sp.stop = kept at *
    have hlt : a + index < kept.length := by omega
    have hblock : (kept.extract a b)[index]? = kept[a + index]? := getElem?_extract _ (by omega)
    rw [scanBlock, hblock, ← Nat.add_assoc a index 1, countedBack_succ (Nat.le_add_right a index)]
    by_cases hfeed : kept[a + index]? = some lineFeed
    · -- the scan goes on in the line this feed ends
      have hnext : sp.oldest + a + index + 1 - 1 =
          sp.oldest + (a + index + (lineFrom kept (a + index)).length) := by
        rw [lineFrom_of_feed hfeed, List.length_nil]
        omega
      have htrailing : decide (sp.oldest + a + index + 1 = sp.stop) =
          decide (a + index + 1 = kept.length) := decide_eq_decide.2 (by omega)
      have hafter : countsAfter test kept (a + index) = (!decide (a + index + 1 = kept.length) &&
          test ((lineFrom kept (a + index + 1)).take rawLineKeepBytes)) := by
        rw [countsAfter, decide_eq_true hfeed, Bool.true_and, decide_not]
      have hstart : sp.oldest + a + index + 1 = sp.oldest + (a + index) + 1 := by omega
      rw [if_neg (not_not_intro hfeed)]
      simp only [htrailing, hend, ← Nat.add_assoc a index 1]
      rw [hstart, hcounts, ← hafter]
      rw [hstart] at hnext
      cases countsAfter test kept (a + index) with
      | false =>
        simp only [Bool.false_eq_true, if_false, List.nil_append]
        exact ih (by omega) ⟨scan.counted, _⟩ hcounted hnext
      | true =>
        by_cases hlast : wanted ≤ scan.counted + 1
        · have hzero : wanted - scan.counted - 1 = 0 := by omega
          simp only [if_true, if_pos hlast, hzero, List.singleton_append, List.getElem?_cons_zero]
        · have hmore : wanted - scan.counted - 1 = wanted - (scan.counted + 1) - 1 + 1 := by omega
          have hcount : scan.counted + ((countedBack test kept a (a + index)).length + 1) =
              scan.counted + 1 + (countedBack test kept a (a + index)).length := by omega
          simp only [if_true, if_neg hlast, List.singleton_append, List.length_cons]
          rw [hmore, List.getElem?_cons_succ, hcount]
          exact ih (by omega) ⟨scan.counted + 1, _⟩ (Nat.lt_of_not_le hlast) hnext
    · have hafter : countsAfter test kept (a + index) = false := by
        rw [countsAfter, decide_eq_false hfeed, Bool.false_and, Bool.false_and]
      rw [if_pos hfeed, hafter]
      refine ih (by omega) scan hcounted ?_
      rw [hend, lineFrom_of_ne hlt hfeed, List.length_cons, ← Nat.add_assoc a index 1]
      omega

theorem scanBelow_eq (h : sp.Serves content S) {a : ℕ} (ha : a < b)
    (hlow : blockStart sp (sp.oldest + b) = sp.oldest + a)
    (hstop : b ≤ (S.extract sp.oldest sp.stop).length) (scan : BackScan)
    (hcounted : scan.counted < wanted)
    (hend : scan.lineEnd = sp.oldest + (b + (lineFrom (S.extract sp.oldest sp.stop) b).length)) :
    scanBelow content sp test wanted (sp.oldest + b) scan =
      match (countedBack test (S.extract sp.oldest sp.stop) a b)[wanted - scan.counted - 1]? with
      | some i => .inl (sp.oldest + i + 1)
      | none => .inr ⟨scan.counted + (countedBack test (S.extract sp.oldest sp.stop) a b).length,
          sp.oldest + (a + (lineFrom (S.extract sp.oldest sp.stop) a).length)⟩ := by
  have hb : a + (sp.oldest + b - (sp.oldest + a)) = b := by omega
  have hread : readFullAt content sp (sp.oldest + a) (sp.oldest + b - (sp.oldest + a)) =
      (S.extract sp.oldest sp.stop).extract a b := by
    rw [readFullAt_eq h, hb]
  have hlength : ((S.extract sp.oldest sp.stop).extract a b).length = b - a := by
    rw [length_extract]
    omega
  have hab : a + (b - a) = b := by omega
  have hscan := scanBlock_eq test h hstop hab.le scan hcounted (by rw [hab]; exact hend)
  rw [hab] at hscan
  unfold scanBelow
  simp only [hlow, hread, hlength]
  exact hscan

theorem scanBack_eq (h : sp.Serves content S) (fuel : ℕ) (hfuel : b ≤ fuel)
    (hstop : b ≤ (S.extract sp.oldest sp.stop).length) (scan : BackScan)
    (hcounted : scan.counted < wanted)
    (hend : scan.lineEnd = sp.oldest + (b + (lineFrom (S.extract sp.oldest sp.stop) b).length)) :
    scanBack content sp test wanted fuel (sp.oldest + b) scan =
      (((countedBack test (S.extract sp.oldest sp.stop) 0 b)[wanted - scan.counted - 1]?).map
        (sp.oldest + · + 1)).getD sp.oldest := by
  induction fuel generalizing b scan with
  | zero =>
    obtain rfl : b = 0 := by omega
    rw [scanBack, countedBack_self, List.getElem?_nil, Option.map_none, Option.getD_none]
  | succ fuel ih =>
    rw [scanBack]
    split
    · obtain rfl : b = 0 := by omega
      rw [countedBack_self, List.getElem?_nil, Option.map_none, Option.getD_none]
    · rename_i hhigh
      -- the block reaches from `a` up to `b`
      obtain ⟨a, ha, hlow⟩ : ∃ a < b, blockStart sp (sp.oldest + b) = sp.oldest + a := by
        refine ⟨b - blockBytes, ?_, ?_⟩
        · have hblock : 0 < blockBytes := by decide
          omega
        · rw [blockStart]
          omega
      rw [scanBelow_eq test h ha hlow hstop scan hcounted hend, hlow,
        ← countedBack_append (Nat.zero_le a) ha.le]
      cases hfound : (countedBack test (S.extract sp.oldest sp.stop) a b)[
          wanted - scan.counted - 1]? with
      | some i =>
        obtain ⟨hlt, -⟩ := List.getElem?_eq_some_iff.1 hfound
        rw [List.getElem?_append_left hlt, hfound, Option.map_some, Option.getD_some]
      | none =>
        have hshort := List.getElem?_eq_none_iff.1 hfound
        have hleft : wanted - scan.counted - 1 -
            (countedBack test (S.extract sp.oldest sp.stop) a b).length =
              wanted - (scan.counted +
                (countedBack test (S.extract sp.oldest sp.stop) a b).length) - 1 := by omega
        rw [List.getElem?_append_right hshort, hleft]
        exact ih (by omega) (by omega) ⟨_, _⟩ (by dsimp only; omega) rfl

end BackScan

/-! ### Every span of two pieces -/

def keptBytes (content : Inode → Bytes) (sp : Span) : Bytes :=
  sp.pieces.flatMap fun piece => ((content piece.file).drop piece.skip).take piece.len

theorem serves_ofOpened (base : ℕ) {content : Inode → Bytes} {rotated live : Option Generation}
    (hrotated : ∀ g ∈ rotated, g.len ≤ (content g.inode).length)
    (hlive : ∀ g ∈ live, g.len ≤ (content g.inode).length) :
    (Span.ofOpened base rotated live).Serves content
        (List.replicate (Span.ofOpened base rotated live).oldest 0 ++
          keptBytes content (Span.ofOpened base rotated live)) ∧
      (Span.ofOpened base rotated live).stop = (Span.ofOpened base rotated live).oldest +
        (keptBytes content (Span.ofOpened base rotated live)).length := by
  have holder : ∀ g ∈ rotated, (((content g.inode).drop (g.len - min g.len base)).take
      (min g.len base)).length = min g.len base := by
    intro g hg
    have hlen := hrotated g hg
    rw [List.length_take, List.length_drop]
    omega
  have hnewer : ∀ g ∈ live, ((content g.inode).take g.len).length = g.len := fun g hg =>
    List.length_take_of_le (hlive g hg)
  cases rotated with
  | none =>
    cases live with
    | none =>
      refine ⟨⟨?_, ?_, ?_, ?_⟩, ?_⟩ <;> simp [Span.ofOpened, keptBytes]
    | some a =>
      have hlength := hnewer a rfl
      refine ⟨⟨?_, ?_, ?_, ?_⟩, ?_⟩ <;>
        simp [Span.ofOpened, keptBytes, Span.livePiece, Piece.holds_iff, Piece.stop, hlength,
          -List.length_take]
  | some r =>
    have hlength := holder r rfl
    have hleast : min r.len base ≤ base := Nat.min_le_right ..
    cases live with
    | none =>
      refine ⟨⟨?_, ?_, ?_, ?_⟩, ?_⟩ <;>
        simp [Span.ofOpened, keptBytes, Span.rotatedPiece, Piece.holds_iff, Piece.stop, hlength,
          -List.length_take]
    | some a =>
      have hlength' := hnewer a rfl
      have hbefore : (List.replicate (base - min r.len base) 0 ++
          ((content r.inode).drop (r.len - min r.len base)).take (min r.len base)).length = base := by
        rw [List.length_append, List.length_replicate, hlength]
        omega
      have hafter : (List.replicate (base - min r.len base) 0 ++
          (((content r.inode).drop (r.len - min r.len base)).take (min r.len base) ++
            (content a.inode).take a.len)).drop base = (content a.inode).take a.len := by
        rw [← List.append_assoc, List.drop_left' hbefore]
      refine ⟨⟨?_, ?_, ?_, ?_⟩, ?_⟩ <;>
        simp [Span.ofOpened, keptBytes, Span.rotatedPiece, Span.livePiece, Piece.holds_iff, Piece.stop,
          hlength, hlength', hafter, List.extract_eq_take_drop, -List.length_take] <;> omega

theorem getElem?_reverse_countedStarts (test : Bytes → Bool) (kept : Bytes) (n : ℕ) :
    (countedStarts test kept).reverse[n]? =
      ((countedBack test kept 0 kept.length)[n]?).map (· + 1) := by
  rw [countedStarts, countedBack, Nat.sub_zero, ← List.range_eq_range', List.filter_reverse,
    ← List.map_reverse, List.getElem?_map]

/-- **The backward scan is the obvious one.**  For every two files, wherever the one starts, the
newest lines begin at the line wanted from the end of those that count, or at the oldest byte. -/
theorem newestStart_eq {σ : Type} (vt : VtParser σ) (u : Unicode) (isErrorLine : String → Bool)
    {content : Inode → Bytes} {base : ℕ} {rotated live : Option Generation}
    (hrotated : ∀ g ∈ rotated, g.len ≤ (content g.inode).length)
    (hlive : ∀ g ∈ live, g.len ≤ (content g.inode).length) (query : LogQuery) :
    newestStart vt u isErrorLine content (Span.ofOpened base rotated live) query =
      (((countedStarts (query.filter.countsHead vt u isErrorLine)
          (keptBytes content (Span.ofOpened base rotated live))).reverse[query.lines.1 - 1]?).map
        ((Span.ofOpened base rotated live).oldest + ·)).getD
          (Span.ofOpened base rotated live).oldest := by
  obtain ⟨hserves, hstop⟩ := serves_ofOpened base hrotated hlive
  generalize Span.ofOpened base rotated live = sp at *
  have hkept : (List.replicate sp.oldest 0 ++ keptBytes content sp).extract sp.oldest sp.stop =
      keptBytes content sp := by
    have happend := extract_append_length (List.replicate sp.oldest 0) (keptBytes content sp)
    rw [List.length_replicate] at happend
    rw [hstop, happend]
  have hline : lineFrom (keptBytes content sp) (keptBytes content sp).length = [] := by
    rw [lineFrom, List.drop_length]
    rfl
  have hscan := BackScan.scanBack_eq (query.filter.countsHead vt u isErrorLine) hserves
    (sp.stop - sp.oldest) (b := (keptBytes content sp).length) (by omega) (by rw [hkept])
    ⟨0, sp.stop⟩ query.lines.2.1 (by rw [hkept, hline, hstop]; rfl)
  rw [hkept, ← hstop] at hscan
  rw [newestStart, hscan, getElem?_reverse_countedStarts, Option.map_map]
  rfl

def byteParser : VtParser Unit where
  step _ byte := ((), [if byte < 0x20 then .execute byte else .print (Char.ofNat byte.toNat)])
  init := ()
  lineFeed_of_execute := by
    intro _ byte h
    rw [List.mem_singleton] at h
    split at h <;> cases h
    rfl

def singleWidth : Unicode := ⟨fun _ => some 1, fun _ => false⟩

/-- The two newest of the lines "a", "b", "c" over two files, the second of which starts inside "b". -/
theorem newestStart_eq_of_two :
    newestStart byteParser singleWidth (fun _ => false)
        (fun file => if file = 0 then [97, 10, 98] else [98, 10, 99, 10])
        (Span.ofOpened 7 (some ⟨0, 3⟩) (some ⟨1, 4⟩))
        ⟨none, ⟨2, by decide⟩, .all, ⟨1, by decide⟩⟩ = 6 :=
  (newestStart_eq byteParser singleWidth (fun _ => false) (by simp) (by simp) _).trans (by decide)

end Muster.Holder
