import Mathlib.Tactic.Set
import Muster.Holder.Protocol
import Muster.Log.RotatingLog

/-!
# Reader — a holder connection's reader, from its frames to its sink

The reader forwards the holder's frames to its sink.  Output that a resync dropped it reads back
from the log, in bounded pieces, while the log keeps rotating underneath.  `Reader.run` is the
thread's loop over what it reads from the socket; each catch-up gets the log as its successive reads
find it.  `logged_bytes_sent_once` is what the whole loop delivers.
-/

namespace Muster.Holder

open Muster.Log
open Muster.Supervisor (ExitOutcome)

def catchUpChunkBytes : ℕ := 64 * 1024

/-- What the log keeps of its stream as one read opens it. -/
structure Shelf where
  oldest : ℕ
  stop : ℕ
deriving DecidableEq, Repr

/-- `read_log_range` on a log of the stream `S` that keeps `shelf` of it: the bytes from `first` up
to `last`, at most `most` of them, and where they start. -/
def Shelf.readRange (S : Bytes) (shelf : Shelf) (first last most : ℕ) : ℕ × Bytes :=
  let start := max first shelf.oldest
  (start, S.extract start (min (min last shelf.stop) (start + most)))

/-- What one turn of a catch-up finds: whether the handle was dropped, and the log, none when it
cannot be read. -/
structure Look where
  detached : Bool
  log : Option Shelf
deriving DecidableEq, Repr

/-- What the reader sends to its sink. -/
inductive ProcessOutput where
  | placed (start : ℕ) (bytes : Bytes)
  | unlogged (bytes : Bytes)
  | repaint (bytes : Bytes) (size : PtySize)
  | exited (outcome : ExitOutcome)
  | unreadable (text : String)
  | warning (text : String)
  | attached (count : ℕ)
deriving DecidableEq, Repr

def ProcessOutput.chunk : ProcessOutput → Option (ℕ × Bytes)
  | placed first bytes => some (first, bytes)
  | _ => none

def holderLost : String := "the holder stopped serving without reporting an exit"

/-- What the socket gave: a message, a frame that cannot be decoded, or the end of the connection,
with whether the handle was dropped by then and whether the holder still serves its socket. -/
inductive Incoming where
  | message (message : HolderMessage)
  | undecodable (text : String)
  | closed (detached serves : Bool)
deriving DecidableEq, Repr

/-- A log read a catch-up made: the range it asked for and the oldest byte kept then. -/
structure LogRead where
  first : ℕ
  last : ℕ
  oldest : ℕ
deriving DecidableEq, Repr

structure Reader where
  /-- Whether the child's log is known. -/
  log : Bool
  /-- Where the output forwarded so far ends. -/
  delivered : ℕ
  /-- Everything sent to the sink, oldest first. -/
  sent : List ProcessOutput
  exitHeld : Bool
  /-- Set once the thread has returned. -/
  ended : Bool
  /-- The log reads made, which no step looks at. -/
  reads : List LogRead
deriving DecidableEq, Repr

namespace Reader

/-- The reader of a connection whose greeting placed the log's end at `logEnd`, its replay over. -/
def start (log : Bool) (logEnd : ℕ) : Reader := ⟨log, logEnd, [], false, false, []⟩

def send (r : Reader) (output : ProcessOutput) : Reader := { r with sent := r.sent ++ [output] }

def forward (r : Reader) (first : ℕ) (bytes : Bytes) : Reader :=
  { r with delivered := max r.delivered (first + bytes.length) }.send (.placed first bytes)

def noteRead (r : Reader) (next last : ℕ) (shelf : Shelf) : Reader :=
  { r with reads := r.reads ++ [⟨next, last, shelf.oldest⟩] }

/-- Forwards what the log holds from `next` up to `last`, in pieces.  Every turn that goes on has
read a byte, so `last - next` turns are enough. -/
def forwardLogged (S : Bytes) (looks : ℕ → Look) (last : ℕ) : ℕ → ℕ → ℕ → Reader → Reader
  | 0, _, _, r => r
  | fuel + 1, turn, next, r =>
    if next < last && !(looks turn).detached then
      match (looks turn).log with
      | none => r
      | some shelf =>
        let (first, bytes) := shelf.readRange S next last catchUpChunkBytes
        if bytes = [] then r.noteRead next last shelf
        else
          forwardLogged S looks last fuel (turn + 1) (first + bytes.length)
            ((r.noteRead next last shelf).forward first bytes)
    else r

/-- Forwards the output a resync dropped: from what was forwarded up to `logEnd`. -/
def catchUp (S : Bytes) (looks : ℕ → Look) (r : Reader) (logEnd : ℕ) : Reader :=
  if r.log then r.forwardLogged S looks logEnd (logEnd - r.delivered) 0 r.delivered else r

def take (S : Bytes) (r : Reader) (incoming : Incoming) (looks : ℕ → Look) : Reader :=
  if r.ended then r
  else match incoming with
    | .message (.snapshot repaint size _ attached _ logEnd) =>
      ((r.catchUp S looks logEnd).send (.repaint repaint size)).send (.attached attached)
    | .message (.output first bytes) => r.forward first bytes
    | .message (.exited outcome) =>
      { { r with exitHeld := true }.send (.exited outcome) with ended := true }
    | .message (.unlogged bytes) => r.send (.unlogged bytes)
    | .message (.warning text) => r.send (.warning text)
    | .message (.attached count) => r.send (.attached count)
    | .message (.rejected _) => r
    | .undecodable text => { r.send (.unreadable text) with ended := true }
    | .closed detached serves =>
      let told := if !detached && !serves then r.send (.unreadable holderLost) else r
      { told with ended := true }

def run (S : Bytes) : Reader → List (Incoming × (ℕ → Look)) → Reader
  | r, [] => r
  | r, (incoming, looks) :: rest => run S (r.take S incoming looks) rest

def chunks (r : Reader) : List (ℕ × Bytes) := r.sent.filterMap ProcessOutput.chunk

end Reader

/-! ### What the holder sends, and what the log answers -/

namespace Incoming

/-- Where the frames end after this one, having ended at `reached` before it. -/
def stop (reached : ℕ) : Incoming → ℕ
  | message (.snapshot _ _ _ _ _ logEnd) => logEnd
  | message (.output first bytes) => first + bytes.length
  | _ => reached

def ends : Incoming → Bool
  | message (.exited _) | undecodable _ | closed _ _ => true
  | _ => false

/-- What a frame may be after frames that ended at `reached`: output goes on from there and carries
the log's bytes; a snapshot's log end may lie further on, the frames before it dropped. -/
def Fits (S : Bytes) (reached : ℕ) : Incoming → Prop
  | message (.snapshot _ _ _ _ _ logEnd) => reached ≤ logEnd
  | message (.output first bytes) =>
    first = reached ∧ bytes = S.extract first (first + bytes.length)
  | _ => True

/-- The log reads of the frame's catch-up succeed, on a log that holds the stream at least as far
as the snapshot says. -/
def Served (S : Bytes) (looks : ℕ → Look) : Incoming → Prop
  | message (.snapshot _ _ _ _ _ logEnd) =>
    ∀ turn, ∃ shelf, (looks turn).log = some shelf ∧ logEnd ≤ shelf.stop ∧ shelf.stop ≤ S.length
  | _ => True

end Incoming

def Tiled (S : Bytes) : ℕ → List Incoming → Prop
  | _, [] => True
  | reached, i :: rest => i.Fits S reached ∧ Tiled S (i.stop reached) rest

def lastEnd : ℕ → List Incoming → ℕ
  | reached, [] => reached
  | reached, i :: rest => if i.ends then reached else lastEnd (i.stop reached) rest

/-! ### What is sent -/

namespace Reader

variable {S : Bytes} {d n : ℕ} {r : Reader} {bytes : Bytes} {o last : ℕ} {looks : ℕ → Look}

@[simp] theorem chunks_send (r : Reader) (o : ProcessOutput) :
    (r.send o).chunks = r.chunks ++ o.chunk.toList := by
  cases h : o.chunk <;> simp [chunks, send, List.filterMap_append, h]

/-- The offset is in a chunk sent, or a catch-up read it when it was older than the oldest byte
kept. -/
def Covered (r : Reader) (o : ℕ) : Prop :=
  (∃ c ∈ r.chunks, c.1 ≤ o ∧ o < c.1 + c.2.length) ∨
    ∃ read ∈ r.reads, read.first ≤ o ∧ o < read.last ∧ o < read.oldest

/-- What was sent: chunks of the stream, each from where the one before it ended or later, and
`delivered` at the end of the last. -/
structure Sound (S : Bytes) (d : ℕ) (r : Reader) : Prop where
  apart : r.chunks.Pairwise fun c c' => c.1 + c.2.length ≤ c'.1
  logged : ∀ c ∈ r.chunks, c.2 = S.extract c.1 (c.1 + c.2.length)
  inside : ∀ c ∈ r.chunks, c.1 + c.2.length ≤ r.delivered
  last : r.delivered = (r.chunks.getLast?.map fun c => c.1 + c.2.length).getD d

theorem Sound.congr (h : r.Sound S d) {r' : Reader} (hc : r'.chunks = r.chunks)
    (hd : r'.delivered = r.delivered) : r'.Sound S d := by
  refine ⟨?_, ?_, ?_, ?_⟩ <;> rw [hc]
  · exact h.apart
  · exact h.logged
  · rw [hd]
    exact h.inside
  · rw [hd]
    exact h.last

theorem Sound.forward (h : r.Sound S d) {first : ℕ} (hfirst : r.delivered ≤ first)
    (hbytes : bytes = S.extract first (first + bytes.length)) : (r.forward first bytes).Sound S d := by
  have hchunks : (r.forward first bytes).chunks = r.chunks ++ [(first, bytes)] := chunks_send ..
  have hdelivered : (r.forward first bytes).delivered = first + bytes.length :=
    Nat.max_eq_right (by omega)
  refine ⟨?_, ?_, ?_, ?_⟩ <;> rw [hchunks]
  · refine List.pairwise_append.mpr ⟨h.apart, List.pairwise_singleton .., fun c hc c' hc' => ?_⟩
    rw [List.mem_singleton.mp hc']
    exact Nat.le_trans (h.inside c hc) hfirst
  · intro c hc
    rcases List.mem_append.mp hc with hc | hc
    · exact h.logged c hc
    · rwa [List.mem_singleton.mp hc]
  · intro c hc
    rw [hdelivered]
    rcases List.mem_append.mp hc with hc | hc
    · have := h.inside c hc
      omega
    · exact Nat.le_of_eq (by rw [List.mem_singleton.mp hc])
  · simp [hdelivered]

theorem Covered.forward (h : r.Covered o) (first : ℕ) (bytes : Bytes) :
    (r.forward first bytes).Covered o := by
  refine h.imp (fun ⟨c, hc, hin⟩ => ⟨c, ?_, hin⟩) id
  rw [show (r.forward first bytes).chunks = r.chunks ++ _ from chunks_send ..]
  exact List.mem_append_left _ hc

theorem covered_forward {first : ℕ} (hfirst : first ≤ o)
    (ho : o < first + bytes.length) : (r.forward first bytes).Covered o := by
  refine Or.inl ⟨(first, bytes), ?_, hfirst, ho⟩
  rw [show (r.forward first bytes).chunks = r.chunks ++ _ from chunks_send ..]
  exact List.mem_append_right _ (List.mem_singleton_self _)

theorem Covered.noteRead (h : r.Covered o) (next last : ℕ) (shelf : Shelf) :
    (r.noteRead next last shelf).Covered o :=
  h.imp id fun ⟨read, hread, hin⟩ => ⟨read, List.mem_append_left _ hread, hin⟩

theorem covered_noteRead {next : ℕ} {shelf : Shelf} (hnext : next ≤ o) (hlast : o < last)
    (ho : o < shelf.oldest) : (r.noteRead next last shelf).Covered o :=
  Or.inr ⟨_, List.mem_append_right _ (List.mem_singleton_self _), hnext, hlast, ho⟩

/-- What a read of a shelf that reaches `last` gives: a stretch of the stream up to `last` at most,
empty only when all of the range was rotated away. -/
theorem readRange_spec {shelf : Shelf} {next : ℕ} (hlt : next < last)
    (hheld : last ≤ shelf.stop) (hlen : shelf.stop ≤ S.length) :
    ∃ bytes, shelf.readRange S next last catchUpChunkBytes = (max next shelf.oldest, bytes) ∧
      bytes = S.extract (max next shelf.oldest) (max next shelf.oldest + bytes.length) ∧
      (bytes = [] → last ≤ shelf.oldest) ∧
      (bytes ≠ [] → max next shelf.oldest + bytes.length ≤ last) := by
  refine ⟨_, rfl, ?_⟩
  set start := max next shelf.oldest with hstart
  set stop := min (min last shelf.stop) (start + catchUpChunkBytes) with hstop
  have hchunk : 0 < catchUpChunkBytes := by decide
  have hlength : (S.extract start stop).length = stop - start := by
    rw [length_extract]
    omega
  refine ⟨?_, fun hnil => ?_, fun hne => ?_⟩
  · rw [hlength]
    by_cases hle : start ≤ stop
    · rw [Nat.add_sub_cancel' hle]
    · rw [extract_of_le _ (by omega), extract_of_le _ (by omega)]
  · rw [hnil, List.length_nil] at hlength
    omega
  · have := List.length_pos_of_ne_nil hne
    omega

/-- **The catch-up loop.**  From where delivery stands up to `last` it sends chunks of the stream
only, and when no turn finds the handle dropped it covers all of that range. -/
theorem forwardLogged_spec
    (hserved : ∀ turn, ∃ shelf, (looks turn).log = some shelf ∧ last ≤ shelf.stop ∧
      shelf.stop ≤ S.length) :
    ∀ (fuel turn : ℕ) (r : Reader), r.Sound S d → r.delivered ≤ last → last - r.delivered ≤ fuel →
      let r' := r.forwardLogged S looks last fuel turn r.delivered
      r'.Sound S d ∧ r'.delivered ≤ last ∧ r'.log = r.log ∧ r'.ended = r.ended ∧
        (∀ o, r.Covered o → r'.Covered o) ∧
        ((∀ turn, (looks turn).detached = false) →
          ∀ o, r.delivered ≤ o → o < last → r'.Covered o)
  | 0, _, r, h, hle, hfuel => by
    refine ⟨h, hle, rfl, rfl, fun _ => id, fun _ o ho hlt => ?_⟩
    omega
  | fuel + 1, turn, r, h, hle, hfuel => by
    simp only [forwardLogged]
    split
    · next hgo =>
      have hlt : r.delivered < last := by simp at hgo; exact hgo.1
      obtain ⟨shelf, hlog, hheld, hlen⟩ := hserved turn
      obtain ⟨bytes, hread, hbytes, hempty, hmore⟩ := readRange_spec hlt hheld hlen
      simp only [hlog, hread]
      split
      · next hnil =>
        -- all of the rest was rotated away
        have hold := hempty hnil
        exact ⟨h.congr rfl rfl, hle, rfl, rfl, fun o ho => ho.noteRead .., fun _ o ho hlt =>
          covered_noteRead ho hlt (by omega)⟩
      · next hne =>
        have hstop := hmore hne
        have hpos := List.length_pos_of_ne_nil hne
        set first := max r.delivered shelf.oldest with hfirst
        have hsound : ((r.noteRead r.delivered last shelf).forward first bytes).Sound S d :=
          Sound.forward (r := r.noteRead r.delivered last shelf) (h.congr rfl rfl)
            (Nat.le_max_left _ _) hbytes
        have hdelivered : ((r.noteRead r.delivered last shelf).forward first bytes).delivered =
            first + bytes.length := Nat.max_eq_right (show r.delivered ≤ _ by omega)
        obtain ⟨h1, h2, h3, h4, h5, h6⟩ := forwardLogged_spec hserved fuel (turn + 1) _ hsound
          (by omega) (by omega)
        rw [hdelivered] at h1 h2 h3 h4 h5 h6
        refine ⟨h1, h2, h3, h4, fun o ho => h5 o ((ho.noteRead ..).forward ..),
          fun hkept o ho hlast => ?_⟩
        by_cases hpast : first + bytes.length ≤ o
        · exact h6 hkept o hpast hlast
        · -- in the piece just sent, or in the gap before it
          refine h5 o ?_
          by_cases hin : first ≤ o
          · exact covered_forward hin (by omega)
          · exact (covered_noteRead ho hlast (by omega)).forward ..
    · next hstop =>
      refine ⟨h, hle, rfl, rfl, fun _ => id, fun hkept o ho hlt => ?_⟩
      simp [hkept turn] at hstop
      omega

/-- What the reader has done with frames that ended at `n`: what was sent is sound and lies before
`n`, and while the handle was `kept` everything up to `n` is covered. -/
structure Delivers (S : Bytes) (d n : ℕ) (kept : Prop) (r : Reader) : Prop where
  sound : r.Sound S d
  log : r.log = true
  reached : r.delivered ≤ n
  covers : kept → ∀ o, d ≤ o → o < n → r.Covered o

variable {kept : Prop}

theorem Delivers.congr (h : r.Delivers S d n kept) {r' : Reader} (hc : r'.chunks = r.chunks)
    (hd : r'.delivered = r.delivered) (hl : r'.log = r.log) (hr : r'.reads = r.reads) :
    r'.Delivers S d n kept := by
  refine ⟨h.sound.congr hc hd, hl.trans h.log, hd ▸ h.reached, fun hk o h1 h2 => ?_⟩
  have := h.covers hk o h1 h2
  rwa [Covered, hc, hr]

theorem Delivers.send (h : r.Delivers S d n kept) {o : ProcessOutput} (ho : o.chunk = none) :
    (r.send o).Delivers S d n kept :=
  h.congr (by simp [ho]) rfl rfl rfl

theorem Delivers.forward (h : r.Delivers S d n kept)
    (hbytes : bytes = S.extract n (n + bytes.length)) :
    (r.forward n bytes).Delivers S d (n + bytes.length) kept := by
  have hreached := h.reached
  refine ⟨h.sound.forward hreached hbytes, h.log, Nat.max_le.mpr ⟨by omega, Nat.le_refl _⟩,
    fun hk o h1 h2 => ?_⟩
  by_cases hpast : n ≤ o
  · exact covered_forward hpast h2
  · exact (h.covers hk o h1 (by omega)).forward ..

theorem Delivers.catchUp (h : r.Delivers S d n kept) {logEnd : ℕ}
    (hle : n ≤ logEnd) (hkept : kept → ∀ turn, (looks turn).detached = false)
    (hserved : ∀ turn, ∃ shelf, (looks turn).log = some shelf ∧ logEnd ≤ shelf.stop ∧
      shelf.stop ≤ S.length) : (r.catchUp S looks logEnd).Delivers S d logEnd kept ∧
      (r.catchUp S looks logEnd).ended = r.ended := by
  have hreached := h.reached
  obtain ⟨h1, h2, h3, h4, h5, h6⟩ := forwardLogged_spec hserved (logEnd - r.delivered) 0 r h.sound
    (by omega) (Nat.le_refl _)
  rw [Reader.catchUp, if_pos h.log]
  refine ⟨⟨h1, h3.trans h.log, h2, fun hk o ho hlt => ?_⟩, h4⟩
  by_cases hpast : r.delivered ≤ o
  · exact h6 (hkept hk) o hpast hlt
  · exact h5 o (h.covers hk o ho (by omega))

/-- **One turn of the loop.** -/
theorem Delivers.take (h : r.Delivers S d n kept) (hgoes : r.ended = false) {i : Incoming}
    (hfits : i.Fits S n) (hserved : i.Served S looks)
    (hkept : kept → ∀ turn, (looks turn).detached = false) :
    (r.take S i looks).Delivers S d (if i.ends then n else i.stop n) kept ∧
      (r.take S i looks).ended = i.ends := by
  simp only [Reader.take, hgoes, Bool.false_eq_true, if_false]
  cases i with
  | message m =>
    cases m with
    | snapshot repaint size pid attached runStart logEnd =>
      obtain ⟨hcaught, hended⟩ := h.catchUp hfits hkept hserved
      exact ⟨(hcaught.send rfl).send rfl, hended.trans hgoes⟩
    | output first bytes =>
      obtain ⟨rfl, hbytes⟩ := hfits
      exact ⟨h.forward hbytes, hgoes⟩
    | exited outcome =>
      exact ⟨h.congr (by simp [chunks, Reader.send, ProcessOutput.chunk]) rfl rfl rfl, rfl⟩
    | rejected reason => exact ⟨h, hgoes⟩
    | unlogged bytes => exact ⟨h.send rfl, hgoes⟩
    | warning text => exact ⟨h.send rfl, hgoes⟩
    | attached count => exact ⟨h.send rfl, hgoes⟩
  | undecodable text => exact ⟨(h.send (o := .unreadable text) rfl).congr rfl rfl rfl rfl, rfl⟩
  | closed detached serves =>
    have htold : (if !detached && !serves then r.send (.unreadable holderLost) else r).Delivers
        S d n kept := by
      split
      · exact h.send rfl
      · exact h
    exact ⟨htold.congr rfl rfl rfl rfl, rfl⟩

theorem run_ended : ∀ (feed : List (Incoming × (ℕ → Look))) (r : Reader), r.ended = true →
    r.run S feed = r
  | [], _, _ => rfl
  | (i, looks) :: rest, r, h => by
    simp only [run, take, h, if_true]
    exact run_ended rest r h

/-- **The whole loop.**  Frame by frame, until one ends it. -/
theorem Delivers.run : ∀ (feed : List (Incoming × (ℕ → Look))) {r : Reader} {n : ℕ},
    r.Delivers S d n kept → r.ended = false → Tiled S n (feed.map Prod.fst) →
    (∀ p ∈ feed, p.1.Served S p.2) →
    (kept → ∀ p ∈ feed, ∀ turn, (p.2 turn).detached = false) →
    (r.run S feed).Delivers S d (lastEnd n (feed.map Prod.fst)) kept
  | [], _, _, h, _, _, _, _ => h
  | (i, looks) :: rest, r, n, h, hgoes, htiled, hserved, hkept => by
    obtain ⟨htaken, hended⟩ := h.take hgoes htiled.1 (hserved _ (List.mem_cons_self ..))
      fun hk => hkept hk _ (List.mem_cons_self ..)
    simp only [Reader.run, List.map_cons, lastEnd]
    cases hi : i.ends with
    | true =>
      rw [run_ended rest _ (hended.trans hi)]
      simpa [hi] using htaken
    | false =>
      simp only [hi, Bool.false_eq_true, if_false] at htaken ⊢
      exact Delivers.run rest htaken (hended.trans hi) htiled.2
        (fun p hp => hserved p (List.mem_cons_of_mem _ hp))
        fun hk p hp => hkept hk p (List.mem_cons_of_mem _ hp)

theorem start_delivers (S : Bytes) (d : ℕ) (kept : Prop) : (start true d).Delivers S d d kept where
  sound := ⟨List.Pairwise.nil, (fun _ hc => nomatch hc), (fun _ hc => nomatch hc), rfl⟩
  log := rfl
  reached := Nat.le_refl d
  covers := fun _ o h1 h2 => absurd h1 (by omega)

/-- **The supervisor sees every logged byte once.**  However the holder drops frames before its
snapshots and however the log rotates under the catch-ups: the chunks sent never overlap and are the
log's bytes at their places; while the handle is kept, every offset up to the last frame's end is in
one of them, unless it was rotated away before the catch-up that read for it; and `delivered` is the
end of the last chunk. -/
theorem logged_bytes_sent_once (S : Bytes) (d : ℕ) (feed : List (Incoming × (ℕ → Look)))
    (hframes : Tiled S d (feed.map Prod.fst)) (hreads : ∀ p ∈ feed, p.1.Served S p.2) :
    let r := (start true d).run S feed
    (r.chunks.Pairwise fun c c' => c.1 + c.2.length ≤ c'.1) ∧
    (∀ c ∈ r.chunks, c.2 = S.extract c.1 (c.1 + c.2.length)) ∧
    ((∀ p ∈ feed, ∀ turn, (p.2 turn).detached = false) →
      ∀ o, d ≤ o → o < lastEnd d (feed.map Prod.fst) →
        (∃ c ∈ r.chunks, c.1 ≤ o ∧ o < c.1 + c.2.length) ∨
        ∃ read ∈ r.reads, read.first ≤ o ∧ o < read.last ∧ o < read.oldest) ∧
    r.delivered = (r.chunks.getLast?.map fun c => c.1 + c.2.length).getD d := by
  have h := Delivers.run feed (start_delivers S d _) rfl hframes hreads id
  exact ⟨h.sound.apart, h.sound.logged, h.covers, h.sound.last⟩

/-- Six bytes logged; after one frame the holder drops output and resyncs at five, when the log has
rotated up to three. -/
def droppedFeed : List (Incoming × (ℕ → Look)) :=
  [(.message (.output 1 [2]), fun _ => ⟨false, none⟩),
    (.message (.snapshot [] ⟨24, 80⟩ 7 0 0 5), fun _ => ⟨false, some ⟨3, 6⟩⟩),
    (.message (.output 5 [6]), fun _ => ⟨false, none⟩)]

theorem logged_bytes_sent_once_rotated :
    ((start true 1).run [1, 2, 3, 4, 5, 6] droppedFeed).chunks = [(1, [2]), (3, [4, 5]), (5, [6])] ∧
    ((start true 1).run [1, 2, 3, 4, 5, 6] droppedFeed).delivered = 6 ∧
    ∃ read ∈ ((start true 1).run [1, 2, 3, 4, 5, 6] droppedFeed).reads,
      read.first ≤ 2 ∧ 2 < read.last ∧ 2 < read.oldest := by
  have hframes : Tiled [1, 2, 3, 4, 5, 6] 1 (droppedFeed.map Prod.fst) := by
    refine ⟨⟨rfl, by decide⟩, ?_, ⟨rfl, by decide⟩, trivial⟩
    show (2 : ℕ) ≤ 5
    decide
  have hreads : ∀ p ∈ droppedFeed, p.1.Served [1, 2, 3, 4, 5, 6] p.2 := by
    intro p hp
    simp only [droppedFeed, List.mem_cons, List.not_mem_nil, or_false] at hp
    rcases hp with rfl | rfl | rfl
    · trivial
    · exact fun _ => ⟨⟨3, 6⟩, rfl, by decide, by decide⟩
    · trivial
  obtain ⟨-, -, hcovers, hdelivered⟩ := logged_bytes_sent_once _ 1 droppedFeed hframes hreads
  have hchunks : ((start true 1).run [1, 2, 3, 4, 5, 6] droppedFeed).chunks =
      [(1, [2]), (3, [4, 5]), (5, [6])] := by decide
  refine ⟨hchunks, by rw [hdelivered, hchunks]; rfl, ?_⟩
  rcases hcovers (by simp [droppedFeed]) 2 (by decide) (by decide) with ⟨c, hc, h1, h2⟩ | h
  · rw [hchunks] at hc
    simp only [List.mem_cons, List.not_mem_nil, or_false] at hc
    rcases hc with rfl | rfl | rfl <;> simp at h1 h2
  · exact h

end Reader

end Muster.Holder
