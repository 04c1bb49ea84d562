import Mathlib.Data.Countable.Basic
import Mathlib.Logic.Equiv.List
import Mathlib.Tactic.DeriveCountable
import Muster.Holder.Wire
import Muster.Lib.Source
import Muster.Terminal.Repaint

/-!
# Codec — both directions of the socket, read back

A reader gets its bytes in reads of any sizes.  It asks for a frame's header, refuses it on what the
header alone says, and then asks for the payload; the frame is decoded as a message of the direction
it came from.
-/

namespace Muster.Holder

open Muster.Log (Bytes)
open Muster.BigEndian
open Muster.Supervisor (ExitOutcome)

/-! ### Frames from reads of any sizes -/

def headerBytes : ℕ := 5

/-- Reads one frame; what is left stands after the last byte read, whether or not there is one. -/
def readFrameFrom (source : Source UInt8) : Except FrameError Frame × Source UInt8 :=
  let (header, after) := source.fill headerBytes
  if header.length ≠ headerBytes then (.error .unexpectedEof, after)
  else match FrameTag.fromRepr (header.headD 0) with
  | none => (.error .unknownTag, after)
  | some tag =>
    let length := ofBytes header.tail
    if length > maxFrameBytes then (.error .oversizedPayload, after)
    else
      let (payload, left) := after.fill length
      if payload.length ≠ length then (.error .unexpectedEof, left) else (.ok ⟨tag, payload⟩, left)

/-- Reads of any sizes give the frame the bytes give read at once, and leave what they leave. -/
theorem readFrameFrom_eq (source : Source UInt8) :
    (readFrameFrom source).1 = (readFrame source.content).map Prod.fst ∧
      ∀ frame rest, readFrame source.content = .ok (frame, rest) →
        (readFrameFrom source).2.content = rest := by
  unfold readFrameFrom
  simp only [Source.fill_fst, Source.content_fill]
  cases hwire : source.content with
  | nil => exact ⟨rfl, fun _ _ h => by cases h⟩
  | cons byte wire =>
    have hlength : (List.take headerBytes (byte :: wire)).length ≠ headerBytes ↔
        wire.length < lengthBytes := by
      simp only [List.length_take, List.length_cons, headerBytes, lengthBytes]
      omega
    have hhead : (List.take headerBytes (byte :: wire)).headD 0 = byte := rfl
    have htail : (List.take headerBytes (byte :: wire)).tail = wire.take lengthBytes := rfl
    have hdrop : List.drop headerBytes (byte :: wire) = wire.drop lengthBytes := rfl
    simp only [hlength, hhead, htail, hdrop, readFrame]
    split
    · exact ⟨rfl, fun _ _ h => by cases h⟩
    cases FrameTag.fromRepr byte with
    | none => exact ⟨rfl, fun _ _ h => by cases h⟩
    | some tag =>
      dsimp only
      split
      · exact ⟨rfl, fun _ _ h => by cases h⟩
      split
      · exact ⟨rfl, fun _ _ h => by cases h⟩
      refine ⟨rfl, fun frame rest h => ?_⟩
      cases h
      rw [Source.content_fill, Source.content_fill, hwire, hdrop]

variable {frame : Frame}

theorem content_readFrameFrom_lt {source : Source UInt8}
    (h : (readFrameFrom source).1 = .ok frame) :
    (readFrameFrom source).2.content.length < source.content.length := by
  obtain ⟨hresult, hleft⟩ := readFrameFrom_eq source
  rw [hresult] at h
  cases hread : readFrame source.content with
  | error _ =>
    rw [hread] at h
    cases h
  | ok read =>
    rw [hleft read.1 read.2 hread]
    cases hwire : source.content with
    | nil =>
      rw [hwire] at hread
      cases hread
    | cons byte wire =>
      rw [hwire, readFrame] at hread
      split at hread
      · cases hread
      cases htag : FrameTag.fromRepr byte with
      | none =>
        rw [htag] at hread
        cases hread
      | some tag =>
        simp only [htag] at hread
        split at hread
        · cases hread
        split at hread
        · cases hread
        cases hread
        simp only [List.length_drop, List.length_cons]
        omega

/-- A header with a tag nobody carries, or a length above the maximum, is refused with its payload
still unread. -/
theorem readFrameFrom_refused {source : Source UInt8} (hheader : headerBytes ≤ source.content.length)
    (h : FrameTag.fromRepr (source.content.headD 0) = none ∨
      maxFrameBytes < ofBytes ((source.content.take headerBytes).tail)) :
    ((readFrameFrom source).1 = .error .unknownTag ∨
        (readFrameFrom source).1 = .error .oversizedPayload) ∧
      (readFrameFrom source).2.content = source.content.drop headerBytes := by
  have hlength : (source.content.take headerBytes).length = headerBytes :=
    List.length_take_of_le hheader
  have hhead : (source.content.take headerBytes).headD 0 = source.content.headD 0 := by
    cases source.content <;> rfl
  unfold readFrameFrom
  simp only [Source.fill_fst, hlength, ne_eq, not_true_eq_false, if_false, hhead]
  cases htag : FrameTag.fromRepr (source.content.headD 0) with
  | none => exact ⟨.inl rfl, Source.content_fill _ _⟩
  | some tag =>
    have hover := h.resolve_left (by rw [htag]; exact nofun)
    dsimp only
    rw [if_pos hover]
    exact ⟨.inr rfl, Source.content_fill _ _⟩

theorem fits_of_writeFrame {wire : Bytes} (h : writeFrame frame = .ok wire) :
    frame.payload.length ≤ maxFrameBytes := by
  by_contra hover
  rw [writeFrame, if_neg hover] at h
  cases h

theorem readFrame_of_writeFrame {wire : Bytes} (h : writeFrame frame = .ok wire)
    (rest : Bytes) : readFrame (wire ++ rest) = .ok (frame, rest) := by
  have hfits : frame.payload.length ≤ maxFrameBytes := fits_of_writeFrame h
  obtain ⟨written, hwritten, hread⟩ := readFrame_writeFrame hfits
  rw [h] at hwritten
  cases hwritten
  exact hread rest

theorem readFrame_cut {wire bytes : Bytes} (hwire : writeFrame frame = .ok wire)
    (h : bytes <+: wire) (hne : bytes ≠ wire) : readFrame bytes = .error .unexpectedEof := by
  have hfits := fits_of_writeFrame hwire
  rw [writeFrame, if_pos hfits] at hwire
  obtain rfl := Except.ok.inj hwire
  cases bytes with
  | nil => rfl
  | cons byte bytes =>
    obtain ⟨rfl, hbytes⟩ := List.cons_prefix_cons.1 h
    rw [readFrame]
    split
    · rfl
    rename_i hlong
    have hhead : (toBytes lengthBytes frame.payload.length).length = lengthBytes :=
      length_toBytes _ _
    obtain ⟨payload, rfl⟩ : toBytes lengthBytes frame.payload.length <+: bytes :=
      List.prefix_of_prefix_length_le (List.prefix_append ..) hbytes (by omega)
    have hpayload : payload <+: frame.payload := (List.prefix_append_right_inj _).1 hbytes
    have hshort : payload.length < frame.payload.length := by
      refine Nat.lt_of_le_of_ne hpayload.length_le fun heq => hne ?_
      rw [hpayload.eq_of_length heq]
    have hlength : ofBytes (toBytes lengthBytes frame.payload.length) = frame.payload.length :=
      ofBytes_toBytes (Nat.lt_of_le_of_lt hfits (by decide))
    simp only [FrameTag.fromRepr_code, List.take_left' hhead, List.drop_left' hhead, hlength]
    rw [if_neg (by omega), if_pos]
    simp only [List.length_take]
    omega

/-! ### Messages from frames -/

inductive HolderError where
  | io (error : FrameError)
  | json
  | unexpectedFrame (tag : FrameTag)
  | malformedPayload (tag : FrameTag)
deriving DecidableEq, Repr

/-- A value written as JSON and read back. -/
structure JsonForm (α : Type) where
  toVec : α → Bytes
  fromSlice : Bytes → Option α
  fromSlice_toVec : ∀ value, fromSlice (toVec value) = some value

structure JsonForms where
  outcome : JsonForm ExitOutcome
  reason : JsonForm RejectReason
  text : JsonForm String
  role : JsonForm ClientRole
  control : JsonForm HolderControl

def JsonForms.bodies (json : JsonForms) : JsonBodies :=
  ⟨json.outcome.toVec, json.reason.toVec, json.text.toVec⟩

def initPid : ℕ := 1

def Pid.tryNew (pid : ℕ) : Option ℕ := if initPid < pid then some pid else none

def PtySize.tryNew (rows cols : ℕ) : Option PtySize :=
  if (Terminal.minRows ≤ rows ∧ rows ≤ Terminal.maxRows) ∧
      (Terminal.minCols ≤ cols ∧ cols ≤ Terminal.maxCols) then some ⟨rows, cols⟩
  else none

def decodeU32 (bytes : Bytes) : Option ℕ := if bytes.length = 4 then some (ofBytes bytes) else none

def decodeOffset (bytes : Bytes) : Option ℕ :=
  if bytes.length = 8 then some (ofBytes bytes) else none

def decodeSize (bytes : Bytes) : Option PtySize :=
  if bytes.length = 4 then PtySize.tryNew (ofBytes (bytes.take 2)) (ofBytes (bytes.drop 2)) else none

def orMalformed {α : Type} (tag : FrameTag) : Option α → Except HolderError α
  | some value => .ok value
  | none => .error (.malformedPayload tag)

def JsonForm.decode {α : Type} (form : JsonForm α) (payload : Bytes) : Except HolderError α :=
  match form.fromSlice payload with
  | some value => .ok value
  | none => .error .json

def Frame.ofClientMessage (json : JsonForms) : ClientMessage → Frame
  | .hello role => ⟨.hello, json.role.toVec role⟩
  | .input bytes => ⟨.input, bytes⟩
  | .resize size => ⟨.resize, encodeSize size⟩
  | .control control => ⟨.control, json.control.toVec control⟩
  | .collectExit => ⟨.collectExit, []⟩

/-- A snapshot's payload: the pid, the size, the attach clients, two offsets, then the repaint. -/
def decodeSnapshot (payload : Bytes) : Except HolderError HolderMessage :=
  if payload.length < snapshotHeaderBytes then .error (.malformedPayload .snapshot)
  else do
    let repaint := payload.drop snapshotHeaderBytes
    let header := payload.take snapshotHeaderBytes
    let afterPid := header.drop 4
    let afterSize := afterPid.drop 4
    let offsets := afterSize.drop 4
    let pid ← orMalformed .snapshot ((decodeU32 (header.take 4)).bind Pid.tryNew)
    let size ← orMalformed .snapshot (decodeSize (afterPid.take 4))
    let attached ← orMalformed .snapshot (decodeU32 (afterSize.take 4))
    let runStart ← orMalformed .snapshot (decodeOffset (offsets.take 8))
    let logEnd ← orMalformed .snapshot (decodeOffset (offsets.drop 8))
    return .snapshot repaint size pid attached runStart logEnd

def decodeOutput (payload : Bytes) : Except HolderError HolderMessage :=
  if payload.length < 8 then .error (.malformedPayload .output)
  else do
    let start ← orMalformed .output (decodeOffset (payload.take 8))
    return .output start (payload.drop 8)

def HolderMessage.ofFrame (json : JsonForms) (frame : Frame) : Except HolderError HolderMessage :=
  match frame.tag with
  | .snapshot => decodeSnapshot frame.payload
  | .output => decodeOutput frame.payload
  | .unlogged => .ok (.unlogged frame.payload)
  | .exited => (json.outcome.decode frame.payload).map .exited
  | .rejected => (json.reason.decode frame.payload).map .rejected
  | .warning => (json.text.decode frame.payload).map .warning
  | .attached => (orMalformed .attached (decodeU32 frame.payload)).map .attached
  | .hello | .input | .resize | .control | .collectExit => .error (.unexpectedFrame frame.tag)

def ClientMessage.ofFrame (json : JsonForms) (frame : Frame) : Except HolderError ClientMessage :=
  match frame.tag with
  | .hello => (json.role.decode frame.payload).map .hello
  | .input => .ok (.input frame.payload)
  | .resize => (orMalformed .resize (decodeSize frame.payload)).map .resize
  | .control => (json.control.decode frame.payload).map .control
  | .collectExit =>
    if frame.payload.isEmpty then .ok .collectExit else .error (.malformedPayload .collectExit)
  | .snapshot | .output | .exited | .rejected | .warning | .attached | .unlogged =>
    .error (.unexpectedFrame frame.tag)

/-! ### What is encoded is decoded -/

/-- The sizes the source's type holds. -/
def PtySize.Typed (size : PtySize) : Prop :=
  (Terminal.minRows ≤ size.rows ∧ size.rows ≤ Terminal.maxRows) ∧
    (Terminal.minCols ≤ size.cols ∧ size.cols ≤ Terminal.maxCols)

/-- The messages the source's types hold: a pid above init's and a count in four bytes, an offset in
eight, a size within its bounds. -/
def HolderMessage.Typed : HolderMessage → Prop
  | snapshot _ size pid clients runStart logEnd =>
    size.Typed ∧ (initPid < pid ∧ pid < 2 ^ 32) ∧ clients < 2 ^ 32 ∧ runStart < 2 ^ 64 ∧
      logEnd < 2 ^ 64
  | output start _ => start < 2 ^ 64
  | attached count => count < 2 ^ 32
  | _ => True

def ClientMessage.Typed : ClientMessage → Prop
  | resize size => size.Typed
  | _ => True

instance (size : PtySize) : Decidable size.Typed := inferInstanceAs (Decidable (_ ∧ _))

instance : DecidablePred HolderMessage.Typed
  | .snapshot .. => inferInstanceAs (Decidable (_ ∧ _ ∧ _ ∧ _))
  | .output .. | .attached _ => inferInstanceAs (Decidable (_ < _))
  | .unlogged _ | .exited _ | .rejected _ | .warning _ => .isTrue trivial

instance : DecidablePred ClientMessage.Typed
  | .resize size => inferInstanceAs (Decidable size.Typed)
  | .hello _ | .input _ | .control _ | .collectExit => .isTrue trivial

theorem decodeU32_toBytes {n : ℕ} (h : n < 2 ^ 32) : decodeU32 (toBytes 4 n) = some n := by
  rw [decodeU32, if_pos (length_toBytes 4 n), ofBytes_toBytes h]

theorem decodeOffset_toBytes {n : ℕ} (h : n < 2 ^ 64) : decodeOffset (toBytes 8 n) = some n := by
  rw [decodeOffset, if_pos (length_toBytes 8 n), ofBytes_toBytes h]

@[simp] theorem length_encodeSize (size : PtySize) : (encodeSize size).length = 4 := by
  rw [encodeSize, List.length_append, length_toBytes, length_toBytes]

theorem decodeSize_encodeSize {size : PtySize} (h : size.Typed) :
    decodeSize (encodeSize size) = some size := by
  have hrows : ofBytes (toBytes 2 size.rows) = size.rows :=
    ofBytes_toBytes (Nat.lt_of_le_of_lt h.1.2 (by decide))
  have hcols : ofBytes (toBytes 2 size.cols) = size.cols :=
    ofBytes_toBytes (Nat.lt_of_le_of_lt h.2.2 (by decide))
  rw [decodeSize, if_pos (length_encodeSize size), encodeSize, List.take_left' (length_toBytes 2 _),
    List.drop_left' (length_toBytes 2 _), hrows, hcols]
  exact if_pos h

@[simp] theorem JsonForm.decode_toVec {α : Type} (form : JsonForm α) (value : α) :
    form.decode (form.toVec value) = .ok value := by
  rw [JsonForm.decode, form.fromSlice_toVec]

theorem decodeSnapshot_eq {repaint : Bytes} {size : PtySize} {pid attached runStart logEnd : ℕ}
    (hsize : size.Typed) (hinit : initPid < pid) (hpid : pid < 2 ^ 32) (hattached : attached < 2 ^ 32)
    (hstart : runStart < 2 ^ 64) (hend : logEnd < 2 ^ 64) :
    decodeSnapshot (toBytes 4 pid ++ encodeSize size ++ toBytes 4 attached ++ toBytes 8 runStart ++
        toBytes 8 logEnd ++ repaint) =
      .ok (.snapshot repaint size pid attached runStart logEnd) := by
  have hlength : (toBytes 4 pid ++ encodeSize size ++ toBytes 4 attached ++ toBytes 8 runStart ++
      toBytes 8 logEnd).length = snapshotHeaderBytes := by
    simp only [List.length_append, length_toBytes, length_encodeSize, snapshotHeaderBytes]
  have hshort : ¬ (toBytes 4 pid ++ encodeSize size ++ toBytes 4 attached ++ toBytes 8 runStart ++
      toBytes 8 logEnd ++ repaint).length < snapshotHeaderBytes := by
    rw [List.length_append, hlength]
    omega
  rw [decodeSnapshot, if_neg hshort, List.take_left' hlength, List.drop_left' hlength]
  have hpid' : (decodeU32 (toBytes 4 pid)).bind Pid.tryNew = some pid := by
    rw [decodeU32_toBytes hpid, Option.bind_some, Pid.tryNew, if_pos hinit]
  simp only [List.append_assoc, List.take_left' (length_toBytes 4 _),
    List.drop_left' (length_toBytes 4 _), List.take_left' (length_encodeSize size),
    List.drop_left' (length_encodeSize size), List.take_left' (length_toBytes 8 _),
    List.drop_left' (length_toBytes 8 _), hpid', decodeSize_encodeSize hsize,
    decodeU32_toBytes hattached, decodeOffset_toBytes hstart, decodeOffset_toBytes hend]
  rfl

theorem decodeOutput_eq {start : ℕ} {bytes : Bytes} (hstart : start < 2 ^ 64) :
    decodeOutput (toBytes 8 start ++ bytes) = .ok (.output start bytes) := by
  have hshort : ¬ (toBytes 8 start ++ bytes).length < 8 := by
    rw [List.length_append, length_toBytes]
    omega
  rw [decodeOutput, if_neg hshort, List.take_left' (length_toBytes 8 start),
    List.drop_left' (length_toBytes 8 start), decodeOffset_toBytes hstart]
  rfl

theorem HolderMessage.ofFrame_ofMessage (json : JsonForms) {message : HolderMessage}
    (h : message.Typed) : HolderMessage.ofFrame json (Frame.ofMessage json.bodies message) =
      .ok message := by
  cases message with
  | snapshot repaint size pid attached runStart logEnd =>
    obtain ⟨hsize, ⟨hinit, hpid⟩, hattached, hstart, hend⟩ := h
    exact decodeSnapshot_eq hsize hinit hpid hattached hstart hend
  | output start bytes => exact decodeOutput_eq h
  | unlogged bytes => rfl
  | exited outcome => simp [ofFrame, Frame.ofMessage, JsonForms.bodies, Except.map]
  | rejected reason => simp [ofFrame, Frame.ofMessage, JsonForms.bodies, Except.map]
  | warning text => simp [ofFrame, Frame.ofMessage, JsonForms.bodies, Except.map]
  | attached count =>
    have hcount : decodeU32 (toBytes 4 count) = some count := decodeU32_toBytes h
    simp only [ofFrame, Frame.ofMessage, hcount]
    rfl

theorem ClientMessage.ofFrame_ofClientMessage (json : JsonForms) {message : ClientMessage}
    (h : message.Typed) : ClientMessage.ofFrame json (Frame.ofClientMessage json message) =
      .ok message := by
  cases message with
  | hello role => simp [ofFrame, Frame.ofClientMessage, Except.map]
  | input bytes => rfl
  | resize size =>
    simp only [ofFrame, Frame.ofClientMessage, decodeSize_encodeSize h]
    rfl
  | control control => simp [ofFrame, Frame.ofClientMessage, Except.map]
  | collectExit => rfl

/-! ### Streams of messages -/

section Streams

variable {M : Type} (encode : M → Frame) (decode : Frame → Except HolderError M)
  {source : Source UInt8} {messages : List M}

def readFrom (source : Source UInt8) : Except HolderError M × Source UInt8 :=
  match readFrameFrom source with
  | (.ok frame, left) => (decode frame, left)
  | (.error error, left) => (.error (.io error), left)

theorem readFrom_of_readFrame {frame : Frame} {rest : Bytes}
    (h : readFrame source.content = .ok (frame, rest)) :
    (readFrom decode source).1 = decode frame ∧ (readFrom decode source).2.content = rest := by
  obtain ⟨hresult, hleft⟩ := readFrameFrom_eq source
  rw [h] at hresult
  have hread : readFrameFrom source = (.ok frame, (readFrameFrom source).2) := Prod.ext hresult rfl
  rw [readFrom, hread]
  exact ⟨rfl, hleft frame rest h⟩

theorem readFrom_of_error {error : FrameError} (h : readFrame source.content = .error error) :
    (readFrom decode source).1 = .error (.io error) := by
  have hresult := (readFrameFrom_eq source).1
  rw [h] at hresult
  have hread : readFrameFrom source = (.error error, (readFrameFrom source).2) :=
    Prod.ext hresult rfl
  rw [readFrom, hread]

theorem content_readFrom_lt {message : M} (h : (readFrom decode source).1 = .ok message) :
    (readFrom decode source).2.content.length < source.content.length := by
  unfold readFrom at h ⊢
  split at h
  · rename_i frame left hread
    have hlt := content_readFrameFrom_lt (congrArg Prod.fst hread)
    rwa [hread] at hlt
  · cases h

/-- Reads messages until one is not read: the messages, why the next is not, and the input as its read
began. -/
def readAll (source : Source UInt8) : List M × HolderError × Source UInt8 :=
  match _h : (readFrom decode source).1 with
  | .ok message =>
    let (messages, error, left) := readAll (readFrom decode source).2
    (message :: messages, error, left)
  | .error error => ([], error, source)
termination_by source.content.length
decreasing_by exact content_readFrom_lt decode _h

theorem readAll_ok {message : M} (h : (readFrom decode source).1 = .ok message) :
    readAll decode source = (message :: (readAll decode (readFrom decode source).2).1,
      (readAll decode (readFrom decode source).2).2) := by
  rw [readAll]
  split
  · rename_i read hread
    rw [h] at hread
    cases hread
    rfl
  · rename_i error hread
    rw [h] at hread
    cases hread

theorem readAll_error {error : HolderError} (h : (readFrom decode source).1 = .error error) :
    readAll decode source = ([], error, source) := by
  rw [readAll]
  split
  · rename_i read hread
    rw [h] at hread
    cases hread
  · rename_i read hread
    rw [h] at hread
    cases hread
    rfl

/-- Whole frames, and after them bytes that are no frame: every message is read, and then the bytes
are refused. -/
theorem readAll_append {wires : List Bytes} {rest : Bytes} {error : FrameError}
    (hwires : List.Forall₂ (fun message wire => writeFrame (encode message) = .ok wire) messages wires)
    (hdecode : ∀ message ∈ messages, decode (encode message) = .ok message)
    (hrest : readFrame rest = .error error) (hsource : source.content = wires.flatten ++ rest) :
    ∃ left, readAll decode source = (messages, .io error, left) ∧ left.content = rest := by
  induction hwires generalizing source with
  | nil =>
    rw [List.flatten_nil, List.nil_append] at hsource
    have hread := readFrom_of_error decode (by rw [hsource, hrest])
    exact ⟨source, readAll_error decode hread, hsource⟩
  | @cons message wire messages wires hwire _ ih =>
    have hread : readFrame source.content = .ok (encode message, wires.flatten ++ rest) := by
      rw [hsource, List.flatten_cons, List.append_assoc]
      exact readFrame_of_writeFrame hwire _
    obtain ⟨hmessage, hleft⟩ := readFrom_of_readFrame decode hread
    rw [hdecode message List.mem_cons_self] at hmessage
    obtain ⟨left, hall, hend⟩ :=
      ih (fun message h => hdecode message (List.mem_cons_of_mem _ h)) hleft
    refine ⟨left, ?_, hend⟩
    rw [readAll_ok decode hmessage, hall]

/-- Messages written and read back: from all their bytes every message and then the end, and from
less the messages held whole and then an error. -/
structure Delimited (messages : List M) (wires : List Bytes) : Prop where
  written : messages.mapM (fun message => writeFrame (encode message)) = .ok wires
  whole : ∀ source : Source UInt8, source.content = wires.flatten →
    ∃ left, readAll decode source = (messages, .io .unexpectedEof, left) ∧ left.content = []
  cut : ∀ source : Source UInt8, source.content <+: wires.flatten → source.content ≠ wires.flatten →
    ∃ count < messages.length, ∃ left,
      readAll decode source = (messages.take count, .io .unexpectedEof, left) ∧
        source.content = (wires.take count).flatten ++ left.content ∧
        ¬ (wires.take (count + 1)).flatten <+: source.content

theorem mapM_writeFrame
    (hfits : ∀ message ∈ messages, (encode message).payload.length ≤ maxFrameBytes) :
    ∃ wires, messages.mapM (fun message => writeFrame (encode message)) = .ok wires ∧
      List.Forall₂ (fun message wire => writeFrame (encode message) = .ok wire) messages wires := by
  induction messages with
  | nil => exact ⟨[], rfl, .nil⟩
  | cons message messages ih =>
    obtain ⟨wires, hwires, hall⟩ := ih fun message h => hfits message (List.mem_cons_of_mem _ h)
    obtain ⟨wire, hwire, -⟩ := readFrame_writeFrame (hfits message List.mem_cons_self)
    refine ⟨wire :: wires, ?_, .cons hwire hall⟩
    rw [List.mapM_cons, hwire, hwires]
    rfl

theorem exists_delimited
    (hfits : ∀ message ∈ messages, (encode message).payload.length ≤ maxFrameBytes)
    (hdecode : ∀ message ∈ messages, decode (encode message) = .ok message) :
    ∃ wires, Delimited encode decode messages wires := by
  obtain ⟨wires, hwritten, hwires⟩ := mapM_writeFrame encode hfits
  refine ⟨wires, hwritten, fun source hsource => ?_, fun source hcut hne => ?_⟩
  · exact readAll_append encode decode hwires hdecode rfl (by rw [hsource, List.append_nil])
  · obtain ⟨before, wire, after, rest, rfl, hsource, hrest, hshort⟩ := exists_parts_of_cut hcut hne
    -- the frame the bytes end in, and the messages before it
    have htake := List.forall₂_take before.length hwires
    have hdrop := List.forall₂_drop before.length hwires
    rw [List.take_left] at htake
    rw [List.drop_left] at hdrop
    cases hmessages : messages.drop before.length with
    | nil =>
      rw [hmessages] at hdrop
      cases hdrop
    | cons message later =>
      rw [hmessages] at hdrop
      obtain ⟨hwire, -⟩ := List.forall₂_cons.1 hdrop
      have hcount : before.length < messages.length := by
        have hlength := congrArg List.length hmessages
        rw [List.length_drop, List.length_cons] at hlength
        omega
      obtain ⟨left, hall, hleft⟩ := readAll_append encode decode htake
        (fun message h => hdecode message (List.mem_of_mem_take h))
        (readFrame_cut hwire hrest hshort) hsource
      refine ⟨before.length, hcount, left, hall, ?_, ?_⟩
      · rw [List.take_left, hleft, hsource]
      · rw [List.take_length_add_append, List.take_succ_cons, List.take_zero, List.flatten_append,
          List.flatten_singleton, hsource, List.prefix_append_right_inj]
        exact fun hwhole => hshort (hrest.eq_of_length_le hwhole.length_le)

end Streams

/-! ### The two directions -/

theorem ClientMessage.ofFrame_ofMessage (json : JsonForms) (message : HolderMessage) :
    ClientMessage.ofFrame json (Frame.ofMessage json.bodies message) =
      .error (.unexpectedFrame (Frame.ofMessage json.bodies message).tag) := by
  cases message <;> rfl

theorem HolderMessage.ofFrame_ofClientMessage (json : JsonForms) (message : ClientMessage) :
    HolderMessage.ofFrame json (Frame.ofClientMessage json message) =
      .error (.unexpectedFrame (Frame.ofClientMessage json message).tag) := by
  cases message <;> rfl

theorem not_both_ofFrame (json : JsonForms) (frame : Frame) {message : HolderMessage}
    {request : ClientMessage} (hmessage : HolderMessage.ofFrame json frame = .ok message) :
    ClientMessage.ofFrame json frame ≠ .ok request := by
  obtain ⟨tag, payload⟩ := frame
  cases tag with
  | hello | input | resize | control | collectExit => cases hmessage
  | snapshot | output | exited | rejected | warning | attached | unlogged => exact nofun

/-- **The socket's format.**  Messages of either direction written one after the other are read back
from their bytes, in reads of any sizes; a cut leaves the messages held whole and an error; a header
is refused before its payload is read; no frame is a message of both directions. -/
theorem wire_lossless (json : JsonForms) :
    (∀ messages : List HolderMessage,
      (∀ message ∈ messages, message.Typed ∧
        (Frame.ofMessage json.bodies message).payload.length ≤ maxFrameBytes) →
      ∃ wires, Delimited (Frame.ofMessage json.bodies) (HolderMessage.ofFrame json) messages wires) ∧
    (∀ messages : List ClientMessage,
      (∀ message ∈ messages, message.Typed ∧
        (Frame.ofClientMessage json message).payload.length ≤ maxFrameBytes) →
      ∃ wires, Delimited (Frame.ofClientMessage json) (ClientMessage.ofFrame json) messages wires) ∧
    (∀ source : Source UInt8, headerBytes ≤ source.content.length →
      (FrameTag.fromRepr (source.content.headD 0) = none ∨
        maxFrameBytes < ofBytes ((source.content.take headerBytes).tail)) →
      ((readFrameFrom source).1 = .error .unknownTag ∨
          (readFrameFrom source).1 = .error .oversizedPayload) ∧
        (readFrameFrom source).2.content = source.content.drop headerBytes) ∧
    (∀ message, ClientMessage.ofFrame json (Frame.ofMessage json.bodies message) =
      .error (.unexpectedFrame (Frame.ofMessage json.bodies message).tag)) ∧
    (∀ message, HolderMessage.ofFrame json (Frame.ofClientMessage json message) =
      .error (.unexpectedFrame (Frame.ofClientMessage json message).tag)) ∧
    ∀ frame message request, HolderMessage.ofFrame json frame = .ok message →
      ClientMessage.ofFrame json frame ≠ .ok request := by
  refine ⟨fun messages h => ?_, fun messages h => ?_, fun source hheader h => ?_,
    ClientMessage.ofFrame_ofMessage json, HolderMessage.ofFrame_ofClientMessage json,
    fun frame message request hmessage => not_both_ofFrame json frame hmessage⟩
  · exact exists_delimited _ _ (fun message hm => (h message hm).2)
      fun message hm => HolderMessage.ofFrame_ofMessage json (h message hm).1
  · exact exists_delimited _ _ (fun message hm => (h message hm).2)
      fun message hm => ClientMessage.ofFrame_ofClientMessage json (h message hm).1
  · exact readFrameFrom_refused hheader h

/-! Forms that are read back exist for every kind of body. -/

instance countableChar : Countable Char := Function.Injective.countable fun _ _ => Char.toNat_inj.1

instance countableString : Countable String :=
  Function.Injective.countable fun _ _ (h : String.toList _ = String.toList _) =>
    String.toList_injective h

deriving instance Countable for Supervisor.ExitCause, Supervisor.ExitOutcome, RejectReason,
  ClientRole, StopSignal, HolderControl

noncomputable def JsonForm.ofCountable (α : Type) [Countable α] : JsonForm α where
  toVec value := List.replicate ((exists_injective_nat α).choose value) 0
  fromSlice payload := Function.partialInv (exists_injective_nat α).choose payload.length
  fromSlice_toVec value := by
    rw [List.length_replicate]
    exact Function.partialInv_left (exists_injective_nat α).choose_spec value

noncomputable def countedForms : JsonForms :=
  ⟨.ofCountable _, .ofCountable _, .ofCountable _, .ofCountable _, .ofCountable _⟩

/-- A screen, its next output and the clients attached, then a client's input and size, and a header
whose tag nobody carries. -/
theorem wire_lossless_for_three :
    (∃ wires, Delimited (Frame.ofMessage countedForms.bodies) (HolderMessage.ofFrame countedForms)
      [.snapshot [72, 105] ⟨24, 80⟩ 4242 1 0 7, .output 7 [10], .attached 2] wires) ∧
    (∃ wires, Delimited (Frame.ofClientMessage countedForms) (ClientMessage.ofFrame countedForms)
      [.input [3], .resize ⟨50, 132⟩, .collectExit] wires) ∧
    (readFrameFrom ⟨[[0, 0], [0, 0, 1, 65]], by decide⟩).2.content = [65] := by
  obtain ⟨hholder, hclient, hheader, -⟩ := wire_lossless countedForms
  refine ⟨hholder _ ?_, hclient _ ?_, (hheader _ (by decide) (.inl (by decide))).2⟩
  · simp only [List.forall_mem_cons, List.not_mem_nil, false_implies, implies_true, and_true]
    exact ⟨⟨by decide, by decide⟩, ⟨by decide, by decide⟩, by decide, by decide⟩
  · simp only [List.forall_mem_cons, List.not_mem_nil, false_implies, implies_true, and_true]
    exact ⟨⟨trivial, by decide⟩, ⟨by decide, by decide⟩, trivial, by decide⟩

end Muster.Holder
