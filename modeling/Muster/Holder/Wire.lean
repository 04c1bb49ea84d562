import Muster.Lib.BigEndian
import Muster.Holder.Protocol

/-!
# Wire — messages as tagged, length-led frames

A frame is a tag byte, the payload's length in four bytes, and the payload.  Neither side writes or
reads a payload above a maximum, which bounds what one can make the other allocate.
-/

namespace Muster.Holder

open Muster.Log (Bytes)
open Muster.BigEndian

inductive FrameTag where
  | hello | input | resize | control | collectExit | snapshot | output | exited | rejected | warning
  | attached | unlogged
deriving DecidableEq, Repr

namespace FrameTag

def all : List FrameTag :=
  [hello, input, resize, control, collectExit, snapshot, output, exited, rejected, warning, attached,
    unlogged]

def code : FrameTag → UInt8
  | hello => 1
  | input => 2
  | resize => 3
  | control => 4
  | collectExit => 5
  | snapshot => 6
  | output => 7
  | exited => 8
  | rejected => 9
  | warning => 10
  | attached => 11
  | unlogged => 12

def fromRepr (byte : UInt8) : Option FrameTag := all.find? (·.code = byte)

theorem fromRepr_code (tag : FrameTag) : fromRepr tag.code = some tag := by
  cases tag <;> decide

end FrameTag

structure Frame where
  tag : FrameTag
  payload : Bytes
deriving DecidableEq, Repr

def maxFrameBytes : ℕ := 16 * 1024 * 1024

def lengthBytes : ℕ := 4

inductive FrameError where
  | oversizedPayload | unknownTag | unexpectedEof
deriving DecidableEq, Repr

def writeFrame (frame : Frame) : Except FrameError Bytes :=
  if frame.payload.length ≤ maxFrameBytes then
    .ok (frame.tag.code :: (toBytes lengthBytes frame.payload.length ++ frame.payload))
  else .error .oversizedPayload

def readFrame : Bytes → Except FrameError (Frame × Bytes)
  | [] => .error .unexpectedEof
  | byte :: wire =>
    if wire.length < lengthBytes then .error .unexpectedEof
    else match FrameTag.fromRepr byte with
    | none => .error .unknownTag
    | some tag =>
      let length := ofBytes (wire.take lengthBytes)
      let rest := wire.drop lengthBytes
      if length > maxFrameBytes then .error .oversizedPayload
      else if (rest.take length).length ≠ length then .error .unexpectedEof
      else .ok (⟨tag, rest.take length⟩, rest.drop length)

theorem readFrame_writeFrame {frame : Frame} (h : frame.payload.length ≤ maxFrameBytes) :
    ∃ wire, writeFrame frame = .ok wire ∧
      ∀ rest, readFrame (wire ++ rest) = .ok (frame, rest) := by
  refine ⟨_, if_pos h, fun rest => ?_⟩
  have hlength : ofBytes (toBytes lengthBytes frame.payload.length) = frame.payload.length :=
    ofBytes_toBytes (Nat.lt_of_le_of_lt h (by decide))
  have hhead : (toBytes lengthBytes frame.payload.length).length = lengthBytes := length_toBytes _ _
  have htake : List.take lengthBytes (toBytes lengthBytes frame.payload.length ++
      (frame.payload ++ rest)) = toBytes lengthBytes frame.payload.length :=
    List.take_left' hhead
  have hdrop : List.drop lengthBytes (toBytes lengthBytes frame.payload.length ++
      (frame.payload ++ rest)) = frame.payload ++ rest := List.drop_left' hhead
  rw [List.cons_append, List.append_assoc, readFrame, FrameTag.fromRepr_code]
  simp only [htake, hdrop, hlength, List.take_left, List.drop_left, List.length_append, hhead]
  rw [if_neg (by omega), if_neg (by omega), if_neg (by simp)]

/-! ### The holder's messages -/

structure JsonBodies where
  outcome : Supervisor.ExitOutcome → Bytes
  reason : RejectReason → Bytes
  text : String → Bytes

def encodeSize (size : PtySize) : Bytes := toBytes 2 size.rows ++ toBytes 2 size.cols

/-- Bytes of a snapshot's payload before its repaint: pid, size, attach clients and two offsets. -/
def snapshotHeaderBytes : ℕ := 4 + 4 + 4 + 2 * 8

def Frame.ofMessage (json : JsonBodies) : HolderMessage → Frame
  | .snapshot repaint size pid attached runStart logEnd =>
    ⟨.snapshot, toBytes 4 pid ++ encodeSize size ++ toBytes 4 attached ++ toBytes 8 runStart ++
      toBytes 8 logEnd ++ repaint⟩
  | .output start bytes => ⟨.output, toBytes 8 start ++ bytes⟩
  | .unlogged bytes => ⟨.unlogged, bytes⟩
  | .exited outcome => ⟨.exited, json.outcome outcome⟩
  | .rejected reason => ⟨.rejected, json.reason reason⟩
  | .warning text => ⟨.warning, json.text text⟩
  | .attached count => ⟨.attached, toBytes 4 count⟩

theorem length_snapshot_payload (json : JsonBodies) (repaint : Bytes) (size : PtySize)
    (pid attached runStart logEnd : ℕ) :
    (Frame.ofMessage json (.snapshot repaint size pid attached runStart logEnd)).payload.length =
      snapshotHeaderBytes + repaint.length := by
  simp only [Frame.ofMessage, encodeSize, snapshotHeaderBytes, List.length_append, length_toBytes]

end Muster.Holder
