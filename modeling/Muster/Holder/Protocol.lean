import Muster.Log.Files
import Muster.Supervisor.Domain

/-!
# Protocol — the messages a holder and its clients exchange

One holder runs one child and serves it to clients over a socket.  A supervisor's output frames are
placed in the child's log; an attached terminal gets every byte the child wrote.
-/

namespace Muster.Holder

open Muster.Log
open Muster.Supervisor (ExitOutcome)

structure PtySize where
  rows : ℕ
  cols : ℕ
deriving DecidableEq, Repr

/-- How a connected client participates. -/
inductive ClientRole where
  | supervisor
  | attach (readOnly : Bool)
deriving DecidableEq, Repr

namespace ClientRole

def writable : ClientRole → Bool
  | attach true => false
  | _ => true

def isAttach : ClientRole → Bool
  | attach _ => true
  | supervisor => false

end ClientRole

inductive RejectReason where
  | helloRequired | alreadyIntroduced | readOnly | supervisorOnly | notExited | childUnavailable
  | inputBacklogged
deriving DecidableEq, Repr

inductive HolderMessage where
  /-- The current screen, sent in answer to a hello and again as a resync, with where the child's
  run began in the log and where the log ends as the snapshot is taken. -/
  | snapshot (repaint : Bytes) (size : PtySize) (pid attached runStart logEnd : ℕ)
  /-- Bytes the child wrote, and where they start in the log. -/
  | output (start : ℕ) (bytes : Bytes)
  /-- Bytes the child wrote that the log could not hold. -/
  | unlogged (bytes : Bytes)
  | exited (outcome : ExitOutcome)
  | rejected (reason : RejectReason)
  | warning (text : String)
  /-- The writable attach clients connected. -/
  | attached (count : ℕ)
deriving DecidableEq, Repr

namespace HolderMessage

def isSnapshot : HolderMessage → Bool
  | snapshot .. => true
  | _ => false

def isWarning : HolderMessage → Bool
  | warning _ => true
  | _ => false

end HolderMessage

inductive StopSignal where
  | terminate | interrupt
deriving DecidableEq, Repr

/-- A process control request, honoured only from a supervisor. -/
inductive HolderControl where
  | pause | resume | terminate (signal : StopSignal) (grace : ℕ) | kill
deriving DecidableEq, Repr

inductive ClientMessage where
  | hello (role : ClientRole)
  | input (bytes : Bytes)
  | resize (size : PtySize)
  | control (control : HolderControl)
  | collectExit
deriving DecidableEq, Repr

end Muster.Holder
