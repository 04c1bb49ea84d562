import Mathlib.Algebra.Group.Nat.Defs
import Mathlib.Logic.Function.Basic
import Muster.Holder.ByteQueue
import Muster.Holder.Protocol
import Muster.Lib.Machine

/-!
# Server — one holder's loop over its child, its log and its clients

`Server` is what the loop owns; one function per handler.  The terminal behind it (emulator,
keyboard tracker and screen gate) is a `Platform`: any state with any reactions.  What the child's
handle answers is drawn from `outcomes`, what a log append did comes with the output event, and each
client's writer thread moves between the loop's events and inside its queue operations.

A client's `put` keeps every frame ever put in its outbox, with what the child had produced and the
log held then; no step looks at it.
-/

namespace Muster.Holder

open Muster.Log
open Muster.Supervisor (ExitOutcome)

abbrev ClientId := ℕ

/-- What the terminal makes of one chunk. -/
structure Processed (τ : Type) where
  terminal : τ
  /-- The emulator failed on the chunk and was reset. -/
  reset : Bool
  /-- Answers to the queries the chunk raised. -/
  replies : Bytes
  /-- What the screen gate keeps of the chunk for the log. -/
  logged : Bytes

/-- The terminal side of the holder. -/
structure Platform (τ : Type) where
  process : τ → Bytes → Processed τ
  setSize : τ → PtySize → τ
  /-- The live screen and keyboard modes, as a client rebuilds them. -/
  repaint : τ → Bytes
  /-- The length of a structured body. -/
  jsonLen : HolderMessage → ℕ

def Platform.wireLen {τ : Type} (P : Platform τ) : HolderMessage → ℕ
  | .snapshot repaint .. => 5 + (28 + repaint.length)
  | .output _ bytes => 5 + (8 + bytes.length)
  | .unlogged bytes => 5 + bytes.length
  | .attached _ => 5 + 4
  | m => 5 + P.jsonLen m

/-- A frame put in an outbox, with what the child had produced and the log held then. -/
structure Put where
  message : HolderMessage
  produced : ℕ
  logged : ℕ
deriving DecidableEq, Repr

structure Client where
  role : Option ClientRole
  outbox : ByteQueue HolderMessage
  put : List Put
deriving DecidableEq, Repr

inductive ResetWarning where
  | unneeded | pending | sent
deriving DecidableEq, Repr

/-- A call on the child's handle. -/
inductive ChildCall where
  | pause | resume | terminate (signal : StopSignal) (grace : ℕ) | kill | resize (size : PtySize)
deriving DecidableEq, Repr

/-- What the log took of a chunk: the chunk itself, the same bytes in the same place, or other
bytes. -/
inductive Held where
  | chunk | other (bytes : Bytes)
deriving DecidableEq, Repr

def Held.bytes (chunk : Bytes) : Held → Bytes
  | .chunk => chunk
  | .other bytes => bytes

def clientOutboxBytes : ℕ := 1024 * 1024

def childInputBytes : ℕ := 1024 * 1024

def screenResetWarning : String :=
  "the terminal emulator failed on the process's output; its screen was reset"

structure Server (τ : Type) where
  childPid : ℕ
  /-- Whether the child's exit has been observed. -/
  childExited : Bool
  input : ByteQueue Bytes
  terminal : τ
  /-- Every byte ever logged. -/
  log : Bytes
  runStart : ℕ
  /-- Connected clients by identity, and the order the map gives them in. -/
  clients : ClientId → Option Client
  ids : List ClientId
  /-- Each writable client's last requested size, most recent last. -/
  resizes : List (ClientId × PtySize)
  size : PtySize
  exit : Option ExitOutcome
  supervised : Bool
  reportedAttached : ℕ
  resetWarning : ResetWarning
  /-- Graceful stops whose grace has not run out. -/
  graces : ℕ
  deadlinePending : Bool
  /-- Set once the loop has returned. -/
  finished : Bool
  /-- The identity the next connection gets. -/
  accepted : ClientId
  /-- Whether the child's handle will do what it is asked, call by call. -/
  outcomes : List Bool
  /-- The calls made on the child's handle, which no step looks at. -/
  calls : List ChildCall
  /-- Every byte the child wrote, which no step looks at. -/
  produced : Bytes

namespace Server

variable {τ : Type} (P : Platform τ)

/-- A holder that has spawned its child and opened its log, before its first event. -/
def new (terminal : τ) (size : PtySize) (pid : ℕ) (log : Bytes) (runStart : ℕ)
    (outcomes : List Bool) (races : List (List (List Move))) : Server τ where
  childPid := pid
  childExited := false
  input := .new (.ofNat childInputBytes) races
  terminal := terminal
  log := log
  runStart := runStart
  clients := fun _ => none
  ids := []
  resizes := []
  size := size
  exit := none
  supervised := false
  reportedAttached := 0
  resetWarning := .unneeded
  graces := 0
  deadlinePending := true
  finished := false
  accepted := 0
  outcomes := outcomes
  calls := []
  produced := []

variable (s : Server τ)

/-- Asks the child's handle; an outcome that was not given is a refusal. -/
def call (c : ChildCall) : Server τ × Bool :=
  ({ s with calls := s.calls ++ [c], outcomes := s.outcomes.tail }, s.outcomes.headD false)

def setClient (c : ClientId) (entry : Client) : Server τ :=
  { s with clients := Function.update s.clients c (some entry) }

def roleOf (c : ClientId) : Option ClientRole := (s.clients c).bind Client.role

def chosen (wanted : ClientRole → Bool) : List ClientId :=
  s.ids.filter fun c => (s.roleOf c).any wanted

def writableAttached : ℕ :=
  min (s.chosen (fun role => role = .attach false)).length (2 ^ 32 - 1)

def snapshot : HolderMessage :=
  .snapshot (P.repaint s.terminal) s.size s.childPid s.writableAttached s.runStart s.log.length

def stamp (m : HolderMessage) : Put := ⟨m, s.produced.length, s.log.length⟩

def force (entry : Client) (m : HolderMessage) : Client :=
  { entry with outbox := entry.outbox.forcePush m (.ofNat (P.wireLen m)), put := entry.put ++ [s.stamp m] }

/-- Offers `m` to one client's outbox; one that is not connected needs nothing. -/
def offer (c : ClientId) (m : HolderMessage) : Server τ × Bool :=
  match s.clients c with
  | none => (s, true)
  | some entry =>
    let (outbox, took) := entry.outbox.tryPush m (.ofNat (P.wireLen m))
    let put := if took then entry.put ++ [s.stamp m] else entry.put
    (s.setClient c { entry with outbox := outbox, put := put }, took)

/-- The frames a resync queues after those it kept, whether the reset warning is owed given. -/
def resyncFrames (owed : Bool) (warnings : List HolderMessage) : List HolderMessage :=
  s.snapshot P :: (warnings ++ (if owed then [.warning screenResetWarning] else []) ++
    (s.exit.map .exited).toList)

/-- Replaces whatever the client has queued with the live screen, then any warning it had not taken
yet, for a supervisor the screen-reset warning the run still owes, then the held exit.  A forced push
never fails, so the source's drop of a client that takes none of it cannot happen. -/
def resync (c : ClientId) : Server τ :=
  match s.clients c with
  | none => s
  | some entry =>
    let owed := decide (entry.role = some .supervisor) && decide (s.resetWarning = .pending)
    let (cleared, outbox) := entry.outbox.clear
    let entry := (s.resyncFrames P owed (cleared.filter HolderMessage.isWarning)).foldl (s.force P)
      { entry with outbox := outbox }
    { s with resetWarning := if owed then .sent else s.resetWarning }.setClient c entry

def tell (c : ClientId) (m : HolderMessage) : Server τ :=
  let (s', took) := s.offer P c m
  if took then s' else s'.resync P c

def resyncWhere (wanted : ClientRole → Bool) : Server τ :=
  (s.chosen wanted).foldl (fun s c => s.resync P c) s

def resyncAttached : Server τ := s.resyncWhere P ClientRole.isAttach

def resyncAll : Server τ := s.resyncWhere P fun _ => true

/-- Tells every supervisor the writable attach-client count when it changed since last told. -/
def reportAttached : Server τ :=
  let attached := s.writableAttached
  if attached = s.reportedAttached then s
  else
    (s.chosen (· = .supervisor)).foldl (fun s c => s.tell P c (.attached attached))
      { s with reportedAttached := attached }

/-- Resizes the PTY when `size` differs from the current one, then the emulator.  Returns whether the
size changed, none when the PTY refused. -/
def applySize (size : PtySize) : Server τ × Option Bool :=
  if size = s.size then (s, some false)
  else
    let (s', taken) := s.call (.resize size)
    if taken then ({ s' with size := size, terminal := P.setSize s'.terminal size }, some true)
    else (s', none)

/-- Forgets a client and, when it set the current size, falls back to the most recent remaining
writable client's size. -/
def dropClient (c : ClientId) : Server τ :=
  let dropped : Server τ :=
    { s with clients := Function.update s.clients c none, ids := s.ids.filter (· ≠ c) }
  let told := dropped.reportAttached P
  let wasLatest := (told.resizes.getLast?.map Prod.fst) = some c
  let rest : Server τ := { told with resizes := told.resizes.filter (·.1 ≠ c) }
  match rest.resizes.getLast? with
  | some (_, size) =>
    if wasLatest then
      let (sized, changed) := rest.applySize P size
      if changed = some true then sized.resyncAttached P else sized
    else rest
  | none => rest

/-- A client whose outbox is full: one that has said hello is resynced, one that has not is
dropped. -/
def onStalled (c : ClientId) : Server τ :=
  match s.roleOf c with
  | some _ => s.resync P c
  | none => s.dropClient P c

def send (c : ClientId) (m : HolderMessage) : Server τ :=
  let (s', took) := s.offer P c m
  if took then s' else s'.onStalled P c

/-- Offers `m` to each of the clients; returns those whose outbox refused it. -/
def offers (m : HolderMessage) : Server τ → List ClientId → Server τ × List ClientId
  | s, [] => (s, [])
  | s, c :: rest =>
    let (s', took) := s.offer P c m
    let (last, stalled) := offers m s' rest
    (last, if took then stalled else c :: stalled)

def broadcastTo (takes : ClientRole → Bool) (m : HolderMessage) : Server τ :=
  let (s', stalled) := offers P m s (s.chosen takes)
  stalled.foldl (fun s c => s.onStalled P c) s'

def broadcast (m : HolderMessage) : Server τ := s.broadcastTo P (fun _ => true) m

def reject (c : ClientId) (reason : RejectReason) : Server τ := s.send P c (.rejected reason)

def pushInput (bytes : Bytes) : Server τ × Bool :=
  let (input, took) := s.input.tryPush bytes (.ofNat bytes.length)
  ({ s with input := input }, took)

/-! ### The child -/

/-- Holds the child's exit for collection and tells every client, supervisors the final screen
first. -/
def onExit (outcome : ExitOutcome) : Server τ :=
  let s : Server τ := { s with childExited := true, exit := some outcome }
  let s := (s.chosen (· = .supervisor)).foldl (fun s c => s.send P c (s.snapshot P)) s
  s.broadcast P (.exited outcome)

def absorb (bytes : Bytes) : Server τ :=
  let made := P.process s.terminal bytes
  let s : Server τ := { s with terminal := made.terminal, produced := s.produced ++ bytes }
  if made.replies = [] then s else (s.pushInput made.replies).1

/-- Broadcasts a chunk of which the log took `held` from `start` on: attached terminals get every
byte, the supervisor what was logged; output logged whole goes out as one frame to all. -/
def broadcastOutput (start : ℕ) (bytes : Bytes) : Held → Server τ
  | .chunk => s.broadcast P (.output start bytes)
  | .other held =>
    let s := if held = [] then s else s.broadcastTo P (· = .supervisor) (.output start held)
    s.broadcastTo P (· ≠ .supervisor) (.output start bytes)

/-- Absorbs child output, logs what the gate keeps of it and broadcasts it.  What the log could not
hold goes to the supervisor apart.  Output the emulator fails on leaves it blank: every client is
resynced to that screen and the supervisor warned. -/
def onOutput (bytes : Bytes) (held : Held) (failed : Bool) : Server τ :=
  let made := P.process s.terminal bytes
  let absorbed := s.absorb P bytes
  let logged : Server τ := { absorbed with log := absorbed.log ++ held.bytes bytes }
  let unlogged := if failed then made.logged.drop (held.bytes bytes).length else []
  if made.reset then
    let warning := if logged.resetWarning = .unneeded then .pending else logged.resetWarning
    resyncAll P { logged with resetWarning := warning }
  else
    let sent := logged.broadcastOutput P absorbed.log.length bytes held
    if unlogged = [] then sent else sent.broadcastTo P (· = .supervisor) (.unlogged unlogged)

/-! ### The clients -/

def onConnected (c : ClientId) (cloned : Bool) (races : List (List (List Move))) : Server τ :=
  let s : Server τ := { s with accepted := c + 1 }
  if cloned then
    { s with clients := Function.update s.clients c (some ⟨none, .new (.ofNat clientOutboxBytes) races, []⟩),
             ids := s.ids ++ [c] }
  else s

/-- Fixes a client's role and resyncs it.  A new supervisor evicts the previous one. -/
def onHello (c : ClientId) (role : ClientRole) : Server τ :=
  let s := if role = .supervisor then
      let supervised : Server τ := { s with supervised := true }
      (supervised.chosen (· = .supervisor)).foldl (fun s c => s.dropClient P c) supervised
    else s
  match s.clients c with
  | none => s
  | some entry =>
    let s := s.setClient c { entry with role := some role }
    let s := if role = .supervisor then { s with reportedAttached := s.writableAttached } else s
    (s.resync P c).reportAttached P

def runControl : HolderControl → Server τ × Bool
  | .pause => s.call .pause
  | .resume => s.call .resume
  | .terminate signal grace =>
    let (s', ok) := s.call (.terminate signal grace)
    (if ok then { s' with graces := s'.graces + 1 } else s', ok)
  | .kill => s.call .kill

def onMessage (c : ClientId) (m : ClientMessage) : Server τ :=
  match s.clients c with
  | none => s
  | some entry =>
    match entry.role with
    | none =>
      match m with
      | .hello role => s.onHello P c role
      | _ => s.reject P c .helloRequired
    | some role =>
      match m with
      | .hello _ => s.reject P c .alreadyIntroduced
      | .input bytes =>
        if !role.writable then s.reject P c .readOnly
        else
          let (s', took) := s.pushInput bytes
          if took then s' else s'.reject P c .inputBacklogged
      | .resize size =>
        if !role.writable then s.reject P c .readOnly
        else
          let asked : Server τ :=
            { s with resizes := s.resizes.filter (·.1 ≠ c) ++ [(c, size)] }
          match asked.applySize P size with
          | (s', some true) => s'.resyncAttached P
          | (s', some false) => s'
          | (s', none) => s'.reject P c .childUnavailable
      | .control control =>
        if role ≠ .supervisor then s.reject P c .supervisorOnly
        else
          let (s', ok) := s.runControl control
          if ok then s' else s'.reject P c .childUnavailable
      | .collectExit =>
        if role ≠ .supervisor then s.reject P c .supervisorOnly
        else if s.exit.isSome then { s with finished := true }
        else s.reject P c .notExited

end Server

/-- One step of a holder: an event its loop takes, a move of a client's writer between events, or the
map of clients giving them in another order. -/
inductive HolderEvent where
  | output (bytes : Bytes) (held : Held) (failed : Bool)
  | exited (outcome : ExitOutcome)
  | graceElapsed
  | supervisorDeadline
  | connected (client : ClientId) (cloned : Bool) (races : List (List (List Move)))
  | message (client : ClientId) (message : ClientMessage)
  | disconnected (client : ClientId)
  | writer (client : ClientId) (move : Move)
  | inputWriter (move : Move)
  | reorder (ids : List ClientId)

namespace Server

variable {τ : Type} (P : Platform τ)

def step (s : Server τ) : HolderEvent → Server τ
  | .output bytes held failed => s.onOutput P bytes held failed
  | .exited outcome => s.onExit P outcome
  | .graceElapsed =>
    let s : Server τ := { s with graces := s.graces - 1 }
    if s.childExited then s else (s.call .kill).1
  | .supervisorDeadline =>
    let s : Server τ := { s with deadlinePending := false }
    if s.supervised then s
    else
      let s := if s.childExited then s else (s.call .kill).1
      { s with finished := true }
  | .connected c cloned races => s.onConnected c cloned races
  | .message c m => s.onMessage P c m
  | .disconnected c => s.dropClient P c
  | .writer c move =>
    match s.clients c with
    | none => s
    | some entry => s.setClient c { entry with outbox := entry.outbox.move move }
  | .inputWriter move => { s with input := s.input.move move }
  | .reorder ids => { s with ids := ids }

/-- When an event may be taken: while the loop runs, a timer once it is armed, a connection under the
identity the acceptor gives it. -/
def Enabled (s : Server τ) (e : HolderEvent) : Prop :=
  s.finished = false ∧ match e with
    | .graceElapsed => 0 < s.graces
    | .supervisorDeadline => s.deadlinePending = true
    | .connected c _ _ => c = s.accepted
    | .reorder ids => ids.Perm s.ids
    | _ => True

def machine : Machine (Server τ) HolderEvent := ⟨Enabled, step P⟩

instance (s : Server τ) (e : HolderEvent) : Decidable ((machine P).Enabled s e) := by
  unfold machine Enabled
  cases e <;> exact inferInstanceAs (Decidable (_ ∧ _))

end Server

end Muster.Holder
