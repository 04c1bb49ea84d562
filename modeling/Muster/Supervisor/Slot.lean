import Muster.Lib.Acts
import Muster.Supervisor.Domain

/-!
# Slot — what a supervisor keeps under one pane

The supervisor's tables are keyed by pane; everything they hold under one pane is a `Slot`: the
workspace row, the terminal, the generation counter, the launch in flight, the exit held for a
restart, the adoption retries, and what worker threads and timers still owe the pane.  The small
updates here are those every handler is written with.
-/

namespace Muster.Supervisor

inductive NoticeLevel where
  | warning | error
deriving DecidableEq, Repr

/-- What supervision does to the world outside it, and what it asks there. -/
inductive Effect where
  | notice (level : NoticeLevel) (process : Option ProcessName) (message : String)
  | isNews (message : String)
  | isRunning (pid : ℕ)
  | observe (pid : ℕ)
  | signalGroup (pid : ℕ) (kill : Bool)
  | withinGrace (pid : ℕ)
  | terminate (handle : Handle)
  | kill (handle : Handle)
  | pause (handle : Handle)
  | resume (handle : Handle)
  | acknowledgeExit (handle : Handle)
  | abandon (handle : Handle)
  | collect (socket : String)
  | collectExit (socket : String)
deriving DecidableEq, Repr

abbrev Act := Acts Effect

/-- What a worker thread or a timer still owes a pane. -/
inductive Posted where
  | spawned (generation : ℕ)
  | located (generation : ℕ)
  | adopted (generation : ℕ) (record : HolderRecord)
  | probed (attempt : ℕ) (asked : Bool) (pid : ℕ)
  | respawn (generation : ℕ)
  | forceStop (generation shutdownGeneration : ℕ)
  | retryDue (attempt : ℕ)
deriving DecidableEq, Repr

/-- What a pane held when a spawn was handed to the runner. -/
structure Holding where
  live : Bool
  starting : Bool
  unsupervised : Bool
deriving DecidableEq, Repr

/-- A pane's adoption retries: the holder told about last and the try that counts. -/
structure PaneRetry where
  told : Option ℕ
  current : ℕ
deriving DecidableEq, Repr

/-- What the supervisor keeps under one pane id.  A `generation` of 0 is a counter not started.
`portBlock` is what the last port sample holds against a launch.  The last two fields are history no
handler reads: whether the current connection may still report an exit, and what was held at each
spawn handed to the runner. -/
structure Slot where
  process : Option Process
  pane : Option Pane
  generation : ℕ
  launch : Option PendingLaunch
  stoppedAdoption : Option ℕ
  heldExit : Option Handle
  retry : Option PaneRetry
  nextRetry : ℕ
  collectAfterStop : Option String
  portBlock : Option String
  posted : List Posted
  mayExit : Bool
  handed : List Holding
deriving DecidableEq, Repr

namespace Slot

def empty : Slot where
  process := none
  pane := none
  generation := 0
  launch := none
  stoppedAdoption := none
  heldExit := none
  retry := none
  nextRetry := 0
  collectAfterStop := none
  portBlock := none
  posted := []
  mayExit := false
  handed := []

variable (s : Slot)

@[simp] def isLive : Bool := s.pane.any (·.handle.isSome)

@[simp] def isStarting : Bool := s.launch.isSome

def isSpawning : Bool :=
  match s.launch with
  | some launch => match launch.purpose with
    | .spawn _ => true
    | .adopt _ => false
  | none => false

@[simp] def isUnsupervised : Bool := s.pane.any (·.unsupervised.isSome)

@[simp] def holdsProcess : Bool := s.isLive || s.isStarting || s.isUnsupervised

@[simp] def holding : Holding := ⟨s.isLive, s.isStarting, s.isUnsupervised⟩

@[simp] def shows (state : ProcessState) : Bool := s.process.any (·.state = state)

@[simp] def isPaused : Bool := s.shows .paused

def awaitsRespawn : Bool := s.isSpawning || s.shows .restarting

def shouldRestart (outcome : ExitOutcome) : Bool :=
  s.process.any (·.spec.restart.shouldRestart outcome)

@[simp] def name : Option ProcessName := s.process.map (·.spec.name)

def notify (level : NoticeLevel) (message : String) : Act Unit :=
  .tell (.notice level s.name message)

@[simp] def setState (state : ProcessState) : Slot :=
  { s with process := s.process.map ({ · with state }) }

@[simp] def setSpec (spec : ProcessSpec) : Slot :=
  { s with process := s.process.map ({ · with spec }) }

@[simp] def addRow (spec : ProcessSpec) : Slot := { s with process := some spec.toProcess }

@[simp] def onPane (change : Pane → Pane) : Slot := { s with pane := s.pane.map change }

@[simp] def changeIntent (change : ExitIntent → ExitIntent) : Slot :=
  s.onPane fun pane => { pane with exitIntent := change pane.exitIntent }

@[simp] def onLaunch (change : PendingLaunch → PendingLaunch) : Slot :=
  { s with launch := s.launch.map change }

@[simp] def post (event : Posted) : Slot := { s with posted := event :: s.posted }

@[simp] def receive (event : Posted) : Slot := { s with posted := s.posted.erase event }

/-- A connection reports its exit once. -/
@[simp] def report (generation : ℕ) (output : ProcessOutput) : Slot :=
  if output.isExit && s.generation = generation then { s with mayExit := false } else s

/-- The outputs of an earlier generation are dropped, so its connection reports no exit any more. -/
@[simp] def advanceGeneration : Slot := { s with generation := s.generation + 1, mayExit := false }

@[simp] def bumpGeneration : Slot := { s with launch := none }.advanceGeneration

@[simp] def advanceShutdown : Slot :=
  s.onPane fun pane => { pane with shutdownGeneration := pane.shutdownGeneration + 1 }

@[simp] def deactivate : Slot :=
  s.onPane fun pane => { pane with handle := none, exitIntent := .followPolicy }

@[simp] def beginLaunch (launch : PendingLaunch) : Slot := { s with launch := some launch }

/-- A pane without a row gets no terminal. -/
@[simp] def installTerminal (handle : Option Handle) : Slot :=
  if s.process.isSome then { s with pane := some (Pane.new handle) } else s

@[simp] def installPane (handle : Handle) : Slot :=
  (s.installTerminal (some handle)).setState .running

@[simp] def retirePane : Slot :=
  { { s with pane := none }.bumpGeneration with stoppedAdoption := none, process := none }

@[simp] def recordIntent (intent : PendingIntent) : Slot :=
  s.onLaunch ({ · with intent := some intent })

@[simp] def recordSuspend (pause : Bool) : Slot := s.onLaunch ({ · with suspend := some pause })

@[simp] def setMembership (membership : ConfigMembership) : Slot :=
  (s.onLaunch ({ · with membership := some membership })).onPane
    ({ · with configMembership := membership })

/-- Takes the launch in flight to settle it; a connection it failed to make reports no exit. -/
@[simp] def endLaunch (connected : Bool) : Slot :=
  { s with launch := none, mayExit := s.mayExit && connected }

/-- The launch of `generation`, if it is the one in flight and still current. -/
def takeLaunch (generation : ℕ) : Option PendingLaunch :=
  if s.generation = generation then s.launch.filter (·.generation = generation) else none

@[simp] def scheduleForceStop : Slot :=
  match s.pane with
  | some pane => s.post (.forceStop s.generation pane.shutdownGeneration)
  | none => s

/-- `scheduleRestart` waits out the backoff and then asks for the pane again. -/
@[simp] def scheduleRestart : Slot :=
  let s := s.bumpGeneration
  s.post (.respawn s.generation)

def acknowledge (handle : Handle) : Act Unit := do
  if ← .query (.acknowledgeExit handle) then
    pure ()
  else
    s.notify .warning
      "could not release the finished process; a later start may report its exit again"

def releaseHeldExit : Act Slot :=
  match s.heldExit with
  | some handle => do
    let s := { s with heldExit := none }
    s.acknowledge handle
    pure s
  | none => pure s

@[simp] theorem all_notify {P : Unit → Prop} (level : NoticeLevel) (message : String) :
    (s.notify level message).All P ↔ P () := Iff.rfl

@[simp] theorem all_acknowledge {P : Unit → Prop} (handle : Handle) :
    (s.acknowledge handle).All P ↔ P () := by
  simp [acknowledge]

/-- Run after every event the pane was handed. -/
def releaseSettledExit : Act Slot := if s.awaitsRespawn then pure s else s.releaseHeldExit

end Slot

end Muster.Supervisor
