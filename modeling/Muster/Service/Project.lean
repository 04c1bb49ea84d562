import Mathlib.Data.PNat.Notation
import Muster.Service.Occupancy
import Muster.Supervisor.System

/-!
# Project — a project the service has loaded

A loaded project is its supervisor with what the idle stop needs: when its last shell left, how long
it may go on without one, and which processes the last idle stop stopped.  Instants are nanoseconds
on the monotonic clock.
-/

namespace Muster

namespace Supervisor

/-- A stop of what is being launched is on record, or carried over a lost connection. -/
def PendingLaunch.isStopping (launch : PendingLaunch) : Bool :=
  match launch.intent with
  | some .stop | some .kill => true
  | some .restart => false
  | none => match launch.purpose with
    | .adopt (some carried) => carried.state = some .stopping && carried.intent.isStop
    | .adopt none | .spawn _ => false

def Slot.isStopping (s : Slot) : Bool :=
  s.shows .stopping && s.pane.any (·.exitIntent.isStop) || s.launch.any (·.isStopping)

variable (s : Supervisor)

/-- The autostart processes an `up` finds stopping. -/
def foundStopping : List ProcessName := s.order.filterMap fun pane =>
  let slot := s.slots pane
  if (slot.isLive || slot.isStarting) && !slot.isUnsupervised then
    (slot.process.filter fun r => r.spec.autostart && r.state = .stopping).map (·.spec.name)
  else
    none

def runsOrStarts (name : ProcessName) : Bool :=
  (s.paneNamed name).any fun pane => (s.slots pane).isLive || (s.slots pane).isStarting

def isIdle : Bool := s.order.all fun pane =>
  (s.slots pane).process.isNone && (s.slots pane).launch.isNone

/-- What a worker, a timer or a connection says, as opposed to what is asked of the supervisor. -/
def Event.isReport : Event → Bool
  | .sampled _ _ | .output _ _ _ | .spawned _ _ _ | .launchBlocked _ _ _ | .adopted _ _ _ _
  | .reconnectLocated _ _ _ | .adoptionProbed _ _ _ _ _ | .adoptionRetryDue _ _ | .respawn _ _
  | .forceStop _ _ _ => true
  | .up | .down | .start _ | .stop _ | .restart _ | .forceKill _ | .pause _ | .resume _
  | .stackChanged _ => false

end Supervisor

namespace Service

open Supervisor

/-- How long a project with no shell in it keeps running, or never stops for that. -/
inductive IdleStop where
  | after (duration : ℕ+)
  | never
deriving DecidableEq

def IdleStop.wait : IdleStop → Option ℕ
  | .after duration => some duration
  | .never => none

/-- A project's stored stack, with the revision it was stored at and the project's own idle stop. -/
structure Stack where
  revision : ℕ
  idleStop : Option IdleStop
  processes : List ProcessSpec

/-- What a project is loaded with besides its stack: the holders found running its processes, and how
its processes last ended. -/
structure Found where
  records : List HolderRecord
  ended : List (ProcessName × ExitOutcome)

/-- A loaded project.  The last field is history no handler reads: the panes a client's stop is in
flight of, or was, with nobody having asked for them since. -/
structure Project where
  supervisor : Supervisor
  own : Option IdleStop
  setting : IdleStop
  leftAt : Option ℤ
  idleStopping : List ProcessName
  revision : Option ℕ
  unregistered : Bool
  clientStops : ℕ → Bool

namespace Project

variable (p : Project)

def idleStop : IdleStop := p.own.getD p.setting

@[simp] def armIdle (now : ℤ) : Project := { p with leftAt := some now }

@[simp] def holdUp : Project := { p with leftAt := none }

/-- When the pending idle stop fires; none when no shell left or it never stops. -/
def idleDeadline : Option ℤ :=
  match p.idleStop.wait, p.leftAt with
  | some wait, some left => some (left + wait)
  | _, _ => none

/-- The supervisor has moved on.  A client's stop is over once the process runs unstopped or again. -/
@[simp] def move (s : Supervisor) : Project :=
  { p with
    supervisor := s
    clientStops := fun pane => p.clientStops pane && (!(s.slots pane).holdsProcess ||
      (p.supervisor.slots pane).holdsProcess && (s.slots pane).isStopping) }

def handle (event : Supervisor.Event) : Act Project := do
  let s ← p.supervisor.handle event
  pure (p.move s)

/-! ### The idle stop -/

def isDue (now : ℤ) : Bool := p.idleDeadline.any (· ≤ now)

def runsAnything : Bool := p.supervisor.order.any p.supervisor.mayBeRunning

/-- An idle stop at `now` stops something. -/
def stopsAt (now : ℤ) : Bool := p.isDue now && p.runsAnything

/-- Stops the project once its idle stop is due and it runs anything; a due stop clears either way. -/
def idleStopIfDue (now : ℤ) : Act Project :=
  if p.isDue now then
    let p := p.holdUp
    if p.runsAnything then do
      let (s, acted) ← p.supervisor.down
      pure { p.move s with idleStopping := acted }
    else
      pure p
  else
    pure p

/-- Which of the processes found stopping the last idle stop is stopping; what it stopped that has
since stopped is forgotten. -/
def takeIdleStopping (stopping : List ProcessName) : Project × List ProcessName :=
  let kept := p.idleStopping.filter (· ∈ stopping)
  ({ p with idleStopping := kept }, stopping.filter (· ∈ kept))

/-- Starts what a shell's entering starts: the project, and the processes to be waited for. -/
def enter : Act (Project × List ProcessName) := do
  let stopping := p.supervisor.foundStopping
  let p ← p.handle .up
  pure (p.takeIdleStopping stopping)

/-- A shell asks for the project, and so for what has stopped in it. -/
@[simp] def askedFor : Project :=
  { p with clientStops := fun pane =>
      p.clientStops pane && (p.supervisor.slots pane).holdsProcess }

/-! ### Clients -/

/-- Whether a request brings a process up, and so holds the idle stop off. -/
def bringsUp : Supervisor.Event → Bool
  | .up | .start _ | .restart _ => true
  | _ => false

/-- The panes a client's stop is in flight of, once `request` has taken `p` to `s`. -/
def owned (request : Supervisor.Event) (s : Supervisor) (pane : ℕ) : Bool :=
  let kept := (p.move s).clientStops pane
  let stopping := (s.slots pane).isStopping
  match request with
  | .stop name | .forceKill name => kept || stopping && p.supervisor.paneNamed name = some pane
  | .down => kept || stopping && p.supervisor.mayBeRunning pane
  | .start name | .restart name => kept && p.supervisor.paneNamed name ≠ some pane
  | .up => kept && !(p.supervisor.slots pane).process.any (·.spec.autostart)
  | _ => kept

/-- A client's accepted request: from now on the client owns what runs or stops here. -/
def serve (request : Supervisor.Event) : Act Project := do
  let s ← p.supervisor.handle request
  pure { p.move s with
    idleStopping := []
    leftAt := if bringsUp request then none else p.leftAt
    clientStops := p.owned request s }

/-! ### Stacks -/

/-- Applies the stored stack; a project no longer registered applies an empty one. -/
def stackChanged : Option Stack → Act Project
  | some stack => do
    let p ← p.handle (.stackChanged stack.processes)
    pure { p with own := stack.idleStop, revision := some stack.revision, unregistered := false }
  | none => do
    let p ← p.handle (.stackChanged [])
    pure { p with revision := none, unregistered := true }

/-- Applies the stored stack again when the store has moved past what was applied. -/
def refreshStack (stored : Option Stack) : Act Project :=
  if stored.map (·.revision) = p.revision then pure p else p.stackChanged stored

/-- Loads a project over its stack; one that is not registered only while it still runs something. -/
def load (stored : Option Stack) (found : Found) (setting : IdleStop) : Option (Act Project) :=
  let loaded (processes : List ProcessSpec) (own : Option IdleStop) : Act Project := do
    let supervisor ← Supervisor.load processes found.ended found.records
    pure { supervisor, own, setting, leftAt := none, idleStopping := [],
           revision := stored.map (·.revision), unregistered := stored.isNone,
           clientStops := fun _ => false }
  match stored with
  | some stack => some (loaded stack.processes stack.idleStop)
  | none => if found.records.isEmpty then none else some (loaded [] none)

/-- Lets go of the exits whose restart will not come. -/
@[simp] def settle : Project := p.move p.supervisor.settled

end Project

end Service

end Muster
