import Mathlib.Data.List.Basic
import Muster.Supervisor.Adopter

/-!
# Shape — what a pane can be in the middle of

Between two events a pane is in one of five shapes: it has no row; it holds nothing; it has a launch
in flight; it has a live connection; or it has a child left unsupervised, perhaps with the adoption
that takes that child back in flight.  `Shape` lists them with the state each may show.

What a shape further promises depends on the `Terms` the pane is under: that a pane shown as
restarting has its respawn outstanding, that a stop still stands, that the stack dropped the row.  A
promise may be due: the handler that settles a launch owes the pane what was asked of it while the
launch was in flight, and pays it last.
-/

namespace Muster.Supervisor

def ProcessState.isSettled : ProcessState → Bool
  | pending | exited | crashed | blocked | restarting => true
  | starting | running | paused | stopping | unsupervised => false

def ProcessState.isConnected : ProcessState → Bool
  | running | paused | stopping => true
  | pending | starting | exited | crashed | restarting | unsupervised | blocked => false

namespace Posted

/-- The generation an event is for; 0 for the tries at adopting again, which have their own ids. -/
def tag : Posted → ℕ
  | spawned g | located g | adopted g _ | respawn g | forceStop g _ => g
  | probed _ _ _ | retryDue _ => 0

/-- The event is a worker's result that a launch for `purpose` waits for, or no launch's at all. -/
def Settles : Posted → LaunchPurpose → Prop
  | spawned _, purpose => ∃ restarting, purpose = .spawn restarting
  | located _, purpose => ∃ carried, purpose = .adopt (some carried)
  | adopted _ _, purpose => ∃ carried, purpose = .adopt carried
  | _, _ => True

def isSearch : Posted → Bool
  | located _ => true
  | spawned _ | adopted _ _ | probed _ _ _ | respawn _ | forceStop _ _ | retryDue _ => false

/-- The event neither settles a launch nor begins one. -/
def isReminder : Posted → Bool
  | probed _ _ _ | forceStop _ _ | retryDue _ => true
  | spawned _ | located _ | adopted _ _ | respawn _ => false

end Posted

/-- The intent a launch carries over from the connection it takes back. -/
def LaunchPurpose.carriedIntent : LaunchPurpose → ExitIntent
  | adopt (some carried) => carried.intent
  | adopt none | spawn _ => .followPolicy

/-- What a pane promises.  `restarts`: while it is shown as restarting its respawn is outstanding.
`stop` and `drop`: a stop stands, the stack dropped its row, and that many spawns had been handed to
the runner by then; `stopDue` and `dropDue` while the pane is yet to be told.  `calm`: no live
connection of it is to be restarted.  `spec`: what its definition satisfies, for as long as it has a
row.  `since`: that many generations were handed out. -/
structure Terms where
  since : ℕ
  restarts : Bool
  spec : ProcessSpec → Prop
  calm : Bool
  stop : Option ℕ
  stopDue : Bool
  drop : Option ℕ
  dropDue : Bool

def Terms.sound (t : Terms) : Prop := ∀ spec, t.spec spec → spec.storedProblem = none

namespace Slot

def Bare (pane : Option Pane) : Prop := ∀ p ∈ pane, p.handle = none ∧ p.unsupervised = none

/-- A launch that fails goes back to the state it was begun in: for a reconnection one of a live
pane, which the pane is there to leave; for an adoption one of an idle pane. -/
def PriorFits (launch : PendingLaunch) (pane : Option Pane) : Prop :=
  match launch.purpose with
  | .spawn _ => True
  | .adopt none => launch.priorState.isSettled ∧ launch.priorState ≠ .restarting
  | .adopt (some carried) =>
    carried.state = some launch.priorState ∧ launch.priorState.isConnected ∧ pane.isSome

def Stops (launch : PendingLaunch) : Prop :=
  launch.intent = some .stop ∨ launch.intent = some .kill ∨
    launch.intent = none ∧ launch.purpose.carriedIntent.isStop

def Retires (launch : PendingLaunch) (pane : Option Pane) : Prop :=
  match launch.purpose with
  | .adopt (some carried) => (carried.withMembership launch.membership).membership = .retireOnExit ∧
      ∀ p ∈ pane, p.configMembership = .retireOnExit
  | .adopt none | .spawn _ => launch.membership = some .retireOnExit

/-- A retry's launch adopts the child that was left unsupervised, over the pane that records it.  None
is begun for a child to be stopped. -/
structure Retry (t : Terms) (s : Slot) (launch : PendingLaunch) : Prop where
  current : launch.generation = s.generation
  purpose : launch.purpose = .adopt none
  prior : launch.priorState = .unsupervised
  stop : t.stop = none
  drop : t.drop.isSome → launch.membership ≠ some .tracked

/-- The five shapes of a pane under the terms `t`. -/
inductive Shape (t : Terms) (s : Slot) : Prop
  | gone (process : s.process = none) (pane : s.pane = none) (launch : s.launch = none)
  | idle (spec : ProcessSpec) (state : ProcessState) (process : s.process = some ⟨spec, state⟩)
    (pane : Bare s.pane) (launch : s.launch = none) (settled : state.isSettled)
    (restarts : t.restarts → state = .restarting → .respawn s.generation ∈ s.posted)
    (stop : t.stop.isSome → t.stopDue = false → .respawn s.generation ∉ s.posted)
    (drop : t.drop.isSome → t.dropDue)
  | launching (spec : ProcessSpec) (launched : PendingLaunch)
    (process : s.process = some ⟨spec, .starting⟩) (pane : Bare s.pane)
    (launch : s.launch = some launched) (current : launched.generation = s.generation)
    (prior : PriorFits launched s.pane)
    (calm : t.stop.isSome → launched.purpose.carriedIntent.isRestart = false)
    (stop : t.stop.isSome → t.stopDue = false → Stops launched)
    (drop : t.drop.isSome → Retires launched s.pane)
  | live (spec : ProcessSpec) (state : ProcessState) (handle : Handle) (intent : ExitIntent)
    (shutdown : ℕ) (membership : ConfigMembership) (process : s.process = some ⟨spec, state⟩)
    (pane : s.pane = some ⟨some handle, none, intent, shutdown, membership⟩)
    (launch : s.launch = none) (connected : state.isConnected)
    (calm : t.calm → intent.isRestart = false)
    (stop : t.stop.isSome → t.stopDue = false → intent.isStop)
    (drop : t.drop.isSome → t.dropDue = false → membership = .retireOnExit)
  | left (spec : ProcessSpec) (state : ProcessState) (child : UnsupervisedChild)
    (intent : ExitIntent) (shutdown : ℕ) (membership : ConfigMembership)
    (process : s.process = some ⟨spec, state⟩)
    (pane : s.pane = some ⟨none, some child, intent, shutdown, membership⟩)
    (alone : state = .unsupervised ∧ intent.awaitsForceStop = false ∨
      state = .stopping ∧ s.launch = none)
    (launch : ∀ launch ∈ s.launch, Retry t s launch)
    (stop : t.stop.isSome → t.stopDue = false → intent.isStop)
    (drop : t.drop.isSome → t.dropDue = false → membership = .retireOnExit)

/-- What workers and timers owe the pane fits what it is in the middle of: every event is for a
generation handed out, one for the current generation settles the launch in flight or reminds, the
search for a lost connection's holder is the launch in flight and comes back once, before the
adoption, the adoption in flight over an unsupervised child is of that child, a respawn is of a pane
holding nothing, and the current connection, made or still to be made, has at most one exit to
report. -/
structure Booked (s : Slot) : Prop where
  old : ∀ e ∈ s.posted, e.tag ≤ s.generation
  fits : ∀ e ∈ s.posted, e.tag = s.generation → ∀ launch ∈ s.launch, e.Settles launch.purpose
  sought : ∀ g, .located g ∈ s.posted → g = s.generation ∧ s.launch.isSome ∧
    .located g ∉ s.posted.erase (.located g) ∧ ∀ record, .adopted g record ∉ s.posted
  ours : ∀ record, .adopted s.generation record ∈ s.posted → s.launch.isSome →
    ∀ child ∈ s.unsupervisedChild, record.childPid = child.pid
  respawns : .respawn s.generation ∈ s.posted → s.launch = none ∧ Bare s.pane ∧
    ∃ r ∈ s.process, r.state = .restarting ∨ r.state = .blocked
  exits : s.mayExit → s.launch.isSome ∨ s.isLive
  early : ∀ launch ∈ s.launch, launch.early.countP ProcessOutput.isExit + s.mayExit.toNat +
    (s.posted.any Posted.isSearch).toNat ≤ 1

/-- What the history of a pane says under the terms `t`. -/
structure Logged (t : Terms) (s : Slot) : Prop where
  bare : ∀ holding ∈ s.handed, holding = ⟨false, false, false⟩
  stop : ∀ n ∈ t.stop, s.handed.length = n
  drop : ∀ n ∈ t.drop, s.handed.length = n
  spec : ∀ r ∈ s.process, t.spec r.spec
  since : t.since ≤ s.generation

/-- The invariant of a pane under the terms `t`. -/
structure Inv (t : Terms) (s : Slot) : Prop where
  shape : Shape t s
  booked : Booked s
  logged : Logged t s

end Slot

end Muster.Supervisor
