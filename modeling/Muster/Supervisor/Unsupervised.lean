import Muster.Supervisor.Slot

/-!
# Unsupervised — children left running without a connection

A child whose connection was lost and that still runs is kept by its pid: a stop signals it and
polls until it is gone or the stop gives up, and a launch of its pane is refused while it runs.
-/

namespace Muster.Supervisor.Slot

/-- Kills after which a stop that a child keeps surviving is given up. -/
def unsupervisedKillLimit : ℕ := 50

variable (s : Slot)

@[simp] def unsupervisedChild : Option UnsupervisedChild := s.pane.bind (·.unsupervised)

@[simp] def onChild (change : UnsupervisedChild → UnsupervisedChild) : Slot :=
  s.onPane fun pane => { pane with unsupervised := pane.unsupervised.map change }

def runningUnsupervisedPid : Act (Option ℕ) :=
  match s.unsupervisedChild with
  | none => pure none
  | some child => do
    if ← .query (.isRunning child.pid) then
      pure (some child.pid)
    else
      pure none

@[simp] def recordUnsupervised (pid : ℕ) : Slot :=
  (s.deactivate.onPane ({ · with unsupervised := some (.observed pid) })).setState .unsupervised

/-- Records the child `pid` as unsupervised when it runs: whether it did, and the slot. -/
def leaveUnsupervised (pid : ℕ) : Act (Bool × Slot) := do
  if ← .query (.observe pid) then
    if s.pane.isSome then
      pure (true, s.recordUnsupervised pid)
    else if s.process.isSome then
      pure (true, (s.installTerminal none).recordUnsupervised pid)
    else
      pure (false, s)
  else
    pure (false, s)

def settleUnsupervisedExit : Act Slot := do
  .tellOption (s.collectAfterStop.map .collect)
  let s := { s with collectAfterStop := none }
  match s.pane with
  | none => pure s
  | some pane =>
    let s := s.onPane ({ · with unsupervised := none })
    if pane.configMembership = .retireOnExit then
      pure s.retirePane
    else
      pure (s.bumpGeneration.deactivate.setState .exited)

@[simp] def checkUnsupervisedAfter : Slot := s.advanceShutdown.scheduleForceStop

@[simp] def giveUpUnsupervisedStop : Slot :=
  (s.changeIntent (·.requestStop.stopDeliveryFailed)).setState .unsupervised

def signalUnsupervised (kill : Bool) : Act Slot :=
  match s.unsupervisedChild with
  | none => pure s
  | some child => do
    if ← .query (.isRunning child.pid) then
      let delivered ← .query (.signalGroup child.pid kill)
      if ← .query (.isRunning child.pid) then
        if delivered then
          let s := s.changeIntent (·.requestStop.stopDelivered)
          pure (s.setState .stopping).checkUnsupervisedAfter
        else
          let s := s.giveUpUnsupervisedStop
          s.notify .error
            s!"could not signal the process left running unsupervised as pid {child.pid}"
          pure s
      else
        s.settleUnsupervisedExit
    else
      s.settleUnsupervisedExit

/-- A stop that is not forced waits out the stop policy's grace, if the row is there to have one. -/
def stopUnsupervised (force : Bool) : Act Slot :=
  match s.pane with
  | none => pure s
  | some pane =>
    if !force && !pane.exitIntent.acceptsStopRequest then
      pure s
    else
      let grace := !force && s.process.isSome
      (s.onChild (·.beginStop grace)).signalUnsupervised !grace

def escalateKill (child : UnsupervisedChild) : Act Slot := do
  let s := s.onChild fun child => { child with killPolls := child.killPolls + 1 }
  let survives ←
    if unsupervisedKillLimit < child.killPolls + 1 then
      .query (.isRunning child.pid)
    else
      pure false
  if survives then
    let s := (s.onChild (·.beginStop false)).giveUpUnsupervisedStop
    s.notify .error ("the process left running unsupervised survived every kill; " ++
      s!"stop it again to retry. pid {child.pid}")
    pure s
  else
    s.signalUnsupervised true

def escalateUnsupervised : Act Slot :=
  match s.unsupervisedChild with
  | none => pure s
  | some child =>
    if child.inGrace then do
      if ← .query (.isRunning child.pid) then
        if ← .query (.withinGrace child.pid) then
          pure s.checkUnsupervisedAfter
        else
          (s.onChild ({ · with inGrace := false })).escalateKill child
      else
        s.settleUnsupervisedExit
    else
      s.escalateKill child

/-! ### Tries at adopting the child again -/

/-- The pid a retry would adopt: that of a running child nothing is being done about. -/
def retryablePid : Act (Option ℕ) :=
  if !s.isStarting && s.shows .unsupervised then s.runningUnsupervisedPid else pure none

@[simp] def beginRetry : Slot :=
  { s with
    nextRetry := s.nextRetry + 1
    retry := some { told := s.retry.bind (·.told), current := s.nextRetry + 1 } }

def isCurrentRetry (attempt : ℕ) : Bool := s.retry.any (·.current = attempt)

def probeAdoption (attempt : ℕ) (asked : Bool) : Act Slot := do
  match ← s.retryablePid with
  | none => pure s
  | some pid => pure (s.post (.probed attempt asked pid))

@[simp] def scheduleAdoptionRetry : Slot :=
  let s := s.beginRetry
  s.post (.retryDue s.nextRetry)

/-- Looks for the holder of the child that keeps the pane from being started. -/
def retryAdoptionNow : Act (Bool × Slot) := do
  match ← s.retryablePid with
  | none => pure (false, s)
  | some _ =>
    let s := s.beginRetry
    let s ← s.probeAdoption s.nextRetry true
    pure (true, s)

def refuseUnsupervisedStart (pid : ℕ) : Act Unit :=
  s.notify .error s!"cannot start: the process was left running unsupervised as pid {pid}"

/-- Whether an unsupervised child keeps the pane from being launched, settling one that is gone. -/
def refuseUnsupervisedLaunch : Act (Bool × Slot) :=
  if !s.isUnsupervised then
    pure (false, s)
  else do
    match ← s.runningUnsupervisedPid with
    | some pid =>
      let (begun, s) ← s.retryAdoptionNow
      if begun then
        pure (true, s)
      else
        s.refuseUnsupervisedStart pid
        pure (true, s)
    | none =>
      let name := s.name
      let s ← s.settleUnsupervisedExit
      if s.process.isNone then
        .tell (.notice .error name
          "cannot start: the process was removed from the project and has exited")
        pure (true, s)
      else
        pure (false, s)

end Muster.Supervisor.Slot
