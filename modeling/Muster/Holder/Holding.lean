import Muster.Holder.Ends
import Muster.Holder.PtyRunner
import Muster.Holder.Signals

/-!
# Holding — a holder's loop over its child's runner

The loop takes what the runner's threads sent, in order, and a stop it asks for publishes its grace to the
waiter.  The loop is proved about under the terms that the exit comes once and no output after it
(`Server.Quiet`); here the runner is shown to keep them.
-/

namespace Muster.Holder

open Muster.Log
open Muster.Supervisor (ExitOutcome)

/-- The graces of the stops among calls on the child's handle, which the handle publishes before it
signals. -/
def stopGraces (calls : List ChildCall) : List ℕ :=
  calls.filterMap fun
    | .terminate _ grace => some grace
    | _ => none

/-- A holder's loop and its child's runner: the loop takes what the runner sent, in order. -/
structure Holding (τ : Type) where
  server : Server τ
  runner : Pty.Runner
  /-- How much of what the runner sent the loop has taken. -/
  taken : ℕ

inductive HoldingEvent where
  | runner (event : Pty.Event)
  | loop (event : HolderEvent)

def Pty.Event.publishes : Pty.Event → Bool
  | .stopping _ => true
  | _ => false

namespace Holding

variable {τ : Type} (P : Platform τ) (signalName : String → Option String)

/-- What of the runner's an event of the loop takes. -/
def takes : HolderEvent → Option Pty.Output
  | .output bytes _ _ => some (.chunk bytes)
  | .exited outcome => some (.exited outcome)
  | _ => none

/-- The child's events the loop takes are the runner's next. -/
def Enabled (h : Holding τ) : HoldingEvent → Prop
  | .runner event => (Pty.Runner.machine signalName).Enabled h.runner event ∧ event.publishes = false
  | .loop event => (Server.machine P).Enabled h.server event ∧
    ∀ output ∈ takes event, h.runner.sent[h.taken]? = some output

def next (h : Holding τ) : HoldingEvent → Holding τ
  | .runner event => { h with runner := h.runner.next signalName event }
  | .loop event =>
    let server := h.server.step P event
    { server
      runner := (stopGraces (server.calls.drop h.server.calls.length)).foldl Pty.Runner.publish h.runner
      taken := h.taken + (takes event).toList.length }

def machine : Machine (Holding τ) HoldingEvent := ⟨Enabled P signalName, next P signalName⟩

instance decidableMachine (h : Holding τ) :
    ∀ e, Decidable ((machine P signalName).Enabled h e)
  | .runner _ | .loop _ => inferInstanceAs (Decidable (_ ∧ _))

end Holding

namespace Server

variable {τ : Type} {P : Platform τ} {s : Server τ}

theorem Rests.exit_step (hs : s.Rests) {ev : HolderEvent} (hev : ∀ outcome, ev ≠ .exited outcome) :
    (s.step P ev).exit = s.exit := by
  cases ev with
  | output bytes held failed => exact (hs.kept_onOutput bytes held failed).exit
  | exited outcome => exact absurd rfl (hev outcome)
  | graceElapsed =>
    unfold Server.step
    dsimp only
    split <;> rfl
  | supervisorDeadline =>
    unfold Server.step
    dsimp only
    split
    · rfl
    · split <;> rfl
  | connected c cloned races =>
    unfold Server.step Server.onConnected
    dsimp only
    split <;> rfl
  | message c m =>
    have heffect := hs.onMessage_effect (P := P) c m
    show (s.onMessage P c m).exit = s.exit
    generalize s.onMessage P c m = s' at heffect
    cases heffect with
    | served h | greeted _ _ h => exact h.exit
    | controlled control _ h =>
      refine h.exit.trans ?_
      cases control with
      | terminate signal grace =>
        unfold Server.runControl
        dsimp only
        split <;> rfl
      | pause | resume | kill => rfl
    | collected _ _ => rfl
  | disconnected c => exact (hs.kept_dropClient c).exit
  | writer c move =>
    unfold Server.step
    dsimp only
    split <;> rfl
  | inputWriter move => rfl
  | reorder ids => rfl

end Server

namespace Holding

variable {τ : Type} {P : Platform τ} {signalName : String → Option String} {h : Holding τ}

/-- With the exit held, the loop has taken everything the runner will ever send. -/
def Took (h : Holding τ) : Prop :=
  h.server.exit.isSome = true → h.runner.waiter = .reported ∧ h.runner.sent.length ≤ h.taken

theorem sent_of_reported {s : Pty.Runner} (hinv : s.Inv signalName) (hreported : s.waiter = .reported)
    {e : Pty.Event} (he : s.Enabled signalName e) :
    (s.next signalName e).waiter = .reported ∧ (s.next signalName e).sent = s.sent := by
  have hgone := (hinv.told hreported).1
  cases e with
  | reader => simp [Pty.Runner.Enabled, Pty.Runner.readerTurn, hgone] at he
  | waiter _ => simp [Pty.Runner.Enabled, Pty.Runner.waiterTurn, hreported] at he
  | wrote _ | letGo | childEnded _ | groupEnded | passed _ | stopping _ | read _ | readEnd | readError =>
    exact ⟨hreported, rfl⟩

theorem publish_all (signalName : String → Option String) (graces : List ℕ) (s : Pty.Runner) :
    (Pty.Runner.machine signalName).Reaches s (graces.foldl Pty.Runner.publish s) ∧
    (graces.foldl Pty.Runner.publish s).waiter = s.waiter ∧
    (graces.foldl Pty.Runner.publish s).sent = s.sent := by
  induction graces generalizing s with
  | nil => exact ⟨.refl, rfl, rfl⟩
  | cons grace graces ih =>
    obtain ⟨hr, hwaiter, hsent⟩ := ih (s.publish grace)
    exact ⟨.head ⟨.stopping grace, trivial, rfl⟩ hr, hwaiter, hsent⟩

theorem Took.quiet (htook : h.Took) {event : HolderEvent}
    (hnext : ∀ output ∈ takes event, h.runner.sent[h.taken]? = some output) : h.server.Quiet event := by
  have hnone : ∀ output, takes event = some output → h.server.exit = none := by
    intro output hout
    by_contra hexit
    obtain ⟨-, hlen⟩ := htook (Option.isSome_iff_ne_none.2 hexit)
    have hget := hnext output hout
    rw [List.getElem?_eq_none hlen] at hget
    cases hget
  cases event with
  | output bytes _ _ => exact hnone (.chunk bytes) rfl
  | exited outcome => exact hnone (.exited outcome) rfl
  | _ => trivial

/-- The exit is the last thing the loop takes. -/
theorem taken_of_exit (hinv : h.runner.Inv signalName) {outcome : ExitOutcome}
    (hget : h.runner.sent[h.taken]? = some (.exited outcome)) :
    h.runner.waiter = .reported ∧ h.runner.sent.length ≤ h.taken + 1 := by
  have hreported : h.runner.waiter = .reported := by
    by_contra hne
    exact hinv.silent hne outcome (List.mem_of_getElem? hget)
  obtain ⟨-, chunks, last, hlast, hother⟩ := hinv.told hreported
  refine ⟨hreported, ?_⟩
  rw [hlast] at hget ⊢
  by_contra hlen
  have hlt : h.taken < chunks.length := by
    rw [List.length_append, List.length_singleton] at hlen
    omega
  rw [List.getElem?_append_left hlt] at hget
  exact hother outcome (List.mem_of_getElem? hget)

theorem Took.loop (htook : h.Took) (hinv : h.runner.Inv signalName) (hrests : h.server.Rests)
    {event : HolderEvent} (hnext : ∀ output ∈ takes event, h.runner.sent[h.taken]? = some output) :
    (h.next P signalName (.loop event)).Took := by
  intro hexit
  have hpublished := publish_all signalName
    (stopGraces ((h.server.step P event).calls.drop h.server.calls.length)) h.runner
  obtain ⟨-, hwaiter, hsent⟩ := hpublished
  rw [show (h.next P signalName (.loop event)).runner.waiter = h.runner.waiter from hwaiter,
    show (h.next P signalName (.loop event)).runner.sent = h.runner.sent from hsent]
  show _ ∧ _ ≤ h.taken + (takes event).toList.length
  by_cases hev : ∃ outcome, event = .exited outcome
  · obtain ⟨outcome, rfl⟩ := hev
    exact taken_of_exit hinv (hnext (.exited outcome) rfl)
  · have hsame := hrests.exit_step (P := P) fun outcome houtcome => hev ⟨outcome, houtcome⟩
    obtain ⟨hreported, hlen⟩ := htook (hsame ▸ hexit)
    exact ⟨hreported, by omega⟩

/-- **The runner keeps the loop's terms.**  Over every interleaving of a holder's loop with its child's
runner, the loop's run is one in which the exit comes once and no output comes after it, and the runner's
is a run of its own. -/
theorem runner_feeds_quietly {terminal : τ} {size : PtySize} {pid : ℕ} {log : Bytes} {runStart : ℕ}
    {outcomes : List Bool} {races : List (List (List Move))} {known : Bool}
    (hr : (machine P signalName).Reaches
      ⟨.new terminal size pid log runStart outcomes races, .new known, 0⟩ h) :
    ((Server.machine P).restrict Server.Quiet).Reaches
      (.new terminal size pid log runStart outcomes races) h.server ∧
    (Pty.Runner.machine signalName).Reaches (.new known) h.runner := by
  have hrun := hr.invariant (P := fun h : Holding τ => (((Server.machine P).restrict Server.Quiet).Reaches
      (.new terminal size pid log runStart outcomes races) h.server ∧
      (Pty.Runner.machine signalName).Reaches (.new known) h.runner) ∧ h.Took) (fun h e hh he => ?_)
    ⟨⟨.refl, .refl⟩, fun hexit => by cases hexit⟩
  · exact hrun.1
  obtain ⟨⟨hserver, hrunner⟩, htook⟩ := hh
  have hinv := Pty.Runner.inv_of_reaches hrunner
  cases e with
  | runner event =>
    refine ⟨⟨hserver, hrunner.next he.1⟩, fun hexit => ?_⟩
    obtain ⟨hreported, hlen⟩ := htook hexit
    obtain ⟨hreported', hsent⟩ := sent_of_reported hinv hreported he.1
    exact ⟨hreported', Nat.le_trans (Nat.le_of_eq (congrArg List.length hsent)) hlen⟩
  | loop event =>
    obtain ⟨henabled, hnext⟩ := he
    obtain ⟨hpublished, -, -⟩ := publish_all signalName
      (stopGraces ((h.server.step P event).calls.drop h.server.calls.length)) h.runner
    exact ⟨⟨hserver.next ⟨henabled, htook.quiet hnext⟩, Relation.ReflTransGen.trans hrunner hpublished⟩,
      htook.loop hinv (Server.rests_of_reaches hserver.of_restrict).2 hnext⟩

/-- A supervisor stops a child that writes once more before it ends. -/
def stoppedRun : List HoldingEvent :=
  [.loop (.connected 0 true []), .loop (.message 0 (.hello .supervisor)), .runner (.wrote [104, 105]),
    .runner (.read 1), .loop (.message 0 (.control (.terminate .interrupt 5))),
    .runner (.childEnded ⟨0, none⟩), .runner .reader, .loop (.output [104] .chunk false),
    .runner .groupEnded, .runner .letGo, .runner (.waiter true), .runner (.waiter true),
    .runner (.read 1), .runner .reader, .runner .readEnd, .runner .reader, .runner (.waiter true),
    .runner .reader, .runner (.waiter true), .runner (.waiter true), .runner (.waiter true),
    .loop (.output [105] .chunk false), .loop (.exited .succeeded)]

theorem runner_feeds_quietly_stopped :
    let start : Holding Unit := ⟨.new () ⟨24, 80⟩ 7 [] 0 [true] [], .new true, 0⟩
    let h := (machine Server.plain fun _ => none).play start stoppedRun
    h.server.exit = some .succeeded ∧
    ((Server.machine Server.plain).restrict Server.Quiet).Reaches start.server h.server := by
  have hr : (machine Server.plain fun _ => none).Reaches
      ⟨.new () ⟨24, 80⟩ 7 [] 0 [true] [], .new true, 0⟩
      ((machine Server.plain fun _ => none).play
        ⟨.new () ⟨24, 80⟩ 7 [] 0 [true] [], .new true, 0⟩ stoppedRun) := Machine.reaches_play (by decide)
  exact ⟨by decide, (runner_feeds_quietly hr).1⟩

end Holding

end Muster.Holder
