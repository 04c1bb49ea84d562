import Muster.Lib.Evict
import Muster.Supervisor.Domain

/-!
# EarlyOutput — what a process says while its launch is in flight

A launch keeps what its new connection delivers until the result arrives, and drops the oldest chunk,
unlogged output, warning or attach count once it keeps `earlyOutputCap` events.  A placed chunk and a
repaint are never dropped either, though the connection to a holder delivers little else: with as many
of those as the cap, what is kept grows with what is delivered.
-/

namespace Muster.Supervisor

/-- An event of a running process with all it carries. -/
inductive Delivered where
  | chunk (bytes : List UInt8)
  | placed (start : ℕ) (bytes : List UInt8)
  | unlogged (bytes : List UInt8)
  | repaint (bytes : List UInt8) (rows cols : ℕ)
  | exited (outcome : ExitOutcome)
  | unreadable (reason : String)
  | warning (text : String)
  | attached (writableClients : ℕ)
deriving DecidableEq, Repr

namespace Delivered

def output : Delivered → ProcessOutput
  | chunk _ => .chunk
  | placed _ _ => .placed
  | unlogged _ => .unlogged
  | repaint _ _ _ => .repaint
  | exited outcome => .exited outcome
  | unreadable reason => .unreadable reason
  | warning text => .warning text
  | attached writableClients => .attached writableClients

def isExit (event : Delivered) : Bool := event.output.isExit

def isUnreadable (event : Delivered) : Bool := event.output.isUnreadable

def droppable (event : Delivered) : Bool := event.output.droppable

/-- Whether the event stays, however many there are. -/
def lasts (event : Delivered) : Bool := !event.droppable

def keep : List Delivered → Delivered → List Delivered := evict PendingLaunch.earlyOutputCap droppable

def early (events : List Delivered) : List Delivered := events.foldl keep []

end Delivered

open Delivered

theorem PendingLaunch.early_foldl_keep (launch : PendingLaunch) (h : launch.early = [])
    (events : List Delivered) :
    ((events.map output).foldl PendingLaunch.keep launch).early = (Delivered.early events).map output := by
  have hkeep : ∀ (launch : PendingLaunch) (output : ProcessOutput), (launch.keep output).early =
      evict PendingLaunch.earlyOutputCap ProcessOutput.droppable launch.early output :=
        fun launch output => by
    unfold PendingLaunch.keep evict
    split <;> rfl
  induction events using List.reverseRecOn with
  | nil => exact h
  | append_singleton events event ih =>
    rw [List.map_append, List.foldl_append, Delivered.early, List.foldl_append]
    simp only [List.map_cons, List.map_nil, List.foldl_cons, List.foldl_nil]
    rw [hkeep, ih]
    exact (map_evict _ ProcessOutput.droppable output _ _).symm

theorem filter_early_of_lasts {p : Delivered → Bool} (h : ∀ event, p event → event.lasts)
    (events : List Delivered) : (early events).filter p = events.filter p := by
  have hp : ∀ l : List Delivered, l.filter p = (l.filter lasts).filter p := fun l => by
    rw [List.filter_filter]
    refine List.filter_congr fun event _ => ?_
    cases hevent : p event
    · rfl
    · rw [h event hevent]
      rfl
  rw [hp, hp events]
  exact congrArg _ (filter_evicting PendingLaunch.earlyOutputCap droppable events)

theorem lasts_of_isExit (event : Delivered) (h : event.isExit) : event.lasts := by
  cases event <;> first | rfl | cases h

theorem lasts_of_isUnreadable (event : Delivered) (h : event.isUnreadable) : event.lasts := by
  cases event <;> first | rfl | cases h

/-- The exit and the broken stream are kept, what is kept is a subsequence of what was delivered with
the newest event in it, and it is within the cap all along exactly if fewer events than that last before the
newest. -/
theorem early_bounded (events : List Delivered) :
    ((∀ delivered, delivered <+: events → (early delivered).length ≤ PendingLaunch.earlyOutputCap) ↔
      (events.dropLast.filter lasts).length < PendingLaunch.earlyOutputCap) ∧
    (early events).filter isExit = events.filter isExit ∧
    (early events).filter isUnreadable = events.filter isUnreadable ∧
    (early events).Sublist events ∧
    (early events).getLast? = events.getLast? :=
  ⟨evicting_within_iff PendingLaunch.earlyOutputCap droppable (by decide) events,
    filter_early_of_lasts lasts_of_isExit events, filter_early_of_lasts lasts_of_isUnreadable events,
    evicting_sublist PendingLaunch.earlyOutputCap droppable events,
    getLast?_evicting PendingLaunch.earlyOutputCap droppable events⟩

/-- An exit before more chunks than the cap: it stays, and the cap holds. -/
theorem early_bounded_of_chunks :
    let events := exited .failedUnknown :: List.replicate 300 (chunk [0])
    (early events).length ≤ PendingLaunch.earlyOutputCap ∧
      (early events).filter isExit = [exited .failedUnknown] := by
  intro events
  have hlasts : (events.dropLast.filter lasts).length < PendingLaunch.earlyOutputCap := by decide +kernel
  obtain ⟨hcap, hexit, -⟩ := early_bounded events
  exact ⟨hcap.2 hlasts events (List.prefix_refl _), hexit.trans (by decide +kernel)⟩

/-- Placed chunks alone, one more than the cap, are all kept. -/
theorem early_unbounded_of_placed :
    let events := List.replicate (PendingLaunch.earlyOutputCap + 1) (placed 0 [0])
    events.countP isExit = 0 ∧ events.countP isUnreadable = 0 ∧
      (early events).length = PendingLaunch.earlyOutputCap + 1 := by
  intro events
  have hlasts : ∀ event ∈ events, event.lasts := fun event hevent => by
    rw [List.eq_of_mem_replicate hevent]
    rfl
  have hkept : (early events).filter lasts = events :=
    (filter_early_of_lasts (fun _ h => h) events).trans (List.filter_eq_self.2 hlasts)
  have hsub : (early events).Sublist events :=
    evicting_sublist PendingLaunch.earlyOutputCap droppable events
  have hall : (early events).filter lasts = early events :=
    List.filter_eq_self.2 fun event hevent => hlasts event (hsub.subset hevent)
  refine ⟨?_, ?_, ?_⟩
  · exact List.countP_eq_zero.2 fun event hevent => by
      rw [List.eq_of_mem_replicate hevent]
      decide
  · exact List.countP_eq_zero.2 fun event hevent => by
      rw [List.eq_of_mem_replicate hevent]
      decide
  · rw [← hall, hkept]
    exact List.length_replicate

end Muster.Supervisor
