import Mathlib.Data.List.Basic
import Muster.Holder.Tending

/-!
# Served — what a client's writer has taken or is going to take

The frames a client's writer took and those still queued for it are of those ever put in its outbox, in
their order.  The supervisor's last count among them is the one reported, and once the exit is held every
introduced client has an exit frame.
-/

namespace Muster.Holder

open Muster.Log
open Muster.Supervisor (ExitOutcome)

def HolderMessage.isExited : HolderMessage → Bool
  | .exited _ => true
  | _ => false

variable {m : HolderMessage}

theorem HolderMessage.count_rejected (h : m.isRejected = true) : m.count = none := by
  cases m <;> simp_all [isRejected, count]

theorem HolderMessage.count_output (h : m.isOutput = true) : m.count = none := by
  cases m <;> simp_all [isOutput, count]

def lastCount (ms : List HolderMessage) : Option ℕ := (ms.filterMap HolderMessage.count).getLast?

theorem lastCount_append (ms ms' : List HolderMessage) :
    lastCount (ms ++ ms') = (lastCount ms').or (lastCount ms) := by
  simp [lastCount, List.filterMap_append, List.getLast?_append]

theorem lastCount_snoc_none {ms : List HolderMessage} (h : m.count = none) :
    lastCount (ms ++ [m]) = lastCount ms := by
  simp [lastCount, h]

theorem lastCount_snoc {ms : List HolderMessage} {n : ℕ} (h : m.count = some n) :
    lastCount (ms ++ [m]) = some n := by
  simp [lastCount, h]

namespace Scene

variable {τ : Type} {P : Platform τ} {k : Scene} {m : HolderMessage} {e : Client} {n : ℕ}
  {outcome : ExitOutcome}

theorem foldl_force_seen : ∀ (ms : List HolderMessage) (e : Client),
    (ms.foldl (k.force P) e).outbox.seen = e.outbox.seen ++ ms
  | [], e => by simp
  | m :: ms, e => by
    rw [List.foldl_cons, foldl_force_seen ms, force, ByteQueue.seen_forcePush, List.append_assoc]
    rfl

theorem resynced_seen : (k.resynced P e).outbox.seen = e.outbox.clear.2.seen ++ k.frames e :=
  foldl_force_seen _ _

theorem foldl_force_put : ∀ (ms : List HolderMessage) (e : Client),
    (ms.foldl (k.force P) e).put = e.put ++ ms.map k.stamp
  | [], e => by simp
  | m :: ms, e => by
    rw [List.foldl_cons, foldl_force_put ms]
    simp [force]

theorem resynced_put : (k.resynced P e).put = e.put ++ (k.frames e).map k.stamp := foldl_force_put _ _

theorem offered_seen (htook : took P m e = true) :
    (k.offered P m e).outbox.seen = e.outbox.seen ++ [m] := by
  have h : (e.outbox.tryPush m (.ofNat (P.wireLen m))).2 = true := htook
  simp [offered, ByteQueue.seen_tryPush, h]

theorem lastCount_frames (hcount : k.snapshot.count = some n) : lastCount (k.frames e) = some n := by
  have hrest : (e.outbox.clear.1.filter HolderMessage.isWarning ++
      (if k.owes e then [HolderMessage.warning screenResetWarning] else []) ++
      (k.exit.map HolderMessage.exited).toList).filterMap HolderMessage.count = [] := by
    rw [List.filterMap_eq_nil_iff]
    intro m hm
    rcases List.mem_append.1 hm with hm | hm
    · rcases List.mem_append.1 hm with hm | hm
      · have hw := (List.mem_filter.1 hm).2
        cases m <;> simp_all [HolderMessage.isWarning, HolderMessage.count]
      · split at hm
        · rw [List.mem_singleton.1 hm]
          rfl
        · cases hm
    · cases hexit : k.exit with
      | none => simp [hexit] at hm
      | some outcome =>
        simp only [hexit, Option.map_some, Option.toList_some, List.mem_singleton] at hm
        rw [hm]
        rfl
  unfold lastCount frames
  rw [List.filterMap_cons, hcount]
  dsimp only
  rw [hrest]
  rfl

theorem exited_mem_frames (hexit : k.exit = some outcome) : .exited outcome ∈ k.frames e := by
  simp [frames, hexit]

end Scene

/-- A client has been told the count if it supervises, and the exit once it is held. -/
structure Client.Served (x : Option ExitOutcome) (n : ℕ) (e : Client) : Prop where
  counted : e.role = some .supervisor → lastCount e.outbox.seen = some n
  told : x.isSome = true → e.role.isSome = true → ∃ m ∈ e.outbox.seen, m.isExited = true

namespace Client

variable {τ : Type} {P : Platform τ} {k : Scene} {x : Option ExitOutcome} {n w : ℕ} {e : Client}
  {m : HolderMessage} {outcome : ExitOutcome}

theorem served_resynced (hcount : k.snapshot.count = some w) : Served k.exit w (k.resynced P e) where
  counted := fun _ => by
    rw [Scene.resynced_seen, lastCount_append, Scene.lastCount_frames hcount]
    rfl
  told := fun hexit _ => by
    obtain ⟨outcome, hexit⟩ := Option.isSome_iff_exists.1 hexit
    rw [Scene.resynced_seen]
    exact ⟨_, List.mem_append_right _ (Scene.exited_mem_frames hexit), rfl⟩

theorem Served.offered (hm : m.count = none) (htook : Scene.took P m e = true)
    (h : e.Served x n) : (k.offered P m e).Served x n where
  counted := fun hrole => by
    rw [Scene.offered_seen htook, lastCount_snoc_none hm]
    exact h.counted hrole
  told := fun hexit hrole => by
    obtain ⟨m', hm', hexited⟩ := h.told hexit hrole
    rw [Scene.offered_seen htook]
    exact ⟨m', List.mem_append_left _ hm', hexited⟩

theorem served_left (hexit : k.exit = some outcome)
    (hcount : k.snapshot.count = some n) : Served (some outcome) n (k.left P outcome e) := by
  -- what the supervisor is shown first carries the count as well
  have hshown : ∀ shown, shown = (if e.role = some .supervisor then k.pushed P k.snapshot e else e) →
      e.role = some .supervisor → lastCount shown.outbox.seen = some n := by
    intro shown hshown hrole
    rw [if_pos hrole] at hshown
    rw [hshown]
    unfold Scene.pushed
    split
    · next htook => rw [Scene.offered_seen htook, lastCount_snoc hcount]
    · rw [Scene.resynced_seen, lastCount_append, Scene.lastCount_frames hcount]
      rfl
  unfold Scene.left
  dsimp only
  generalize hsh : (if e.role = some .supervisor then k.pushed P k.snapshot e else e) = shown
  have hrole : shown.role = e.role := by
    rw [← hsh]
    split <;> simp
  split
  · unfold Scene.pushed
    split
    · next htook =>
      refine ⟨fun hsup => ?_, fun _ _ => ?_⟩
      · rw [Scene.offered_seen htook, lastCount_snoc_none rfl]
        exact hshown shown hsh.symm (hrole ▸ hsup)
      · rw [Scene.offered_seen htook]
        exact ⟨_, List.mem_append_right _ (List.mem_singleton.2 rfl), rfl⟩
    · exact hexit ▸ served_resynced hcount
  · next hnone =>
    refine ⟨fun hsup => ?_, fun _ hsome => ?_⟩
    · rw [hrole] at hsup
      simp [hsup] at hnone
    · rw [hrole] at hsome
      exact absurd hsome hnone

theorem served_tended (P : Platform τ) : Tended P True (fun _ => True) Served Served where
  enter := fun h _ => h
  leave := id
  fresh := fun _ _ _ => ⟨(fun h => nomatch h), (fun _ h => nomatch h)⟩
  advanced := fun hseen _ h => ⟨fun hrole => hseen ▸ h.counted hrole,
    fun hexit hrole => hseen ▸ h.told hexit hrole⟩
  advancing := fun hseen _ h => ⟨fun hrole => hseen ▸ h.counted hrole,
    fun hexit hrole => hseen ▸ h.told hexit hrole⟩
  offered := fun hm htook h => by
    refine h.offered ?_ htook
    rcases hm with hm | ⟨hm, -⟩
    · exact HolderMessage.count_rejected hm
    · exact HolderMessage.count_output hm
  resynced := fun _ hcount _ _ => served_resynced hcount
  counted := fun {k n w e} hrole htook h => by
    refine ⟨fun _ => ?_, fun hexit hsome => ?_⟩
    · rw [Scene.offered_seen htook]
      exact lastCount_snoc rfl
    · obtain ⟨m, hm, hexited⟩ := h.told hexit hsome
      rw [Scene.offered_seen htook]
      exact ⟨m, List.mem_append_left _ hm, hexited⟩
  uncounted := fun hrole h => ⟨fun hsup => absurd hsup hrole, h.told⟩
  attached := fun _ _ hcount _ =>
    ⟨fun hrole => by simp at hrole, fun hexit hrole => (served_resynced hcount).told hexit hrole⟩
  supervised := fun _ hcount _ => served_resynced hcount
  left := fun hexit hcount _ _ _ => served_left hexit hcount

/-- What the client's writer took or is going to take was put in its outbox. -/
def Traced (_x : Option ExitOutcome) (_n : ℕ) (e : Client) : Prop :=
  e.outbox.seen.Sublist (e.put.map Put.message)

theorem Traced.offered (h : e.Traced x n) : (k.offered P m e).Traced x n := by
  unfold Traced Scene.offered Scene.took
  rw [ByteQueue.seen_tryPush]
  dsimp only
  split
  · rw [List.map_append]
    exact h.append_right [m]
  · exact h

theorem Traced.resynced (h : e.Traced x n) : (k.resynced P e).Traced x n := by
  unfold Traced
  rw [Scene.resynced_seen, Scene.resynced_put, List.map_append, List.map_map,
    show Put.message ∘ k.stamp = id from rfl, List.map_id]
  exact (ByteQueue.seen_clear.trans h).append_right _

theorem Traced.pushed (h : e.Traced x n) : (k.pushed P m e).Traced x n := by
  unfold Scene.pushed
  split
  · exact h.offered
  · exact h.offered.resynced

theorem Traced.left (h : e.Traced x n) : (k.left P outcome e).Traced x n := by
  unfold Scene.left
  dsimp only
  split <;> split
  · exact h.pushed.pushed
  · exact h.pushed
  · exact h.pushed
  · exact h

theorem traced_tended (P : Platform τ) : Tended P True (fun _ => True) Traced Traced where
  enter := fun h _ => h
  leave := id
  fresh := fun _ _ _ => .refl _
  advanced := fun hseen _ h => show List.Sublist _ _ from hseen.symm ▸ h
  advancing := fun hseen _ h => show List.Sublist _ _ from hseen.symm ▸ h
  offered := fun _ _ h => h.offered
  resynced := fun _ _ _ h => h.resynced
  counted := fun _ _ h => h.offered
  uncounted := fun _ h => h
  attached := fun _ _ _ h => Traced.resynced h
  supervised := fun _ _ h => Traced.resynced h
  left := fun _ _ _ _ h => h.left

end Client

/-- **Every client is served** from what was put in its outbox, in every state reached. -/
theorem Server.served_of_reaches {τ : Type} {P : Platform τ} {s : Server τ} {terminal : τ}
    {size : PtySize} {pid : ℕ} {log : Bytes} {runStart : ℕ} {outcomes : List Bool}
    {races : List (List (List Move))}
    (hr : (machine P).Reaches (new terminal size pid log runStart outcomes races) s) :
    s.All Client.Served ∧ s.All Client.Traced := by
  have hinv := hr.invariant
    (P := fun s => (s.Inv ∧ s.Rests) ∧ s.All Client.Served ∧ s.All Client.Traced)
    (fun s ev hs hev => ⟨⟨hs.1.1.step hev, hs.1.2.step hs.1.1 hev⟩,
      (Client.served_tended P).step hs.1.2 hev (fun _ _ _ _ => trivial) (fun _ => .inr trivial) hs.2.1,
      (Client.traced_tended P).step hs.1.2 hev (fun _ _ _ _ => trivial) (fun _ => .inr trivial) hs.2.2⟩)
    ⟨⟨new_inv .., new_rests ..⟩, fun c e he => by simp [new] at he, fun c e he => by simp [new] at he⟩
  exact hinv.2

end Muster.Holder
