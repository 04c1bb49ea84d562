import Muster.Holder.Served

/-!
# Ends — how a holder's run ends

The loop ends when the supervisor collects the exit, or at the first deadline when no supervisor ever
came.  Every introduced client is told the exit.  Nothing of the child's comes after it, as long as no
resync finds a warning the client has not taken: what a resync keeps it puts after the exit frame.
-/

namespace Muster.Holder

open Muster.Log
open Muster.Supervisor (ExitOutcome)

/-- Output, or a warning: what belongs before the exit. -/
def HolderMessage.isLive (m : HolderMessage) : Bool := m.isOutput || m.isWarning

/-- Nothing that belongs before the exit is put after an exit frame. -/
def Orderly (put : List Put) : Prop :=
  put.Pairwise fun p q => p.message.isExited = true → q.message.isLive = false

theorem orderly_of_open {put : List Put} (h : ∀ p ∈ put, p.message.isExited = false) : Orderly put :=
  List.Pairwise.imp_of_mem (fun hp _ _ hexited => absurd hexited (by simp [h _ hp]))
    (List.pairwise_of_forall fun _ _ => trivial)

theorem Orderly.append {put more : List Put} (h : Orderly put) (hmore : Orderly more)
    (hquiet : (∀ p ∈ put, p.message.isExited = false) ∨ ∀ q ∈ more, q.message.isLive = false) :
    Orderly (put ++ more) := by
  refine List.pairwise_append.2 ⟨h, hmore, fun p hp q hq hexited => ?_⟩
  rcases hquiet with hopen | hquiet
  · rw [hopen p hp] at hexited
    cases hexited
  · exact hquiet q hq

namespace Scene

variable {τ : Type} {P : Platform τ} {k : Scene} {m : HolderMessage} {e : Client}

theorem frames_eq : k.frames e = (k.snapshot :: (e.outbox.clear.1.filter HolderMessage.isWarning ++
    if k.owes e then [.warning screenResetWarning] else [])) ++ (k.exit.map .exited).toList := by
  simp [frames]

theorem of_count {n : ℕ} (h : m.count = some n) : m.isExited = false ∧ m.isLive = false := by
  cases m <;> simp_all [HolderMessage.count, HolderMessage.isExited, HolderMessage.isLive,
    HolderMessage.isOutput, HolderMessage.isWarning]

section

variable {n : ℕ} (hcount : k.snapshot.count = some n)
include hcount

theorem open_frames : ∀ m ∈ k.snapshot :: (e.outbox.clear.1.filter HolderMessage.isWarning ++
    if k.owes e then [.warning screenResetWarning] else []), m.isExited = false := by
  intro m hm
  rcases List.mem_cons.1 hm with rfl | hm
  · exact (of_count hcount).1
  · rcases List.mem_append.1 hm with hm | hm
    · have hw := (List.mem_filter.1 hm).2
      cases m <;> simp_all [HolderMessage.isWarning, HolderMessage.isExited]
    · split at hm
      · rw [List.mem_singleton.1 hm]
        rfl
      · cases hm

theorem orderly_frames : Orderly ((k.frames e).map k.stamp) := by
  rw [frames_eq, List.map_append]
  have hopen : ∀ p ∈ (k.snapshot :: (e.outbox.clear.1.filter HolderMessage.isWarning ++
      if k.owes e then [.warning screenResetWarning] else [])).map k.stamp,
      p.message.isExited = false := by
    intro p hp
    obtain ⟨m, hm, rfl⟩ := List.mem_map.1 hp
    exact open_frames hcount m hm
  refine (orderly_of_open hopen).append ?_ (.inl hopen)
  cases k.exit with
  | none => exact List.Pairwise.nil
  | some outcome => exact List.pairwise_singleton _ _

theorem frames_open (hexit : k.exit = none) : ∀ m ∈ k.frames e, m.isExited = false := by
  rw [frames_eq, hexit]
  simpa using open_frames hcount

/-- A resync that owes nothing of a client with no warning queued puts nothing that belongs before the
exit. -/
theorem frames_quiet (howes : k.owes e = false)
    (hnone : ∀ i ∈ e.outbox.items, i.1.isWarning = false) : ∀ m ∈ k.frames e, m.isLive = false := by
  have hcleared : e.outbox.clear.1.filter HolderMessage.isWarning = [] := by
    rw [List.filter_eq_nil_iff]
    intro m hm hw
    obtain ⟨i, hi, rfl⟩ := List.mem_map.1 (ByteQueue.items_clear.1 hm)
    rw [hnone i hi] at hw
    cases hw
  intro m hm
  rw [frames_eq, hcleared, howes] at hm
  simp only [Bool.false_eq_true, if_false, List.append_nil] at hm
  rcases List.mem_append.1 hm with hm | hm
  · rw [List.mem_singleton.1 hm]
    exact (of_count hcount).2
  · cases hexit : k.exit with
    | none => simp [hexit] at hm
    | some outcome =>
      simp only [hexit, Option.map_some, Option.toList_some, List.mem_singleton] at hm
      rw [hm]
      rfl

end

theorem resynced_items : ∀ i ∈ (k.resynced P e).outbox.items, i ∈ e.outbox.items ∨ i.1 ∈ k.frames e := by
  have hforce : ∀ (ms : List HolderMessage) (e : Client),
      ∀ i ∈ (ms.foldl (k.force P) e).outbox.items, i ∈ e.outbox.items ∨ i.1 ∈ ms := by
    intro ms
    induction ms with
    | nil => exact fun _ i hi => .inl hi
    | cons m ms ih =>
      intro e i hi
      rcases ih (k.force P e m) i hi with hi | hi
      · rcases ByteQueue.items_forcePush i hi with hi | rfl
        · exact .inl hi
        · exact .inr List.mem_cons_self
      · exact .inr (List.mem_cons_of_mem _ hi)
  intro i hi
  rcases hforce _ _ i hi with hi | hi
  · exact .inl (ByteQueue.items_clear.2 hi)
  · exact .inr hi

end Scene

namespace Client

variable {τ : Type} {P : Platform τ} {k : Scene} {x : Option ExitOutcome} {n : ℕ} {m : HolderMessage}
  {e : Client}

/-- No warning is queued that the writer has not taken. -/
def Unwarned (e : Client) : Prop := ∀ i ∈ e.outbox.items, i.1.isWarning = false

instance (e : Client) : Decidable e.Unwarned :=
  inferInstanceAs (Decidable (∀ i ∈ e.outbox.items, i.1.isWarning = false))

/-- The frames put are in order; none is an exit before there is one or the client said hello. -/
structure Tidy (x : Option ExitOutcome) (_n : ℕ) (e : Client) : Prop where
  orderly : Orderly e.put
  running : x = none → ∀ p ∈ e.put, p.message.isExited = false
  unmet : e.role = none → ∀ p ∈ e.put, p.message.isExited = false

/-! ### With no warning queued -/

theorem offered_put : (k.offered P m e).put =
    if Scene.took P m e then e.put ++ [k.stamp m] else e.put := rfl

theorem mem_offered_put {p : Put} (hp : p ∈ (k.offered P m e).put) : p ∈ e.put ∨ p = k.stamp m := by
  rw [offered_put] at hp
  split at hp
  · rcases List.mem_append.1 hp with hp | hp
    · exact .inl hp
    · exact .inr (List.mem_singleton.1 hp)
  · exact .inl hp

theorem orderly_offered (hm : m.isLive = false) (h : Orderly e.put) :
    Orderly (k.offered P m e).put := by
  rw [offered_put]
  split
  · refine h.append (List.pairwise_singleton _ _) (.inr fun q hq => ?_)
    rw [List.mem_singleton.1 hq]
    exact hm
  · exact h

theorem Unwarned.offered (hm : m.isLive = false) (h : e.Unwarned) : (k.offered P m e).Unwarned := by
  intro i hi
  rcases ByteQueue.items_tryPush i hi with hi | rfl
  · exact h i hi
  · exact (Bool.or_eq_false_iff.1 hm).2

theorem orderly_resynced (hcount : k.snapshot.count = some n) (howes : k.owes e = false)
    (h : Orderly e.put) (hnone : e.Unwarned) : Orderly (k.resynced P e).put := by
  rw [Scene.resynced_put]
  refine h.append (Scene.orderly_frames hcount) (.inr fun q hq => ?_)
  obtain ⟨m, hm, rfl⟩ := List.mem_map.1 hq
  exact Scene.frames_quiet hcount howes hnone m hm

theorem Unwarned.resynced (hcount : k.snapshot.count = some n) (howes : k.owes e = false)
    (h : e.Unwarned) : (k.resynced P e).Unwarned := by
  intro i hi
  rcases Scene.resynced_items i hi with hi | hi
  · exact h i hi
  · exact (Bool.or_eq_false_iff.1 (Scene.frames_quiet hcount howes h i.1 hi)).2

theorem quiet_pushed (hm : m.isLive = false) (hcount : k.snapshot.count = some n)
    (howes : k.owes e = false) (h : Orderly e.put ∧ e.Unwarned) :
    Orderly (k.pushed P m e).put ∧ (k.pushed P m e).Unwarned := by
  have hoffered : Orderly (k.offered P m e).put ∧ (k.offered P m e).Unwarned :=
    ⟨orderly_offered hm h.1, h.2.offered hm⟩
  unfold Scene.pushed
  split
  · exact hoffered
  · exact ⟨orderly_resynced hcount howes hoffered.1 hoffered.2,
      hoffered.2.resynced hcount howes⟩

theorem quiet_left (outcome : ExitOutcome) (hcount : k.snapshot.count = some n)
    (howes : k.owes e = false) (h : Orderly e.put ∧ e.Unwarned) :
    Orderly (k.left P outcome e).put ∧ (k.left P outcome e).Unwarned := by
  unfold Scene.left
  dsimp only
  generalize hsh : (if e.role = some .supervisor then k.pushed P k.snapshot e else e) = shown
  have hshown : (Orderly shown.put ∧ shown.Unwarned) ∧ k.owes shown = false := by
    rw [← hsh]
    split
    · refine ⟨quiet_pushed (Scene.of_count hcount).2 hcount howes h, ?_⟩
      unfold Scene.owes
      rw [Scene.pushed_role]
      exact howes
    · exact ⟨h, howes⟩
  split
  · exact quiet_pushed rfl hcount hshown.2 hshown.1
  · exact hshown.1

/-! ### Every thing done to a client -/

theorem Tidy.offered_quiet (hm : m.isLive = false) (hexited : m.isExited = false)
    (h : e.Tidy x n) (w : ℕ) : (k.offered P m e).Tidy x w := by
  have hstill : (∀ p ∈ e.put, p.message.isExited = false) →
      ∀ p ∈ (k.offered P m e).put, p.message.isExited = false := by
    intro hopen p hp
    rcases mem_offered_put hp with hp | rfl
    · exact hopen p hp
    · exact hexited
  exact ⟨orderly_offered hm h.orderly, fun hx => hstill (h.running hx), fun hrole => hstill (h.unmet hrole)⟩

theorem tidy_running (hrunning : ∀ p ∈ e.put, p.message.isExited = false) : e.Tidy x n :=
  ⟨orderly_of_open hrunning, fun _ => hrunning, fun _ => hrunning⟩

theorem tidy_joined {role : ClientRole} (hcount : k.snapshot.count = some n) (hrole : e.role = none)
    (h : e.Tidy k.exit n) (w : ℕ) : (k.resynced P { e with role := some role }).Tidy k.exit w := by
  refine ⟨?_, fun hx => ?_, fun hnone => ?_⟩
  · rw [Scene.resynced_put]
    exact h.orderly.append (Scene.orderly_frames hcount) (.inl (h.unmet hrole))
  · rw [Scene.resynced_put]
    intro p hp
    rcases List.mem_append.1 hp with hp | hp
    · exact h.unmet hrole p hp
    · obtain ⟨m, hm, rfl⟩ := List.mem_map.1 hp
      exact Scene.frames_open hcount hx m hm
  · simp at hnone

theorem Tidy.count_irrelevant {w : ℕ} (h : e.Tidy x n) : e.Tidy x w :=
  ⟨h.orderly, h.running, h.unmet⟩

theorem owes_attach {readOnly : Bool} :
    k.owes { e with role := some (.attach readOnly) } = false := by
  simp [Scene.owes]

theorem quiet_of_rejected (hm : m.isRejected = true) : m.isLive = false ∧ m.isExited = false := by
  cases m <;> simp_all [HolderMessage.isRejected, HolderMessage.isLive, HolderMessage.isOutput,
    HolderMessage.isWarning, HolderMessage.isExited]

theorem exited_of_output (hm : m.isOutput = true) : m.isExited = false := by
  cases m <;> simp_all [HolderMessage.isOutput, HolderMessage.isExited]

/-- Tidiness is kept by all the holder does to a client, when no output comes after the exit and every
event from the exit on finds no warning queued. -/
theorem tidy_tended (P : Platform τ) : Tended P False Unwarned Tidy
    fun x n e => e.Tidy x n ∧ (x.isSome = true → e.Unwarned) where
  enter := fun h hready => ⟨h, hready⟩
  leave := fun h => h.1
  fresh := fun _ _ _ => tidy_running (fun _ hp => nomatch hp)
  advanced := fun _ _ h => ⟨h.orderly, h.running, h.unmet⟩
  advancing := fun _ hitems h => ⟨⟨h.1.orderly, h.1.running, h.1.unmet⟩,
    fun hx i hi => h.2 hx i (hitems hi)⟩
  offered := fun {k n m e} hm _ h => by
    rcases hm with hm | ⟨hm, hlate⟩
    · obtain ⟨hlive, hexited⟩ := quiet_of_rejected hm
      exact ⟨h.1.offered_quiet hlive hexited n, fun hx => (h.2 hx).offered hlive⟩
    · have hnone : k.exit = none := hlate.resolve_right id
      refine ⟨tidy_running fun p hp => ?_, fun hx => by simp [hnone] at hx⟩
      rcases mem_offered_put hp with hp | rfl
      · exact h.1.running hnone p hp
      · exact exited_of_output hm
  resynced := fun {k n w e} hrole hcount howes h => by
    cases hexit : k.exit with
    | none =>
      refine ⟨tidy_running fun p hp => ?_, fun hx => by simp at hx⟩
      rw [Scene.resynced_put] at hp
      rcases List.mem_append.1 hp with hp | hp
      · exact h.1.running hexit p hp
      · obtain ⟨m, hm, rfl⟩ := List.mem_map.1 hp
        exact Scene.frames_open hcount hexit m hm
    | some outcome =>
      have howes : k.owes e = false := howes.resolve_right (by simp [hexit])
      have hunwarned : e.Unwarned := h.2 (by simp [hexit])
      refine ⟨⟨orderly_resynced hcount howes h.1.orderly hunwarned, fun hx => (nomatch hx),
        fun hnone => ?_⟩, fun _ => hunwarned.resynced hcount howes⟩
      simp only [Scene.resynced_role] at hnone
      simp [hnone] at hrole
  counted := fun _ _ h => ⟨h.1.offered_quiet rfl rfl _, fun hx => (h.2 hx).offered rfl⟩
  uncounted := fun _ h => ⟨h.1.count_irrelevant, h.2⟩
  attached := fun {k n w e} readOnly hrole hcount h => by
    refine ⟨tidy_joined hcount hrole h.1.count_irrelevant _, fun hx => ?_⟩
    have hunwarned : Unwarned { e with role := some (.attach readOnly) } := h.2 hx
    exact hunwarned.resynced hcount owes_attach
  supervised := fun hrole hcount h => tidy_joined hcount hrole h.1 _
  left := fun {k x n e outcome} hexit hcount howes hready h => by
    have hquiet := quiet_left (P := P) outcome hcount howes ⟨h.1.orderly, hready⟩
    refine ⟨hquiet.1, fun hx => (nomatch hx), fun hnone => ?_⟩
    rw [Scene.left_role] at hnone
    have hsame : k.left P outcome e = e := by simp [Scene.left, hnone]
    rw [hsame]
    exact h.1.unmet hnone

end Client

namespace Server

variable {τ : Type} {P : Platform τ} {s : Server τ} {ev : HolderEvent}

/-- The child's reader reports the exit once, and no output after it. -/
def Quiet (s : Server τ) : HolderEvent → Prop
  | .output .. => s.exit = none
  | .exited _ => s.exit = none
  | _ => True

/-- An event of the loop, from the exit on, finds no warning queued that its client's writer has not
taken. -/
def Unwarned (s : Server τ) (ev : HolderEvent) : Prop :=
  s.Ending ev → ∀ c ∈ s.ids, ∀ e ∈ s.clients c, e.Unwarned

def Greets (s : Server τ) : HolderEvent → Prop
  | .message c (.hello .supervisor) => (s.clients c).isSome = true ∧ s.roleOf c = none
  | _ => False

instance (s : Server τ) : DecidablePred s.Quiet
  | .output .. | .exited _ => inferInstanceAs (Decidable (_ = _))
  | .graceElapsed | .supervisorDeadline | .connected .. | .message .. | .disconnected _ | .writer ..
  | .inputWriter _ | .reorder _ => .isTrue trivial

instance (s : Server τ) : DecidablePred s.Ending
  | .exited _ => .isTrue trivial
  | .writer .. | .inputWriter _ | .reorder _ => .isFalse id
  | .output .. | .graceElapsed | .supervisorDeadline | .connected .. | .message .. | .disconnected _ =>
    inferInstanceAs (Decidable (_ = _))

instance (s : Server τ) : DecidablePred s.Unwarned := fun ev =>
  inferInstanceAs (Decidable (s.Ending ev → ∀ c ∈ s.ids, ∀ e ∈ s.clients c, e.Unwarned))

/-! ### The end of the loop -/

theorem runControl_finished (control : HolderControl) :
    (s.runControl control).1.finished = s.finished ∧
      (s.runControl control).1.supervised = s.supervised := by
  cases control with
  | terminate signal grace =>
    unfold Server.runControl
    dsimp only
    split <;> exact ⟨rfl, rfl⟩
  | _ => exact ⟨rfl, rfl⟩

/-- The loop ends with the exit collected, or at the deadline no supervisor met. -/
theorem Rests.finished_step (hs : s.Rests) (hrunning : s.finished = false)
    (hdone : (s.step P ev).finished = true) :
    (∃ c, ev = .message c .collectExit ∧ s.roleOf c = some .supervisor ∧ s.exit.isSome = true) ∨
    (ev = .supervisorDeadline ∧ s.supervised = false ∧
      (s.childExited = true ∨ (s.step P ev).calls = s.calls ++ [.kill])) := by
  have hgoes : ∀ {s' : Server τ}, s.Kept s' → s'.finished = true → False := fun h hdone => by
    rw [h.finished, hrunning] at hdone
    cases hdone
  have hsame : s.finished = true → False := fun h => by
    rw [hrunning] at h
    cases h
  cases ev with
  | output bytes held failed => exact (hgoes (hs.kept_onOutput bytes held failed) hdone).elim
  | exited outcome =>
    rw [Server.step, (hs.onExit_records outcome).finished] at hdone
    exact (hsame hdone).elim
  | graceElapsed =>
    unfold Server.step at hdone
    dsimp only at hdone
    split at hdone <;> exact (hsame hdone).elim
  | supervisorDeadline =>
    refine .inr ⟨rfl, ?_⟩
    unfold Server.step at hdone ⊢
    dsimp only at hdone ⊢
    cases hsup : s.supervised with
    | true =>
      simp only [hsup, if_true] at hdone
      exact (hsame hdone).elim
    | false =>
      refine ⟨rfl, ?_⟩
      cases hexited : s.childExited with
      | true => exact .inl rfl
      | false => exact .inr (by simp [Server.call])
  | connected c cloned races =>
    unfold Server.step Server.onConnected at hdone
    dsimp only at hdone
    split at hdone <;> exact (hsame hdone).elim
  | message c m =>
    have heffect := hs.onMessage_effect (P := P) c m
    replace hdone : (s.onMessage P c m).finished = true := hdone
    generalize s.onMessage P c m = s' at heffect hdone
    cases heffect with
    | served h => exact (hgoes h hdone).elim
    | greeted _ _ h =>
      rw [h.finished] at hdone
      exact (hsame hdone).elim
    | controlled control _ h =>
      rw [h.finished, (runControl_finished control).1] at hdone
      exact (hsame hdone).elim
    | collected hrole hexit => exact .inl ⟨c, rfl, hrole, hexit⟩
  | disconnected c => exact (hgoes (hs.kept_dropClient c) hdone).elim
  | writer c move =>
    unfold Server.step at hdone
    dsimp only at hdone
    split at hdone <;> exact (hsame hdone).elim
  | inputWriter move => exact (hsame hdone).elim
  | reorder ids => exact (hsame hdone).elim

theorem Rests.supervised_step (hs : s.Rests) (h : s.supervised = true) :
    (s.step P ev).supervised = true := by
  cases ev with
  | output bytes held failed => exact (hs.kept_onOutput bytes held failed).supervised.trans h
  | exited outcome => exact (hs.onExit_records outcome).supervised.trans h
  | graceElapsed =>
    unfold Server.step
    dsimp only
    split <;> exact h
  | supervisorDeadline =>
    unfold Server.step
    simp [h]
  | connected c cloned races =>
    unfold Server.step Server.onConnected
    dsimp only
    split <;> exact h
  | message c m =>
    have heffect := hs.onMessage_effect (P := P) c m
    show (s.onMessage P c m).supervised = true
    generalize s.onMessage P c m = s' at heffect
    cases heffect with
    | served hk => exact hk.supervised.trans h
    | greeted _ _ hk => exact hk.supervised
    | controlled control _ hk => exact (hk.supervised.trans (runControl_finished control).2).trans h
    | collected _ _ => exact h
  | disconnected c => exact (hs.kept_dropClient c).supervised.trans h
  | writer c move =>
    unfold Server.step
    dsimp only
    split <;> exact h
  | inputWriter move => exact h
  | reorder ids => exact h

theorem Rests.greeted_step (hs : s.Rests) (h : s.Greets ev) : (s.step P ev).supervised = true := by
  unfold Greets at h
  split at h
  · next c =>
    obtain ⟨hthere, hrole⟩ := h
    obtain ⟨e, he⟩ := Option.isSome_iff_exists.1 hthere
    have hnone : e.role = none := by simpa [roleOf, he] using hrole
    have hmarks := hs.onHello_marks (P := P) (c := c)
      (fun e' he' => by rw [he] at he'; rwa [← Option.some.inj he']) .supervisor
    have hhello : s.step P (.message c (.hello .supervisor)) = s.onHello P c .supervisor := by
      simp only [Server.step, Server.onMessage, he, hnone]
    rw [hhello, hmarks.supervised]
    simp
  · exact h.elim

/-! ### Every run -/

/-- Tidiness holds along every run in which the child's reader reports the exit once and no output
after it, and no event from the exit on finds a warning queued. -/
theorem tidy_of_reaches {s' : Server τ} (hinv : s.Inv) (hs : s.Rests) (h : s.All Client.Tidy)
    (hr : ((machine P).restrict fun s ev => s.Quiet ev ∧ s.Unwarned ev).Reaches s s') :
    s'.All Client.Tidy := by
  have hrun := hr.invariant_restrict (P := fun s => (s.Inv ∧ s.Rests) ∧ s.All Client.Tidy)
    (fun t ev ht hev hok => by
      obtain ⟨⟨hi, hrests⟩, htidy⟩ := ht
      refine ⟨⟨hi.step hev, hrests.step hi hev⟩, ?_⟩
      refine (Client.tidy_tended P).step hrests hev (fun hending c e he => ?_) (fun hout => ?_) htidy
      · exact hok.2 hending c ((hi.known c).2 (by simp [he])) e he
      · obtain ⟨bytes, held, failed, rfl⟩ := hout
        exact .inl hok.1)
    ⟨⟨hinv, hs⟩, h⟩
  exact hrun.2

/-- In every run in which the PTY reports the exit once and no output after it: the loop ends only with
a recorded exit collected by the supervisor there is, or at the deadline when no supervisor ever said
hello, the child killed first unless it had exited; once the exit is recorded every introduced client
has an exit frame taken or queued; and if no event from the exit on finds a warning queued that its
client has not taken, no output, unlogged or warning frame is put after an exit frame. -/
theorem ends_in_order (P : Platform τ) {terminal : τ} {size : PtySize} {pid : ℕ} {log : Bytes}
    {runStart : ℕ} {outcomes : List Bool} {races : List (List (List Move))} {evs : List HolderEvent}
    (hruns : ((machine P).restrict Quiet).Plays
      (new terminal size pid log runStart outcomes races) evs) :
    let start := new terminal size pid log runStart outcomes races
    let s := (machine P).play start evs
    (∀ ev, (machine P).Enabled s ev → ((machine P).next s ev).finished = true →
      (∃ c, ev = .message c .collectExit ∧ s.roleOf c = some .supervisor ∧ s.exit.isSome = true) ∨
      (ev = .supervisorDeadline ∧ ¬ (machine P).Took Greets start evs ∧
        (s.childExited = true ∨ ((machine P).next s ev).calls = s.calls ++ [.kill]))) ∧
    (s.exit.isSome = true → ∀ c e, s.clients c = some e → e.role.isSome = true →
      ∃ m ∈ e.outbox.taken ++ e.outbox.items.map Prod.fst, m.isExited = true) ∧
    (((machine P).restrict fun s ev => s.Quiet ev ∧ s.Unwarned ev).Plays start evs →
      ∀ c e, s.clients c = some e → Orderly e.put) := by
  intro start s
  have hplays := hruns.of_restrict
  have hreaches := Machine.reaches_play hplays
  have hserved := (served_of_reaches hreaches).1
  refine ⟨fun ev hev hdone => ?_, fun hexit c e he => (hserved c e he).told hexit, fun hunwarned c e he => ?_⟩
  · refine ((rests_of_reaches hreaches).2.finished_step hev.1 hdone).imp id fun h => ?_
    obtain ⟨hdeadline, hnobody, hkilled⟩ := h
    refine ⟨hdeadline, fun htook => ?_, hkilled⟩
    -- a hello would have been remembered
    have hknown := Machine.Took.last (P := fun s : Server τ => s.supervised = true)
      (fun t ev (ht : t.Inv ∧ t.Rests) hev => ⟨ht.1.step hev, ht.2.step ht.1 hev⟩)
      (fun t ev ht _ hgreets => ht.2.greeted_step hgreets)
      (fun t ev ht _ => ht.2.supervised_step) hplays
      (show start.Inv ∧ start.Rests from ⟨new_inv .., new_rests ..⟩) (.inr htook)
    rw [show s.supervised = true from hknown] at hnobody
    cases hnobody
  · have htidy := tidy_of_reaches (P := P) (new_inv ..) (new_rests ..)
      (fun c e he => by simp [new] at he) (Machine.reaches_play_restrict hunwarned)
    exact (htidy c e he).orderly

/-- A supervisor is there when the child exits, a terminal attaches afterwards. -/
def lateTerminal : List HolderEvent :=
  [.connected 0 true [], .message 0 (.hello .supervisor), .output [104, 105] .chunk false,
    .exited .succeeded, .connected 1 true [], .message 1 (.hello (.attach true)), .writer 0 .take]

theorem ends_in_order_late_terminal :
    let s := (machine plain).play (new () ⟨24, 80⟩ 7 [] 0 [] []) lateTerminal
    s.roleOf 0 = some .supervisor ∧
    (∃ e, s.clients 1 = some e ∧ ∃ m ∈ e.outbox.taken ++ e.outbox.items.map Prod.fst,
      m.isExited = true) ∧
    ∃ e, s.clients 0 = some e ∧ Orderly e.put := by
  intro s
  have hruns : ((machine plain).restrict Quiet).Plays (new () ⟨24, 80⟩ 7 [] 0 [] []) lateTerminal := by
    decide
  obtain ⟨hdone, htold, horderly⟩ := ends_in_order plain hruns
  have hone : (s.clients 1).isSome = true := by decide
  have hzero : (s.clients 0).isSome = true := by decide
  obtain ⟨e₁, he₁⟩ := Option.isSome_iff_exists.1 hone
  obtain ⟨e₀, he₀⟩ := Option.isSome_iff_exists.1 hzero
  have hrole : (s.clients 1).any (·.role.isSome) = true := by decide
  rw [he₁] at hrole
  refine ⟨?_, ⟨e₁, he₁, htold (by decide) 1 e₁ he₁ hrole⟩, e₀, he₀, horderly (by decide) 0 e₀ he₀⟩
  rcases hdone (.message 0 .collectExit) (by decide) (by decide) with ⟨c, hc, hsupervisor, -⟩ | ⟨h, -⟩
  · cases hc
    exact hsupervisor
  · cases h

/-! ### A warning after the exit -/

/-- An emulator that fails on the byte 0 and is then blank; other output fills its screen, which takes
`screen` to repaint. -/
def glitched (screen : Bytes) : Platform Bool where
  process := fun _ bytes => if bytes = [0] then ⟨false, true, [], bytes⟩ else ⟨true, false, [], bytes⟩
  setSize := fun painted _ => painted
  repaint := fun painted => if painted then screen else []
  jsonLen := fun _ => 40

theorem repaint_painted (screen : Bytes) : (glitched screen).repaint true = screen := rfl

def finalScreen (screen : Bytes) : HolderMessage := .snapshot screen ⟨24, 80⟩ 7 0 0 2

/-- What the exit finds: the supervisor's writer has not run, and lets one item go during the second of
the two resyncs to come. -/
def waiting : Client where
  role := some .supervisor
  outbox :=
    { items := [(.snapshot [] ⟨24, 80⟩ 7 0 0 1, 33), (.warning screenResetWarning, 45),
        (.output 1 [1], 14)]
      queued := 92
      cap := .ofNat clientOutboxBytes
      hand := none
      taken := []
      races := List.replicate 6 [] ++ [[[], [], [.take]]] }
  put := [⟨.snapshot [] ⟨24, 80⟩ 7 0 0 0, 0, 0⟩, ⟨.snapshot [] ⟨24, 80⟩ 7 0 0 1, 1, 1⟩,
    ⟨.warning screenResetWarning, 1, 1⟩, ⟨.output 1 [1], 2, 2⟩]

def ended (screen : Bytes) : Scene where
  snapshot := finalScreen screen
  exit := some .succeeded
  pending := false
  produced := 2
  logged := 2

def resyncPuts (screen : Bytes) : List Put :=
  [⟨finalScreen screen, 2, 2⟩, ⟨.warning screenResetWarning, 2, 2⟩, ⟨.exited .succeeded, 2, 2⟩]

def resyncedOnce (screen : Bytes) : Client where
  role := some .supervisor
  outbox :=
    { items := [(finalScreen screen, .ofNat (clientOutboxBytes + 33)), (.warning screenResetWarning, 45),
        (.exited .succeeded, 45)]
      queued := .ofNat (clientOutboxBytes + 123)
      cap := .ofNat clientOutboxBytes
      hand := none
      taken := []
      races := [[], [[], [], [.take]]] }
  put := waiting.put ++ resyncPuts screen

section

variable {screen : Bytes} (hscreen : screen.length = clientOutboxBytes)
include hscreen

theorem wireLen_finalScreen :
    (glitched screen).wireLen (finalScreen screen) = clientOutboxBytes + 33 := by
  have hlen : (glitched screen).wireLen (finalScreen screen) = 5 + (28 + screen.length) := rfl
  rw [hlen, hscreen]
  omega

theorem pushed_waiting :
    (ended screen).pushed (glitched screen) (finalScreen screen) waiting = resyncedOnce screen := by
  have hlen := wireLen_finalScreen hscreen
  have htook : Scene.took (glitched screen) (finalScreen screen) waiting = false := by
    unfold Scene.took
    rw [hlen]
    rfl
  have hleft : (waiting.outbox.tryPush (finalScreen screen) (.ofNat (clientOutboxBytes + 33))).1 =
      { waiting.outbox with races := waiting.outbox.races.tail } := rfl
  have hframes : ∀ put, (ended screen).frames
      ⟨waiting.role, { waiting.outbox with races := waiting.outbox.races.tail }, put⟩ =
      [finalScreen screen, .warning screenResetWarning, .exited .succeeded] := fun _ => rfl
  unfold Scene.pushed Scene.offered
  rw [htook, hlen, hleft]
  simp only [Bool.false_eq_true, if_false]
  unfold Scene.resynced
  rw [hframes]
  simp only [List.foldl_cons, List.foldl_nil, Scene.force, hlen]
  rfl

/-- Nor does the exit, so it is resynced again; the exit the first resync put is taken meanwhile. -/
theorem left_waiting :
    ((ended screen).left (glitched screen) .succeeded waiting).put =
      waiting.put ++ resyncPuts screen ++ resyncPuts screen ∧
    ((ended screen).left (glitched screen) .succeeded waiting).outbox.items.map Prod.fst =
      [finalScreen screen, .warning screenResetWarning, .exited .succeeded] ∧
    ((ended screen).left (glitched screen) .succeeded waiting).outbox.taken =
      [.exited .succeeded] := by
  have hlen := wireLen_finalScreen hscreen
  have htook : Scene.took (glitched screen) (.exited .succeeded) (resyncedOnce screen) = false := rfl
  have hleft : ((resyncedOnce screen).outbox.tryPush (.exited .succeeded) (.ofNat 45)).1 =
      { (resyncedOnce screen).outbox with races := [[[], [], [.take]]] } := rfl
  have hframes : ∀ put, (ended screen).frames ⟨(resyncedOnce screen).role,
      { (resyncedOnce screen).outbox with races := [[[], [], [.take]]] }, put⟩ =
      [finalScreen screen, .warning screenResetWarning, .exited .succeeded] := fun _ => rfl
  have hexited : (glitched screen).wireLen (.exited .succeeded) = 45 := rfl
  have hrole : waiting.role = some .supervisor := rfl
  have hsnapshot : (ended screen).snapshot = finalScreen screen := rfl
  unfold Scene.left
  simp only [hrole, if_true, Option.isSome_some, hsnapshot]
  rw [pushed_waiting hscreen]
  unfold Scene.pushed Scene.offered
  rw [htook, hexited, hleft]
  simp only [Bool.false_eq_true, if_false]
  unfold Scene.resynced
  rw [hframes]
  simp only [List.foldl_cons, List.foldl_nil, Scene.force, hlen]
  refine ⟨?_, ?_, ?_⟩
  · rfl
  · rfl
  · rfl

end

def screenful : Bytes := List.replicate clientOutboxBytes 0

/-- A supervisor says hello; the emulator fails; more output paints the screen. -/
def glitchedRun : List HolderEvent :=
  [.connected 0 true (List.replicate 12 [] ++ [[[], [], [.take]]]), .message 0 (.hello .supervisor),
    .output [0] .chunk false, .output [1] .chunk false]

def glitchedState : Server Bool :=
  (machine (glitched screenful)).play (new false ⟨24, 80⟩ 7 [] 0 [] []) glitchedRun

theorem scene_glitched : ({ glitchedState with childExited := true, exit := some .succeeded } :
    Server Bool).scene (glitched screenful) = ended screenful := by
  have hterminal : glitchedState.terminal = true := by decide
  have hsize : glitchedState.size = ⟨24, 80⟩ := by decide
  have hpid : glitchedState.childPid = 7 := by decide
  have hcount : ({ glitchedState with childExited := true, exit := some .succeeded } :
    Server Bool).writableAttached = 0 := by decide
  have hstart : glitchedState.runStart = 0 := by decide
  have hlog : glitchedState.log.length = 2 := by decide
  have hproduced : glitchedState.produced.length = 2 := by decide
  have hwarning : glitchedState.resetWarning = .sent := by decide
  unfold scene snapshot
  rw [hcount]
  simp only [hterminal, hsize, hpid, hstart, hlog, hproduced, hwarning, repaint_painted]
  rfl

/-- The supervisor's writer has taken the exit, and the warning comes after it: a resync keeps a
warning that was not taken and puts it behind the exit frame already there, whose place it means to
take. -/
theorem warning_follows_exit : ∃ s e,
    ((machine (glitched screenful)).restrict Quiet).Reaches (new false ⟨24, 80⟩ 7 [] 0 [] []) s ∧
    s.clients 0 = some e ∧ ¬ Orderly e.put ∧ e.outbox.taken = [.exited .succeeded] ∧
    e.outbox.items.map Prod.fst =
      [finalScreen screenful, .warning screenResetWarning, .exited .succeeded] := by
  have hreaches : ((machine (glitched screenful)).restrict Quiet).Reaches
      (new false ⟨24, 80⟩ 7 [] 0 [] []) glitchedState := Machine.reaches_play_restrict (by decide)
  have hclient : glitchedState.clients 0 = some waiting := by decide
  have hrests := (rests_of_reaches hreaches.of_restrict).2
  have hscreen : screenful.length = clientOutboxBytes := List.length_replicate
  obtain ⟨hput, hitems, htaken⟩ := left_waiting hscreen
  have henabled : ((machine (glitched screenful)).restrict Quiet).Enabled glitchedState
      (.exited .succeeded) := ⟨⟨by decide, trivial⟩, by decide⟩
  have hexit := hreaches.next henabled
  have hnext : ∀ s : Server Bool, ((machine (glitched screenful)).restrict Quiet).next s
      (.exited .succeeded) = s.onExit (glitched screenful) .succeeded := fun _ => rfl
  rw [hnext] at hexit
  refine ⟨_, (ended screenful).left (glitched screenful) .succeeded waiting, hexit, ?_, ?_, ?_, ?_⟩
  · rw [hrests.onExit_eq, scene_glitched]
    exact congrArg (Option.map ((ended screenful).left (glitched screenful) .succeeded)) hclient
  · rw [hput]
    intro horderly
    have hkinds := (List.pairwise_append.1 horderly).2.2 ⟨.exited .succeeded, 2, 2⟩
      (by simp [resyncPuts]) ⟨.warning screenResetWarning, 2, 2⟩ (by simp [resyncPuts]) rfl
    cases hkinds
  · exact htaken
  · exact hitems

end Server

end Muster.Holder
