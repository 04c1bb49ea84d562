import Muster.Holder.Signals

/-!
# Tending — what holds of every client because each thing done to one keeps it

A property of a client's entry, given the exit held and the count reported, holds in every state
reached once each of the few things the holder does to one entry keeps it.  `Tended` lists them; the
handlers are gone through here, once.
-/

namespace Muster.Holder

open Muster.Log
open Muster.Supervisor (ExitOutcome)

namespace HolderMessage

def isOutput : HolderMessage → Bool
  | output .. => true
  | unlogged _ => true
  | _ => false

def isRejected : HolderMessage → Bool
  | rejected _ => true
  | _ => false

def count : HolderMessage → Option ℕ
  | snapshot _ _ _ held _ _ => some held
  | attached held => some held
  | _ => none

end HolderMessage

/-- A property of a client's entry between events and one inside an event, by the exit held and the
count reported, that what the holder does to a client keeps.  `late` says whether output may still
come once the exit is held, `Ready` what an event then finds of every client. -/
structure Tended {τ : Type} (P : Platform τ) (late : Prop) (Ready : Client → Prop)
    (Q Q' : Option ExitOutcome → ℕ → Client → Prop) : Prop where
  enter : ∀ {x n e}, Q x n e → (x.isSome = true → Ready e) → Q' x n e
  leave : ∀ {x n e}, Q' x n e → Q x n e
  fresh : ∀ x n races, Q x n ⟨none, .new (.ofNat clientOutboxBytes) races, []⟩
  /-- The writer took some of what was queued. -/
  advanced : ∀ {x n e q}, q.seen = e.outbox.seen → q.items ⊆ e.outbox.items → Q x n e →
    Q x n { e with outbox := q }
  advancing : ∀ {x n e q}, q.seen = e.outbox.seen → q.items ⊆ e.outbox.items → Q' x n e →
    Q' x n { e with outbox := q }
  offered : ∀ {k : Scene} {n m e}, (m.isRejected = true ∨ m.isOutput = true ∧ (k.exit = none ∨ late)) →
    Scene.took P m e = true → Q' k.exit n e → Q' k.exit n (k.offered P m e)
  resynced : ∀ {k : Scene} {n w e}, e.role.isSome = true → k.snapshot.count = some w →
    (k.owes e = false ∨ k.exit = none ∨ late) → Q' k.exit n e → Q' k.exit w (k.resynced P e)
  counted : ∀ {k : Scene} {n w e}, e.role = some .supervisor →
    Scene.took P (.attached w) e = true → Q' k.exit n e → Q' k.exit w (k.offered P (.attached w) e)
  uncounted : ∀ {x n w e}, e.role ≠ some .supervisor → Q' x n e → Q' x w e
  attached : ∀ {k : Scene} {n w e} readOnly, e.role = none → k.snapshot.count = some w →
    Q' k.exit n e → Q' k.exit n (k.resynced P { e with role := some (.attach readOnly) })
  supervised : ∀ {k : Scene} {n e}, e.role = none → k.snapshot.count = some n → Q' k.exit n e →
    Q k.exit n (k.resynced P { e with role := some .supervisor })
  left : ∀ {k : Scene} {x n e outcome}, k.exit = some outcome → k.snapshot.count = some n →
    k.owes e = false → Ready e → Q' x n e → Q (some outcome) n (k.left P outcome e)

namespace Server

variable {τ : Type} {P : Platform τ} {Q R : Option ExitOutcome → ℕ → Client → Prop} {s s' : Server τ}

def All (Q : Option ExitOutcome → ℕ → Client → Prop) (s : Server τ) : Prop :=
  ∀ c e, s.clients c = some e → Q s.exit s.reportedAttached e

theorem All.imp (h : s.All Q) (hR : ∀ x n e, Q x n e → R x n e) : s.All R :=
  fun c e he => hR _ _ _ (h c e he)

theorem All.mapAt {f : ClientId → Client → Client}
    (h : ∀ c e, s.clients c = some e → R s.exit s.reportedAttached (f c e)) : (s.mapAt f).All R := by
  intro c e' he'
  obtain ⟨e, he, rfl⟩ := Option.map_eq_some_iff.1 he'
  exact h c e he

theorem Settled.owes (hs : s.Settled) {c : ClientId} {e : Client} (he : s.clients c = some e) :
    (s.scene P).owes e = false := by
  have h := hs.owesAt (P := P) c
  rwa [Server.owesAt, he] at h

theorem scene_count : (s.scene P).snapshot.count = some s.writableAttached := rfl

theorem All.applySize (h : s.All Q) (z : PtySize) : (s.applySize P z).1.All Q := by
  obtain ⟨size, terminal, calls, outcomes, heq⟩ := applySize_frame P s z
  rw [heq]
  exact h

theorem All.remove (h : s.All Q) (c : ClientId) : (s.remove c).All Q := by
  intro d e he
  by_cases hd : d = c
  · simp [Server.remove, hd] at he
  · exact h d e (by simpa [Server.remove, hd] using he)

/-- The event is one of the loop's, and it finds the exit held or records it. -/
def Ending (s : Server τ) : HolderEvent → Prop
  | .exited _ => True
  | .writer .. => False
  | .inputWriter _ => False
  | .reorder _ => False
  | _ => s.exit.isSome = true

end Server

open Server

section

variable {τ : Type} {P : Platform τ} {late : Prop} {Ready : Client → Prop}
  {Q Q' : Option ExitOutcome → ℕ → Client → Prop} {s s' : Server τ} (ht : Tended P late Ready Q Q')
  {k : Scene} {m : HolderMessage} {e : Client}
include ht

/-! ### One client -/

theorem Tended.missed {x : Option ExitOutcome} {n : ℕ}
    (hrefused : Scene.took P m e = false) (h : Q' x n e) : Q' x n (k.offered P m e) := by
  have hput : k.offered P m e = { e with outbox := (e.outbox.tryPush m (.ofNat (P.wireLen m))).1 } := by
    simp [Scene.offered, hrefused]
  have hfalse : (e.outbox.tryPush m (.ofNat (P.wireLen m))).2 = false := hrefused
  rw [hput]
  refine ht.advancing ?_ ?_ h
  · simp [ByteQueue.seen_tryPush, hfalse]
  · unfold ByteQueue.tryPush at hfalse ⊢
    dsimp only at hfalse ⊢
    split at hfalse
    · next hfull =>
      rw [if_pos hfull]
      exact ByteQueue.items_moves _ e.outbox.begun
    · cases hfalse

theorem Tended.pushed {n : ℕ}
    (hm : m.isRejected = true ∨ m.isOutput = true ∧ (k.exit = none ∨ late))
    (hrole : e.role.isSome = true) (hcount : k.snapshot.count = some n) (howes : k.owes e = false)
    (h : Q' k.exit n e) : Q' k.exit n (k.pushed P m e) := by
  unfold Scene.pushed
  split
  · next htook => exact ht.offered hm htook h
  · next hrefused =>
    exact ht.resynced hrole hcount (.inl howes) (ht.missed (Bool.eq_false_iff.2 hrefused) h)

theorem Tended.report {n w : ℕ} (hrole : e.role = some .supervisor)
    (hcount : k.snapshot.count = some w) (howes : k.owes e = false) (h : Q' k.exit n e) :
    Q' k.exit w (k.pushed P (.attached w) e) := by
  unfold Scene.pushed
  split
  · next htook => exact ht.counted hrole htook h
  · next hrefused =>
    exact ht.resynced (by simp [hrole]) hcount (.inl howes)
      (ht.missed (Bool.eq_false_iff.2 hrefused) h)

/-! ### The handlers -/

theorem Tended.reportAttached (hs : s.Settled) (h : s.All Q') : (s.reportAttached P).All Q' := by
  rw [hs.reportAttached_eq]
  split
  · exact h
  · refine All.mapAt fun c e he => ?_
    split
    · next hrole => exact ht.report (k := s.scene P) hrole rfl (hs.owes he) (h c e he)
    · next hrole => exact ht.uncounted hrole (h c e he)

theorem Tended.resyncWhere (hs : s.Rests) (wanted : ClientRole → Bool) (h : s.All Q') :
    (s.resyncWhere P wanted).All Q' := by
  rw [hs.resyncWhere_eq]
  refine All.mapAt fun c e he => ?_
  split
  · next hrole =>
    have hsome : e.role.isSome = true := by
      cases hr : e.role with
      | none => simp [hr] at hrole
      | some role => rfl
    exact ht.resynced (k := s.scene P) hsome (scene_count.trans (by rw [hs.reported]))
      (.inl (hs.owes he)) (h c e he)
  · exact h c e he

theorem Tended.fallback (hs : s.Rests) (c : ClientId) (h : s.All Q') : (s.fallback P c).All Q' := by
  have hrest : ({ s with resizes := s.resizes.filter (·.1 ≠ c) } : Server τ).Rests :=
    hs.of_eq rfl
  have hall : ({ s with resizes := s.resizes.filter (·.1 ≠ c) } : Server τ).All Q' := h
  unfold Server.fallback
  dsimp only
  split
  · split
    · split
      · exact ht.resyncWhere (hrest.applySize _) _ (hall.applySize _)
      · exact hall.applySize _
    · exact hall
  · exact hall

theorem Tended.dropClient (hs : s.Settled) (c : ClientId) (h : s.All Q') :
    (s.dropClient P c).All Q' := by
  rw [dropClient_eq]
  exact ht.fallback (hs.remove c).reportAttached c (ht.reportAttached (hs.remove c) (h.remove c))

theorem Tended.reject (hs : s.Rests) (c : ClientId) (reason : RejectReason) (h : s.All Q') :
    (s.reject P c reason).All Q' := by
  have hcount : (s.scene P).snapshot.count = some s.reportedAttached :=
    scene_count.trans (by rw [hs.reported])
  unfold Server.reject
  by_cases hintro : s.Introduced c
  · rw [send_eq_tell hintro, hs.tell_eq]
    refine All.mapAt fun d e he => ?_
    split
    · next hd =>
      have hsome : e.role.isSome = true := Option.isSome_iff_ne_none.2 (hintro e (hd ▸ he))
      exact ht.pushed (k := s.scene P) (.inl rfl) hsome hcount (hs.owes he) (h d e he)
    · exact h d e he
  · unfold Introduced at hintro
    push Not at hintro
    obtain ⟨e₀, he₀, hrole⟩ := hintro
    have hoffered : (s.mapAt fun d e =>
        if d = c then (s.scene P).offered P (.rejected reason) e else e).All Q' := by
      refine All.mapAt fun d e he => ?_
      split
      · cases htook : Scene.took P (.rejected reason) e with
        | true => exact ht.offered (k := s.scene P) (.inl rfl) htook (h d e he)
        | false => exact ht.missed htook (h d e he)
      · exact h d e he
    rw [send_unintroduced he₀ hrole]
    split
    · exact hoffered
    · refine ht.dropClient (hs.mapAt fun d e => ?_).toSettled c hoffered
      split <;> rfl

theorem Tended.broadcastTo (hs : s.Rests) (takes : ClientRole → Bool)
    (hm : m.isOutput = true) (hlate : s.exit = none ∨ late) (h : s.All Q') :
    (s.broadcastTo P takes m).All Q' := by
  rw [hs.broadcastTo_eq]
  refine All.mapAt fun c e he => ?_
  split
  · next hrole =>
    have hsome : e.role.isSome = true := by
      cases hr : e.role with
      | none => simp [hr] at hrole
      | some role => rfl
    exact ht.pushed (k := s.scene P) (.inr ⟨hm, hlate⟩) hsome
      (scene_count.trans (by rw [hs.reported])) (hs.owes he) (h c e he)
  · exact h c e he

theorem Tended.broadcastOutput (hs : s.Rests) (start : ℕ) (bytes : Bytes) (held : Held)
    (hlate : s.exit = none ∨ late) (h : s.All Q') :
    (s.broadcastOutput P start bytes held).All Q' := by
  cases held with
  | chunk => exact ht.broadcastTo hs _ rfl hlate h
  | other held =>
    unfold Server.broadcastOutput
    dsimp only
    split
    · exact ht.broadcastTo hs _ rfl hlate h
    · refine ht.broadcastTo (hs.broadcastTo _ _) _ rfl ?_ (ht.broadcastTo hs _ rfl hlate h)
      rw [(hs.told_broadcastTo _ _).kept.exit]
      exact hlate

theorem Tended.onOutput (hs : s.Rests) (bytes : Bytes) (held : Held) (failed : Bool)
    (hlate : s.exit = none ∨ late) (h : s.All Q') : (s.onOutput P bytes held failed).All Q' := by
  have hrests := hs.logOutput (P := P) bytes held
  obtain ⟨hall, hexit⟩ : (s.logOutput P bytes held).All Q' ∧
      (s.logOutput P bytes held).exit = s.exit := by
    obtain ⟨input, habsorb⟩ := absorb_frame P s bytes
    unfold Server.logOutput
    rw [habsorb]
    exact ⟨h, rfl⟩
  rw [← hexit] at hlate
  have hsent := ht.broadcastOutput hrests (s.absorb P bytes).log.length bytes held hlate hall
  refine onOutput_cases (fun _ warning => ?_) hsent fun _ => ?_
  · -- everyone is resynced, the supervisor with the warning it is owed
    set reset : Server τ := { s.logOutput P bytes held with resetWarning := warning } with hreset
    have hcount : (reset.scene P).snapshot.count = some (s.logOutput P bytes held).reportedAttached :=
      scene_count.trans (congrArg some hrests.reported.symm)
    rw [resyncAll_eq (s := reset) hrests.nodup hrests.known hrests.single]
    have hmapped : (reset.mapAt fun _ e =>
        if e.role.isSome then (reset.scene P).resynced P e else e).All Q' := by
      refine All.mapAt fun c e he => ?_
      split
      · next hrole => exact ht.resynced (k := reset.scene P) hrole hcount (.inr hlate) (hall c e he)
      · exact hall c e he
    exact hmapped
  · refine ht.broadcastTo (hrests.broadcastOutput _ bytes held) _ rfl ?_ hsent
    rw [(hrests.told_broadcastOutput _ bytes held).kept.exit]
    exact hlate

theorem Tended.onExit (hs : s.Rests) (outcome : ExitOutcome)
    (hready : ∀ c e, s.clients c = some e → Ready e) (h : s.All Q') :
    (s.onExit P outcome).All Q := by
  have hgone : ({ s with childExited := true, exit := some outcome } : Server τ).Rests :=
    hs.of_eq rfl
  rw [hs.onExit_eq]
  refine All.mapAt fun c e he => ?_
  exact ht.left rfl (scene_count.trans (congrArg some hs.reported.symm)) (hgone.owes he)
    (hready c e he) (h c e he)

theorem Tended.evict (hs : s.Rests) (h : s.All Q') : (s.evict P).All Q' := by
  have hmarked : ({ s with supervised := true } : Server τ).Rests :=
    hs.of_eq rfl
  have hall : ({ s with supervised := true } : Server τ).All Q' := h
  unfold Server.evict
  dsimp only
  rcases hmarked.supervisors with hnone | ⟨d, -, hone⟩
  · rw [hnone]
    exact hall
  · rw [hone]
    exact ht.dropClient hmarked.toSettled d hall

theorem Tended.introduce (hs : s.Rests) {c : ClientId}
    (hnew : ∀ e, s.clients c = some e → e.role = none) (role : ClientRole) (h : s.All Q') :
    (s.introduce P c role).All Q := by
  cases he : s.clients c with
  | none => exact (introduce_none he role).symm ▸ h.imp fun _ _ _ => ht.leave
  | some e =>
    have hnone := hnew e he
    -- the other entries are as they were, and the new one is resynced in its role
    have hentry : ∀ d e', (s.setClient c { e with role := some role }).clients d = some e' →
        d = c ∧ e' = { e with role := some role } ∨ d ≠ c ∧ s.clients d = some e' := by
      intro d e' hd
      by_cases hdc : d = c
      · subst hdc
        simp only [setClient, Function.update_self, Option.some.injEq] at hd
        exact .inl ⟨rfl, hd.symm⟩
      · simp only [setClient, Function.update_of_ne hdc] at hd
        exact .inr ⟨hdc, hd⟩
    cases role with
    | attach readOnly =>
      rw [hs.introduce_attach he]
      refine All.imp ?_ fun _ _ _ => ht.leave
      refine ht.reportAttached ((hs.named he readOnly).mapAt fun d e' => ?_)
        (All.mapAt fun d e' hd => ?_)
      · split
        · exact Scene.resynced_role
        · rfl
      · rcases hentry d e' hd with ⟨rfl, rfl⟩ | ⟨hdc, hd⟩
        · rw [if_pos rfl]
          exact ht.attached
            (k := (s.setClient d { e with role := some (.attach readOnly) }).scene P) readOnly hnone
            scene_count (h d e he)
        · rw [if_neg hdc]
          exact h d e' hd
    | supervisor =>
      rw [hs.introduce_supervisor he hnone]
      have hcount : ((s.setClient c { e with role := some .supervisor }).scene P).snapshot.count =
          some s.reportedAttached :=
        scene_count.trans (congrArg some ((writableAttached_named he hnone).trans hs.reported.symm))
      have hmapped : ((s.setClient c { e with role := some .supervisor }).mapAt fun d e' =>
          if d = c then ((s.setClient c { e with role := some .supervisor }).scene P).resynced P e'
          else e').All Q := by
        refine All.mapAt fun d e' hd => ?_
        rcases hentry d e' hd with ⟨rfl, rfl⟩ | ⟨hdc, hd⟩
        · rw [if_pos rfl]
          exact ht.supervised hnone hcount (h d e he)
        · rw [if_neg hdc]
          exact ht.leave (h d e' hd)
      exact hmapped

theorem Tended.onHello (hs : s.Rests) {c : ClientId}
    (hnew : ∀ e, s.clients c = some e → e.role = none) (role : ClientRole) (h : s.All Q') :
    (s.onHello P c role).All Q := by
  rw [onHello_eq]
  split
  · exact ht.introduce hs.evict.1 (fun e => role_of_evict hnew) role (ht.evict hs h)
  · exact ht.introduce hs hnew role h

theorem Tended.onMessage (hs : s.Rests) (c : ClientId) (m : ClientMessage) (h : s.All Q') :
    (s.onMessage P c m).All Q := by
  have hleave : ∀ {s' : Server τ}, s'.All Q' → s'.All Q := fun h => h.imp fun _ _ _ => ht.leave
  cases he : s.clients c with
  | none =>
    unfold Server.onMessage
    rw [he]
    exact hleave h
  | some e =>
    refine onMessage_cases he (fun hrole role _ => ?_)
      (fun _ reason => hleave (ht.reject hs c reason h)) (fun bytes _ _ => ?_) (fun size _ _ => ?_)
      (fun control _ _ => ?_) fun _ _ _ => hleave h
    · refine ht.onHello hs (fun e' he' => ?_) role h
      rw [he] at he'
      rwa [← Option.some.inj he']
    · have hpushed : (s.pushInput bytes).1.Rests :=
        hs.of_eq rfl
      have hall : (s.pushInput bytes).1.All Q' := h
      exact ⟨hleave hall, hleave (ht.reject hpushed c _ hall)⟩
    · have hasked : (s.asked c size).Rests :=
        hs.of_eq rfl
      have hall : (s.asked c size).All Q' := h
      have hsized := hasked.applySize (P := P) size
      have hall := hall.applySize (P := P) size
      exact ⟨fun _ => hleave (ht.resyncWhere hsized _ hall), fun _ => hleave hall,
        fun _ => hleave (ht.reject hsized c _ hall)⟩
    · have hall : (s.runControl control).1.All Q' := by
        cases control with
        | terminate signal grace =>
          unfold Server.runControl
          dsimp only
          split <;> exact h
        | _ => exact h
      exact ⟨hleave hall, hleave (ht.reject (hs.runControl control) c _ hall)⟩

/-- **One step.** -/
theorem Tended.step (hs : s.Rests) {ev : HolderEvent} (hev : s.Enabled ev)
    (hready : s.Ending ev → ∀ c e, s.clients c = some e → Ready e)
    (hlate : (∃ bytes held failed, ev = .output bytes held failed) → s.exit = none ∨ late)
    (h : s.All Q) : (s.step P ev).All Q := by
  have hleave : ∀ {s' : Server τ}, s'.All Q' → s'.All Q := fun h => h.imp fun _ _ _ => ht.leave
  have henter : (s.exit.isSome = true → s.Ending ev) → s.All Q' := fun hend c e he =>
    ht.enter (h c e he) fun hexit => hready (hend hexit) c e he
  cases ev with
  | output bytes held failed =>
    exact hleave (ht.onOutput hs bytes held failed (hlate ⟨_, _, _, rfl⟩) (henter id))
  | exited outcome => exact ht.onExit hs outcome (hready trivial) (henter fun _ => trivial)
  | graceElapsed =>
    unfold Server.step
    dsimp only
    split <;> exact h
  | supervisorDeadline =>
    unfold Server.step
    dsimp only
    split
    · exact h
    · split <;> exact h
  | connected c cloned races =>
    obtain rfl : c = s.accepted := hev.2
    show (s.onConnected s.accepted cloned races).All Q
    unfold Server.onConnected
    dsimp only
    split
    · intro d e he
      by_cases hd : d = s.accepted
      · simp only [hd, Function.update_self, Option.some.injEq] at he
        subst he
        exact ht.fresh _ _ _
      · simp only [Function.update_of_ne hd] at he
        exact h d e he
    · exact h
  | message c m => exact ht.onMessage hs c m (henter id)
  | disconnected c => exact hleave (ht.dropClient hs.toSettled c (henter id))
  | writer c move =>
    simp only [Server.step]
    cases hc : s.clients c with
    | none => exact h
    | some entry =>
      dsimp only
      rw [setClient_eq_mapAt hc fun e => { e with outbox := e.outbox.move move }]
      refine All.mapAt fun d e he => ?_
      split
      · exact ht.advanced (ByteQueue.seen_move move) (ByteQueue.items_move move) (h d e he)
      · exact h d e he
  | inputWriter move => exact h
  | reorder ids => exact h

end

end Muster.Holder
