import Mathlib.Order.Nat
import Muster.Holder.Signals

/-!
# Unseen — two holders that differ in read-only and unintroduced clients alone

`Unseen C s t` says that `t` is `s` without the clients in `C`.  Every handler run on both for a client
they share, or for the child, keeps them alike.
-/

namespace Muster.Holder

open Muster.Log
open Muster.Supervisor (ExitOutcome)

namespace Server

variable {τ : Type} {P : Platform τ} {C : ClientId → Bool} {s t : Server τ} {c : ClientId}
  {wanted : ClientRole → Bool} {f : ClientId → Client → Client}

def mask (C : ClientId → Bool) (s : Server τ) (ids : List ClientId) (accepted : ClientId) : Server τ :=
  { s with clients := fun c => if C c then none else s.clients c, ids := ids, accepted := accepted }

/-- `t` is `s` without the clients in `C`, which are read-only or unintroduced and asked for no size. -/
structure Unseen (C : ClientId → Bool) (s t : Server τ) : Prop where
  same : t = s.mask C t.ids t.accepted
  nodup : t.ids.Nodup
  known : ∀ c, c ∈ t.ids ↔ (t.clients c).isSome = true
  meek : ∀ c e, C c = true → s.clients c = some e → e.role = none ∨ e.role = some (.attach true)
  unasked : ∀ a ∈ s.resizes, C a.1 = false
  older : t.accepted ≤ s.accepted

theorem Unseen.clients (h : Unseen C s t) (c : ClientId) :
    t.clients c = if C c then none else s.clients c :=
  congrFun (congrArg Server.clients h.same) c

theorem Unseen.clients_of_not (h : Unseen C s t) (hc : C c = false) :
    t.clients c = s.clients c := by
  rw [h.clients, hc]
  rfl

theorem Unseen.roleOf_of_not (h : Unseen C s t) (hc : C c = false) : t.roleOf c = s.roleOf c := by
  unfold roleOf
  rw [h.clients_of_not hc]

theorem Unseen.mem_chosen (h : Unseen C s t) (hknown : ∀ c, c ∈ s.ids ↔ (s.clients c).isSome = true)
    (hwanted : wanted (.attach true) = false) (c : ClientId) :
    c ∈ t.chosen wanted ↔ c ∈ s.chosen wanted := by
  unfold chosen
  rw [List.mem_filter, List.mem_filter, h.known, hknown]
  cases hc : C c with
  | false => rw [h.clients_of_not hc, h.roleOf_of_not hc]
  | true =>
    have hgone : t.clients c = none := by simp [h.clients, hc]
    have hrole : (s.roleOf c).any wanted = false := by
      unfold roleOf
      cases he : s.clients c with
      | none => rfl
      | some e =>
        rcases h.meek c e hc he with hnone | hattach
        · simp [hnone]
        · simp [hattach, hwanted]
    simp [hgone, hrole]

theorem Unseen.chosen_perm (h : Unseen C s t) (hnodup : s.ids.Nodup)
    (hknown : ∀ c, c ∈ s.ids ↔ (s.clients c).isSome = true)
    (hwanted : wanted (.attach true) = false) : (t.chosen wanted).Perm (s.chosen wanted) :=
  (List.perm_ext_iff_of_nodup (h.nodup.filter _) (hnodup.filter _)).2 (h.mem_chosen hknown hwanted)

theorem Unseen.writableAttached (h : Unseen C s t) (hnodup : s.ids.Nodup)
    (hknown : ∀ c, c ∈ s.ids ↔ (s.clients c).isSome = true) :
    t.writableAttached = s.writableAttached :=
  congrArg (min · (2 ^ 32 - 1)) (h.chosen_perm hnodup hknown (by decide)).length_eq

theorem Unseen.supervisors (h : Unseen C s t) (hs : s.Settled) :
    t.chosen (· = .supervisor) = s.chosen (· = .supervisor) := by
  have hperm : (t.chosen (· = .supervisor)).Perm (s.chosen (· = .supervisor)) :=
    h.chosen_perm hs.nodup hs.known (by decide)
  rcases hs.supervisors with hnone | ⟨c, -, hone⟩
  · rw [hnone] at hperm ⊢
    exact hperm.eq_nil
  · rw [hone] at hperm ⊢
    exact List.perm_singleton.1 hperm

theorem Unseen.scene (h : Unseen C s t) (hnodup : s.ids.Nodup)
    (hknown : ∀ c, c ∈ s.ids ↔ (s.clients c).isSome = true) : t.scene P = s.scene P := by
  have hcount := h.writableAttached hnodup hknown
  have hsame := h.same
  unfold Server.scene snapshot
  rw [hcount]
  generalize t.ids = ids at hsame
  generalize t.accepted = accepted at hsame
  subst hsame
  rfl

theorem Unseen.settled (h : Unseen C s t) (hs : s.Settled) : t.Settled := by
  have hrole : ∀ c, t.roleOf c = some .supervisor → s.roleOf c = some .supervisor := by
    intro c hc
    cases hin : C c with
    | false => rwa [h.roleOf_of_not hin] at hc
    | true =>
      have hgone : t.clients c = none := by simp [h.clients, hin]
      simp [roleOf, hgone] at hc
  refine ⟨h.nodup, h.known, fun c d hc hd => hs.single c d (hrole c hc) (hrole d hd),
    fun hpending c hc => hs.calm ?_ c (hrole c hc)⟩
  rw [h.same] at hpending
  exact hpending

theorem Unseen.rests (h : Unseen C s t) (hs : s.Rests) : t.Rests := by
  refine ⟨h.settled hs.toSettled, ?_⟩
  rw [h.writableAttached hs.nodup hs.known, ← hs.reported, h.same]
  rfl

/-! ### What keeps the two alike -/

theorem Unseen.mapAt (h : Unseen C s t) {g : ClientId → Client → Client}
    (hf : ∀ c e, (f c e).role = e.role) (hfg : ∀ c e, C c = false → f c e = g c e) :
    Unseen C (s.mapAt f) (t.mapAt g) := by
  refine ⟨?_, h.nodup, fun c => ?_, fun c e' hc he' => ?_, h.unasked, h.older⟩
  · have hclients : (t.mapAt g).clients = fun c => if C c then none else (s.mapAt f).clients c := by
      funext c
      show (t.clients c).map (g c) = if C c then none else (s.clients c).map (f c)
      rw [h.clients]
      cases hc : C c with
      | true => rfl
      | false =>
        simp only [Bool.false_eq_true, if_false]
        exact Option.map_congr fun e _ => (hfg c e hc).symm
    have hsame := h.same
    unfold mask at hsame ⊢
    rw [← hclients]
    unfold Server.mapAt
    rw [hsame]
  · rw [isSome_mapAt]
    exact h.known c
  · obtain ⟨e, he, rfl⟩ := Option.map_eq_some_iff.1 he'
    rw [hf]
    exact h.meek c e hc he

theorem Unseen.mapAt_unseen (h : Unseen C s t)
    (hf : ∀ c e, (f c e).role = e.role) (hf' : ∀ c e, C c = false → f c e = e) :
    Unseen C (s.mapAt f) t := by
  have hmapped := h.mapAt (g := fun _ e => e) hf hf'
  rwa [mapAt_self fun _ _ _ => rfl] at hmapped

theorem Unseen.update (h : Unseen C s t) (F : Server τ → Server τ)
    (hmask : ∀ ids accepted, F (s.mask C ids accepted) = (F s).mask C ids accepted)
    (hframe : (F s).clients = s.clients ∧ (F s).accepted = s.accepted)
    (hunasked : ∀ a ∈ (F s).resizes, C a.1 = false) : Unseen C (F s) (F t) := by
  obtain ⟨hclients, hnext⟩ := hframe
  have hF : F t = (F s).mask C t.ids t.accepted := by
    rw [← hmask, ← h.same]
  have hclients' : (F t).clients = t.clients := by
    rw [hF]
    funext c
    show (if C c then none else (F s).clients c) = t.clients c
    rw [hclients, h.clients]
  have hids : (F t).ids = t.ids := by rw [hF]; rfl
  have haccepted : (F t).accepted = t.accepted := by rw [hF]; rfl
  refine ⟨?_, ?_, fun c => ?_, fun c e hc he => ?_, hunasked, ?_⟩
  · rw [hids, haccepted]
    exact hF
  · rw [hids]
    exact h.nodup
  · rw [hids, hclients']
    exact h.known c
  · rw [hclients] at he
    exact h.meek c e hc he
  · rw [haccepted, hnext]
    exact h.older

theorem Unseen.reportAttached (h : Unseen C s t) (hs : s.Settled) :
    Unseen C (s.reportAttached P) (t.reportAttached P) := by
  have hreported : t.reportedAttached = s.reportedAttached := by rw [h.same]; rfl
  rw [hs.reportAttached_eq, (h.settled hs).reportAttached_eq, h.writableAttached hs.nodup hs.known,
    h.scene hs.nodup hs.known, hreported]
  split
  · exact h
  · have hcounted := h.update (fun s' => { s' with reportedAttached := s.writableAttached })
      (fun _ _ => rfl) ⟨rfl, rfl⟩ h.unasked
    refine hcounted.mapAt (fun _ e => ?_) fun _ _ _ => rfl
    split
    · exact Scene.pushed_role
    · rfl

theorem Unseen.resyncWhere (h : Unseen C s t) (hs : s.Rests) (wanted : ClientRole → Bool) :
    Unseen C (s.resyncWhere P wanted) (t.resyncWhere P wanted) := by
  rw [hs.resyncWhere_eq, (h.rests hs).resyncWhere_eq, h.scene hs.nodup hs.known]
  refine h.mapAt (fun _ e => ?_) fun _ _ _ => rfl
  split
  · exact Scene.resynced_role
  · rfl

theorem applySize_mask (z : PtySize) (ids : List ClientId) (accepted : ClientId) :
    (s.mask C ids accepted).applySize P z =
      ((s.applySize P z).1.mask C ids accepted, (s.applySize P z).2) := by
  by_cases hsame : z = s.size
  · simp [Server.applySize, mask, hsame]
  · by_cases htaken : s.outcomes.head?.getD false = true <;>
      simp [Server.applySize, Server.call, mask, hsame, htaken]

theorem Unseen.applySize (h : Unseen C s t) (z : PtySize) :
    Unseen C (s.applySize P z).1 (t.applySize P z).1 ∧
      (t.applySize P z).2 = (s.applySize P z).2 := by
  refine ⟨?_, ?_⟩
  · obtain ⟨size, terminal, calls, outcomes, heq⟩ := applySize_frame P s z
    refine h.update (fun s => (s.applySize P z).1) (fun ids accepted => ?_) ?_ ?_
    · rw [applySize_mask]
    · rw [heq]
      exact ⟨rfl, rfl⟩
    · rw [heq]
      exact h.unasked
  · rw [h.same, applySize_mask]

theorem Unseen.fallback (h : Unseen C s t) (hs : s.Rests) (c : ClientId) :
    Unseen C (s.fallback P c) (t.fallback P c) := by
  have hrest : ({ s with resizes := s.resizes.filter (·.1 ≠ c) } : Server τ).Rests :=
    hs.of_eq rfl
  have hforgot := h.update (fun s => { s with resizes := s.resizes.filter (·.1 ≠ c) })
    (fun _ _ => rfl) ⟨rfl, rfl⟩ fun a ha => h.unasked a (List.mem_of_mem_filter ha)
  have hresizes : t.resizes = s.resizes := by rw [h.same]; rfl
  unfold Server.fallback
  dsimp only
  rw [hresizes] at hforgot ⊢
  cases (s.resizes.filter fun a => decide (a.1 ≠ c)).getLast? with
  | none => exact hforgot
  | some a =>
    obtain ⟨happlied, hchanged⟩ := hforgot.applySize (P := P) a.2
    dsimp only
    rw [hchanged]
    split
    · split
      · exact happlied.resyncWhere (hrest.applySize _) _
      · exact happlied
    · exact hforgot

/-! ### A client that both have -/

theorem Unseen.remove (h : Unseen C s t) (c : ClientId) : Unseen C (s.remove c) (t.remove c) := by
  refine ⟨?_, h.nodup.filter _, fun d => ?_, fun d e hd he => ?_, h.unasked, h.older⟩
  · have hclients : (t.remove c).clients = fun d => if C d then none else (s.remove c).clients d := by
      funext d
      by_cases hd : d = c
      · simp [Server.remove, hd]
      · simp [Server.remove, hd, h.clients]
    have hsame := h.same
    unfold mask at hsame ⊢
    rw [← hclients]
    unfold Server.remove
    rw [hsame]
  · by_cases hd : d = c <;> simp [Server.remove, hd, h.known]
  · by_cases hdc : d = c
    · simp [Server.remove, hdc] at he
    · exact h.meek d e hd (by simpa [Server.remove, hdc] using he)

theorem Unseen.dropClient (h : Unseen C s t) (hs : s.Settled) (c : ClientId) :
    Unseen C (s.dropClient P c) (t.dropClient P c) := by
  rw [dropClient_eq, dropClient_eq]
  exact ((h.remove c).reportAttached (hs.remove c)).fallback (hs.remove c).reportAttached c

theorem Unseen.send (h : Unseen C s t) (hs : s.Rests) (hc : C c = false)
    (m : HolderMessage) : Unseen C (s.send P c m) (t.send P c m) := by
  have hclient := h.clients_of_not hc
  by_cases hintro : s.Introduced c
  · have hintro' : t.Introduced c := by
      unfold Introduced
      rw [hclient]
      exact hintro
    rw [send_eq_tell hintro, send_eq_tell hintro', hs.tell_eq, (h.rests hs).tell_eq,
      h.scene hs.nodup hs.known]
    exact h.mapAt (pushAt_role _ m c) fun _ _ _ => rfl
  · unfold Introduced at hintro
    push Not at hintro
    obtain ⟨e, he, hrole⟩ := hintro
    have hroles : ∀ d e, (if d = c then (s.scene P).offered P m e else e).role = e.role := by
      intro d e
      split <;> rfl
    have hoffered := h.mapAt hroles fun _ _ _ => rfl
    rw [send_unintroduced he hrole, send_unintroduced (hclient.trans he) hrole, h.scene hs.nodup hs.known]
    split
    · exact hoffered
    · exact hoffered.dropClient (hs.mapAt hroles).toSettled c

theorem Unseen.setClient (h : Unseen C s t) (hc : C c = false) {e : Client}
    (hthere : (s.clients c).isSome = true) : Unseen C (s.setClient c e) (t.setClient c e) := by
  have hclients : (t.setClient c e).clients =
      fun d => if C d then none else (s.setClient c e).clients d := by
    funext d
    by_cases hd : d = c
    · subst hd
      simp [Server.setClient, hc]
    · simp [Server.setClient, hd, h.clients]
  refine ⟨?_, h.nodup, fun d => ?_, fun d e' hd he' => ?_, h.unasked, h.older⟩
  · have hsame := h.same
    unfold mask at hsame ⊢
    rw [← hclients]
    unfold Server.setClient
    rw [hsame]
  · show d ∈ t.ids ↔ ((t.setClient c e).clients d).isSome = true
    rw [h.known]
    by_cases hd : d = c
    · subst hd
      simp [Server.setClient, h.clients_of_not hc, hthere]
    · simp [Server.setClient, hd]
  · have hne : d ≠ c := fun heq => by rw [heq, hc] at hd; cases hd
    exact h.meek d e' hd (by simpa [Server.setClient, hne] using he')

theorem Unseen.evict (h : Unseen C s t) (hs : s.Rests) : Unseen C (s.evict P) (t.evict P) := by
  have hmarked : ({ s with supervised := true } : Server τ).Rests :=
    hs.of_eq rfl
  have h' := h.update (fun s => { s with supervised := true }) (fun _ _ => rfl) ⟨rfl, rfl⟩ h.unasked
  unfold Server.evict
  dsimp only
  rw [h'.supervisors hmarked.toSettled]
  rcases hmarked.supervisors with hnone | ⟨d, -, hone⟩
  · rw [hnone]
    exact h'
  · rw [hone]
    exact h'.dropClient hmarked.toSettled d

theorem Unseen.introduce (h : Unseen C s t) (hs : s.Rests) (hc : C c = false)
    (hnew : ∀ e, s.clients c = some e → e.role = none) (role : ClientRole) :
    Unseen C (s.introduce P c role) (t.introduce P c role) := by
  have hclient := h.clients_of_not hc
  cases he : s.clients c with
  | none =>
    rw [introduce_none he, introduce_none (hclient.trans he)]
    exact h
  | some e =>
    have hthere : (s.clients c).isSome = true := by simp [he]
    have hnamed := fun role => h.setClient hc (e := { e with role := some role }) hthere
    have hroles : ∀ (k : Scene) (d : ClientId) (e' : Client),
        (if d = c then k.resynced P e' else e').role = e'.role := by
      intro k d e'
      split
      · exact Scene.resynced_role
      · rfl
    cases role with
    | attach readOnly =>
      have hsettled := hs.named he readOnly
      rw [hs.introduce_attach he, (h.rests hs).introduce_attach (hclient.trans he),
        (hnamed (.attach readOnly)).scene hsettled.nodup hsettled.known]
      exact ((hnamed (.attach readOnly)).mapAt (hroles _) fun _ _ _ => rfl).reportAttached
        (hsettled.mapAt (hroles _))
    | supervisor =>
      have hnone := hnew e he
      have hwarning : t.resetWarning = s.resetWarning := by rw [h.same]; rfl
      rw [hs.introduce_supervisor he hnone, (h.rests hs).introduce_supervisor (hclient.trans he) hnone,
        (hnamed .supervisor).scene hs.nodup (hs.known_named he _), hwarning]
      exact ((hnamed .supervisor).mapAt (hroles _) fun _ _ _ => rfl).update
        (fun s' => { s' with
          resetWarning := if s.resetWarning = .pending then .sent else s.resetWarning })
        (fun _ _ => rfl) ⟨rfl, rfl⟩ h.unasked

theorem Unseen.onHello (h : Unseen C s t) (hs : s.Rests) (hc : C c = false)
    (hnew : ∀ e, s.clients c = some e → e.role = none) (role : ClientRole) :
    Unseen C (s.onHello P c role) (t.onHello P c role) := by
  rw [onHello_eq, onHello_eq]
  split
  · exact (h.evict hs).introduce hs.evict.1 hc (fun e he => role_of_evict hnew he) role
  · exact h.introduce hs hc hnew role

theorem runControl_mask (control : HolderControl) (ids : List ClientId) (accepted : ClientId) :
    (s.mask C ids accepted).runControl control =
      ((s.runControl control).1.mask C ids accepted, (s.runControl control).2) := by
  cases control with
  | terminate signal grace =>
    by_cases hdone : s.outcomes.head?.getD false = true <;>
      simp [Server.runControl, Server.call, mask, hdone]
  | _ => rfl

theorem runControl_frame (s : Server τ) (control : HolderControl) :
    ∃ calls outcomes graces, (s.runControl control).1 =
      { s with calls := calls, outcomes := outcomes, graces := graces } := by
  cases control with
  | terminate signal grace =>
    unfold Server.runControl Server.call
    dsimp only
    split <;> exact ⟨_, _, _, rfl⟩
  | _ => exact ⟨_, _, _, rfl⟩

theorem Unseen.runControl (h : Unseen C s t) (control : HolderControl) :
    Unseen C (s.runControl control).1 (t.runControl control).1 ∧
      (t.runControl control).2 = (s.runControl control).2 := by
  obtain ⟨calls, outcomes, graces, heq⟩ := runControl_frame s control
  refine ⟨h.update (fun s => (s.runControl control).1) (fun ids accepted => ?_) ?_ ?_, ?_⟩
  · rw [runControl_mask]
  · rw [heq]
    exact ⟨rfl, rfl⟩
  · rw [heq]
    exact h.unasked
  · rw [h.same, runControl_mask]

theorem Unseen.pushInput (h : Unseen C s t) (bytes : Bytes) :
    Unseen C (s.pushInput bytes).1 (t.pushInput bytes).1 ∧
      (t.pushInput bytes).2 = (s.pushInput bytes).2 := by
  refine ⟨h.update (fun s => (s.pushInput bytes).1) (fun _ _ => rfl) ⟨rfl, rfl⟩ h.unasked, ?_⟩
  rw [h.same]
  rfl

theorem Unseen.asked (h : Unseen C s t) (hc : C c = false) (size : PtySize) :
    Unseen C (s.asked c size) (t.asked c size) := by
  refine h.update (fun s => s.asked c size) (fun _ _ => rfl) ⟨rfl, rfl⟩ fun a ha => ?_
  rcases List.mem_append.1 ha with hbefore | hlast
  · exact h.unasked a (List.mem_of_mem_filter hbefore)
  · rw [List.mem_singleton.1 hlast]
    exact hc

theorem Unseen.onMessage (h : Unseen C s t) (hs : s.Rests) (hc : C c = false)
    (m : ClientMessage) : Unseen C (s.onMessage P c m) (t.onMessage P c m) := by
  unfold Server.onMessage
  rw [h.clients_of_not hc]
  cases he : s.clients c with
  | none => exact h
  | some e =>
    dsimp only
    cases hrole : e.role with
    | none =>
      cases m with
      | hello role =>
        refine h.onHello hs hc (fun e' he' => ?_) role
        rw [he] at he'
        rwa [← Option.some.inj he']
      | _ => exact h.send hs hc _
    | some role =>
      cases m with
      | hello _ => exact h.send hs hc _
      | input bytes =>
        dsimp only
        split
        · exact h.send hs hc _
        · obtain ⟨hpushed, htook⟩ := h.pushInput bytes
          have hrests : (s.pushInput bytes).1.Rests :=
            hs.of_eq rfl
          rw [htook]
          split
          · exact hpushed
          · exact hpushed.send hrests hc _
      | resize size =>
        dsimp only
        split
        · exact h.send hs hc _
        · have hrests : (s.asked c size).Rests :=
            hs.of_eq rfl
          obtain ⟨hsized, hchanged⟩ := (h.asked hc size).applySize (P := P) size
          have hrests' := hrests.applySize (P := P) size
          rw [← Server.asked, ← Server.asked]
          generalize (s.asked c size).applySize P size = sized at hsized hchanged hrests' ⊢
          generalize (t.asked c size).applySize P size = sized' at hsized hchanged ⊢
          obtain ⟨s', changed⟩ := sized
          obtain ⟨t', changed'⟩ := sized'
          obtain rfl : changed' = changed := hchanged
          cases changed' with
          | none => exact hsized.send hrests' hc _
          | some changed =>
            cases changed with
            | true => exact hsized.resyncWhere hrests' _
            | false => exact hsized
      | control control =>
        dsimp only
        split
        · exact h.send hs hc _
        · obtain ⟨hrun, hok⟩ := h.runControl control
          rw [hok]
          split
          · exact hrun
          · exact hrun.send (hs.runControl control) hc _
      | collectExit =>
        have hexit : t.exit.isSome = s.exit.isSome := by rw [h.same]; rfl
        dsimp only
        split
        · exact h.send hs hc _
        · rw [hexit]
          split
          · exact h.update (fun s => { s with finished := true }) (fun _ _ => rfl) ⟨rfl, rfl⟩ h.unasked
          · exact h.send hs hc _

/-! ### The child -/

theorem Unseen.broadcastTo (h : Unseen C s t) (hs : s.Rests) (takes : ClientRole → Bool)
    (m : HolderMessage) : Unseen C (s.broadcastTo P takes m) (t.broadcastTo P takes m) := by
  rw [hs.broadcastTo_eq, (h.rests hs).broadcastTo_eq, h.scene hs.nodup hs.known]
  refine h.mapAt (fun _ e => ?_) fun _ _ _ => rfl
  split
  · exact Scene.pushed_role
  · rfl

theorem Unseen.onExit (h : Unseen C s t) (hs : s.Rests) (outcome : ExitOutcome) :
    Unseen C (s.onExit P outcome) (t.onExit P outcome) := by
  have hgone := h.update (fun s => { s with childExited := true, exit := some outcome })
    (fun _ _ => rfl) ⟨rfl, rfl⟩ h.unasked
  rw [hs.onExit_eq, (h.rests hs).onExit_eq, hgone.scene hs.nodup hs.known]
  exact hgone.mapAt (fun _ _ => Scene.left_role) fun _ _ _ => rfl

theorem absorb_mask (bytes : Bytes) (ids : List ClientId) (accepted : ClientId) :
    (s.mask C ids accepted).absorb P bytes = (s.absorb P bytes).mask C ids accepted := by
  by_cases hquiet : (P.process s.terminal bytes).replies = [] <;>
    simp [Server.absorb, Server.pushInput, mask, hquiet]

theorem Unseen.logOutput (h : Unseen C s t) (bytes : Bytes) (held : Held) :
    Unseen C (s.logOutput P bytes held) (t.logOutput P bytes held) := by
  obtain ⟨input, habsorb⟩ := absorb_frame P s bytes
  refine h.update (fun s => s.logOutput P bytes held) (fun ids accepted => ?_) ?_ ?_
  · unfold Server.logOutput
    rw [absorb_mask]
    rfl
  · unfold Server.logOutput
    rw [habsorb]
    exact ⟨rfl, rfl⟩
  · unfold Server.logOutput
    rw [habsorb]
    exact h.unasked

theorem Unseen.broadcastOutput (h : Unseen C s t) (hs : s.Rests) (start : ℕ) (bytes : Bytes)
    (held : Held) :
    Unseen C (s.broadcastOutput P start bytes held) (t.broadcastOutput P start bytes held) := by
  cases held with
  | chunk => exact h.broadcastTo hs _ _
  | other held =>
    unfold Server.broadcastOutput
    dsimp only
    split
    · exact h.broadcastTo hs _ _
    · exact (h.broadcastTo hs _ _).broadcastTo (hs.broadcastTo _ _) _ _

theorem any_owesAt (hknown : ∀ c, c ∈ s.ids ↔ (s.clients c).isSome = true) :
    (s.chosen fun _ => true).any (s.owesAt P) = true ↔ ∃ c, s.owesAt P c = true := by
  rw [List.any_eq_true]
  refine ⟨fun ⟨c, _, howes⟩ => ⟨c, howes⟩, fun ⟨c, howes⟩ => ⟨c, ?_, howes⟩⟩
  obtain ⟨e, he, hrole⟩ := Option.bind_eq_some_iff.1 (roleOf_of_owesAt howes)
  rw [Server.mem_chosen hknown he, hrole]
  rfl

theorem Unseen.owesAt (h : Unseen C s t) (hscene : t.scene P = s.scene P) :
    t.owesAt P = s.owesAt P := by
  funext c
  unfold Server.owesAt
  rw [hscene, h.clients]
  cases hc : C c with
  | false => rfl
  | true =>
    cases he : s.clients c with
    | none => rfl
    | some e => rcases h.meek c e hc he with hrole | hrole <;> simp [Scene.owes, hrole]

theorem Unseen.resyncAll (h : Unseen C s t) (hs : s.Rests) (warning : ResetWarning) :
    Unseen C (Server.resyncAll P { s with resetWarning := warning })
      (Server.resyncAll P { t with resetWarning := warning }) := by
  have ht := h.rests hs
  have hreset := h.update (fun s => { s with resetWarning := warning }) (fun _ _ => rfl) ⟨rfl, rfl⟩ h.unasked
  have hscene := hreset.scene (P := P) hs.nodup hs.known
  have howed : (Server.chosen { t with resetWarning := warning } fun _ => true).any
        (Server.owesAt P { t with resetWarning := warning }) =
      (Server.chosen { s with resetWarning := warning } fun _ => true).any
        (Server.owesAt P { s with resetWarning := warning }) := by
    rw [Bool.eq_iff_iff, any_owesAt (s := { t with resetWarning := warning }) ht.known,
      any_owesAt (s := { s with resetWarning := warning }) hs.known, hreset.owesAt hscene]
  rw [resyncAll_eq (s := { s with resetWarning := warning }) hs.nodup hs.known hs.single,
    resyncAll_eq (s := { t with resetWarning := warning }) ht.nodup ht.known ht.single, hscene, howed]
  generalize (if List.any _ _ = true then ResetWarning.sent else warning) = left
  refine (hreset.mapAt (fun _ e => ?_) fun _ _ _ => rfl).update (fun s => { s with resetWarning := left })
    (fun _ _ => rfl) ⟨rfl, rfl⟩ h.unasked
  split
  · exact Scene.resynced_role
  · rfl

theorem onOutput_eq (bytes : Bytes) (held : Held) (failed : Bool) :
    s.onOutput P bytes held failed =
      if (P.process s.terminal bytes).reset then
        Server.resyncAll P { s.logOutput P bytes held with
          resetWarning := if (s.logOutput P bytes held).resetWarning = .unneeded then .pending
            else (s.logOutput P bytes held).resetWarning }
      else if (if failed then (P.process s.terminal bytes).logged.drop (held.bytes bytes).length
          else []) = [] then
        (s.logOutput P bytes held).broadcastOutput P (s.absorb P bytes).log.length bytes held
      else
        ((s.logOutput P bytes held).broadcastOutput P (s.absorb P bytes).log.length bytes
          held).broadcastTo P (· = .supervisor)
            (.unlogged (if failed then (P.process s.terminal bytes).logged.drop
              (held.bytes bytes).length else [])) := rfl

theorem Unseen.onOutput (h : Unseen C s t) (hs : s.Rests) (bytes : Bytes) (held : Held)
    (failed : Bool) : Unseen C (s.onOutput P bytes held failed) (t.onOutput P bytes held failed) := by
  have hlogged := h.logOutput (P := P) bytes held
  have hrests := hs.logOutput (P := P) bytes held
  have hterminal : t.terminal = s.terminal := by rw [h.same]; rfl
  have hwarning : (t.logOutput P bytes held).resetWarning = (s.logOutput P bytes held).resetWarning := by
    rw [hlogged.same]
    rfl
  have hlog : (t.absorb P bytes).log = (s.absorb P bytes).log := by
    rw [h.same, absorb_mask]
    rfl
  have hsent := hlogged.broadcastOutput (P := P) hrests (s.absorb P bytes).log.length bytes held
  rw [onOutput_eq, onOutput_eq, hterminal, hwarning, hlog]
  generalize (if failed = true then _ else _ : Bytes) = unlogged
  split
  · exact hlogged.resyncAll hrests _
  · split
    · exact hsent
    · exact hsent.broadcastTo (hrests.broadcastOutput _ bytes held) _ _

end Server

end Muster.Holder
