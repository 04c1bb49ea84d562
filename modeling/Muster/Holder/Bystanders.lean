import Muster.Holder.Unseen

/-!
# Bystanders — read-only and unintroduced clients change nothing for anybody else

Two runs are compared: one with the clients of a set that never become supervisor or writable, and the
same run with their connections, messages and disconnections left out.  What a bystander does keeps
the two `Unseen`, so they stay so from the first event to the last.
-/

namespace Muster.Holder

open Muster.Log
open Muster.Supervisor (ExitOutcome)

namespace Server

variable {τ : Type} {P : Platform τ} {C : ClientId → Bool} {s t : Server τ} {c : ClientId}

/-! ### A bystander -/

theorem Unseen.fallback_self (h : Unseen C s t) (hc : C c = true) : s.fallback P c = s := by
  have hnot : ∀ a ∈ s.resizes, a.1 ≠ c := fun a ha heq => by
    have hfalse := h.unasked a ha
    rw [heq, hc] at hfalse
    cases hfalse
  have hkept : s.resizes.filter (·.1 ≠ c) = s.resizes :=
    List.filter_eq_self.2 fun a ha => decide_eq_true (hnot a ha)
  have hlast : s.resizes.getLast?.map Prod.fst ≠ some c := fun hlast => by
    obtain ⟨a, ha, heq⟩ := Option.map_eq_some_iff.1 hlast
    exact hnot a (List.mem_of_getLast? ha) heq
  unfold Server.fallback
  dsimp only
  rw [hkept]
  split
  · rw [if_neg hlast]
  · rfl

/-- Bystanders come, go and change as they like, as long as they stay bystanders. -/
theorem Unseen.unseen (h : Unseen C s t) {clients : ClientId → Option Client} (ids : List ClientId)
    {accepted : ClientId} (hlater : s.accepted ≤ accepted)
    (hothers : ∀ c, C c = false → clients c = s.clients c)
    (hmeek : ∀ c e, C c = true → clients c = some e → e.role = none ∨ e.role = some (.attach true)) :
    Unseen C { s with clients := clients, ids := ids, accepted := accepted } t := by
  refine ⟨h.same.trans ?_, h.nodup, h.known, hmeek, h.unasked, h.older.trans hlater⟩
  have hmasked : (fun c => if C c then none else s.clients c) =
      fun c => if C c then none else clients c := by
    funext c
    cases hc : C c with
    | true => rfl
    | false => exact (hothers c hc).symm
  unfold mask
  rw [hmasked]

theorem Unseen.remove_unseen (h : Unseen C s t) (hc : C c = true) : Unseen C (s.remove c) t := by
  refine h.unseen _ (Nat.le_refl _) (fun d hd => ?_) fun d e hd he => ?_
  · exact Function.update_of_ne (fun heq => by rw [heq, hc] at hd; cases hd) ..
  · by_cases hdc : d = c
    · simp [hdc] at he
    · exact h.meek d e hd (by simpa [hdc] using he)

theorem Unseen.setClient_unseen (h : Unseen C s t) (hc : C c = true) {e : Client}
    (he : e.role = none ∨ e.role = some (.attach true)) : Unseen C (s.setClient c e) t := by
  refine h.unseen s.ids (Nat.le_refl _) (fun d hd => ?_) fun d e' hd he' => ?_
  · exact Function.update_of_ne (fun heq => by rw [heq, hc] at hd; cases hd) ..
  · by_cases hdc : d = c
    · obtain rfl : e = e' := by simpa [hdc] using he'
      exact he
    · exact h.meek d e' hd (by simpa [hdc] using he')

theorem Unseen.reportAttached_self {s' : Server τ} (h : Unseen C s t) (hs : s.Rests)
    (h' : Unseen C s' t) (hs' : s'.Settled) (hreported : s'.reportedAttached = s.reportedAttached) :
    s'.reportAttached P = s' :=
  Server.reportAttached_self <| (hreported.trans hs.reported).trans
    ((h.writableAttached hs.nodup hs.known).symm.trans (h'.writableAttached hs'.nodup hs'.known))

theorem Unseen.dropClient_unseen (h : Unseen C s t) (hs : s.Rests) (hc : C c = true) :
    Unseen C (s.dropClient P c) t := by
  have hremoved := h.remove_unseen hc
  rw [dropClient_eq, h.reportAttached_self hs hremoved (hs.remove c) rfl, hremoved.fallback_self hc]
  exact hremoved

theorem Unseen.send_unseen (h : Unseen C s t) (hs : s.Rests) (hc : C c = true)
    (m : HolderMessage) : Unseen C (s.send P c m) t := by
  have hother : ∀ {d : ClientId}, C d = false → d ≠ c := fun hd heq => by
    rw [heq, hc] at hd
    cases hd
  by_cases hintro : s.Introduced c
  · rw [send_eq_tell hintro, hs.tell_eq]
    exact h.mapAt_unseen (pushAt_role _ m c) fun d e hd => if_neg (hother hd)
  · unfold Introduced at hintro
    push Not at hintro
    obtain ⟨e, he, hrole⟩ := hintro
    have hroles : ∀ d e, (if d = c then (s.scene P).offered P m e else e).role = e.role := by
      intro d e
      split <;> rfl
    have hoffered := h.mapAt_unseen hroles fun d e hd => if_neg (hother hd)
    rw [send_unintroduced he hrole]
    split
    · exact hoffered
    · exact hoffered.dropClient_unseen (hs.mapAt hroles) hc

theorem Unseen.onHello_unseen (h : Unseen C s t) (hs : s.Rests) (hc : C c = true) :
    Unseen C (s.onHello P c (.attach true)) t := by
  rw [onHello_eq, if_neg (by simp)]
  cases he : s.clients c with
  | none =>
    rw [introduce_none he]
    exact h
  | some e =>
    set named := s.setClient c { e with role := some (.attach true) } with hnamed
    have hsettled : named.Settled := hs.named he true
    have hroles : ∀ d e', (if d = c then (named.scene P).resynced P e' else e').role = e'.role := by
      intro d e'
      split
      · exact Scene.resynced_role
      · rfl
    have hresynced : Unseen C
        (named.mapAt fun d e' => if d = c then (named.scene P).resynced P e' else e') t :=
      (h.setClient_unseen hc (.inr rfl)).mapAt_unseen hroles fun d e' hd =>
        if_neg fun heq => by rw [heq, hc] at hd; cases hd
    rw [hs.introduce_attach he, ← hnamed,
      h.reportAttached_self hs hresynced (hsettled.mapAt hroles) rfl]
    exact hresynced

/-- The message does not introduce a client of `C` as more than a read-only one. -/
def MeekMessage (C : ClientId → Bool) (s : Server τ) (c : ClientId) : ClientMessage → Prop
  | .hello role =>
    C c = true → (s.clients c).any (fun e => decide (e.role = none)) = true → role = .attach true
  | _ => True

theorem Unseen.onMessage_unseen (h : Unseen C s t) (hs : s.Rests) (hc : C c = true)
    {m : ClientMessage} (hm : s.MeekMessage C c m) : Unseen C (s.onMessage P c m) t := by
  cases he : s.clients c with
  | none =>
    unfold Server.onMessage
    rw [he]
    exact h
  | some e =>
    have hrole := h.meek c e hc he
    have hmute : e.role.any ClientRole.writable = true → False := by
      rcases hrole with hrole | hrole <;> simp [hrole, ClientRole.writable]
    have hidle : e.role = some .supervisor → False := by
      rcases hrole with hrole | hrole <;> simp [hrole]
    refine onMessage_cases (Q := fun s' => Unseen C s' t) he (fun hnone role hhello => ?_)
      (fun _ _ => h.send_unseen hs hc _)
      (fun _ _ hw => (hmute hw).elim) (fun _ _ hw => (hmute hw).elim)
      (fun _ _ hsup => (hidle hsup).elim) fun _ hsup _ => (hidle hsup).elim
    subst hhello
    obtain rfl : role = .attach true := hm hc (by simp [he, hnone])
    exact h.onHello_unseen hs hc

/-! ### The two runs -/

/-- What is left of an event once the clients in `C` are left out. -/
def without (C : ClientId → Bool) : HolderEvent → Option HolderEvent
  | .connected c cloned races => if C c then none else some (.connected c cloned races)
  | .message c m => if C c then none else some (.message c m)
  | .disconnected c => if C c then none else some (.disconnected c)
  | .writer c move => if C c then none else some (.writer c move)
  | .reorder ids => some (.reorder (ids.filter fun c => !C c))
  | ev => some ev

/-- The event does not introduce a client of `C` as more than a read-only one. -/
def Meek (C : ClientId → Bool) (s : Server τ) : HolderEvent → Prop
  | .message c m => s.MeekMessage C c m
  | _ => True

instance (C : ClientId → Bool) (s : Server τ) : DecidablePred (s.Meek C)
  | .message _ (.hello _) => inferInstanceAs (Decidable (_ → _ → _))
  | .message _ .collectExit | .message _ (.resize _) | .message _ (.input _) | .message _ (.control _)
  | .output .. | .exited _ | .graceElapsed | .supervisorDeadline | .connected .. | .disconnected _
  | .writer .. | .inputWriter _ | .reorder _ => .isTrue trivial

/-- The holder's loop, where the acceptor may skip identities. -/
def sparse (P : Platform τ) : Machine (Server τ) HolderEvent where
  Enabled := fun s ev => s.finished = false ∧ match ev with
    | .connected c _ _ => s.accepted ≤ c
    | ev => s.Enabled ev
  next := step P

theorem Unseen.onConnected (h : Unseen C s t) (hs : s.Rests) (hnew : c ∉ s.ids)
    (hc : C c = false) (cloned : Bool) (races : List (List (List Move))) :
    Unseen C (s.onConnected c cloned races) (t.onConnected c cloned races) := by
  have hnew' : c ∉ t.ids := by
    rw [h.known, h.clients_of_not hc, ← hs.known]
    exact hnew
  unfold Server.onConnected
  dsimp only
  split
  · have hclients : (Function.update t.clients c (some ⟨none, .new (.ofNat clientOutboxBytes) races, []⟩)) =
        fun d => if C d then none
          else Function.update s.clients c (some ⟨none, .new (.ofNat clientOutboxBytes) races, []⟩) d := by
      funext d
      by_cases hd : d = c
      · simp [hd, hc]
      · simp [hd, h.clients]
    refine ⟨?_, ?_, fun d => ?_, fun d e hd he => ?_, h.unasked, Nat.le_refl _⟩
    · have hsame := h.same
      unfold mask at hsame ⊢
      rw [← hclients, hsame]
    · exact (List.perm_append_singleton c t.ids).nodup_iff.2 (List.nodup_cons.2 ⟨hnew', h.nodup⟩)
    · by_cases hd : d = c <;> simp [hd, h.known]
    · by_cases hdc : d = c
      · rw [hdc, hc] at hd
        cases hd
      · exact h.meek d e hd (by simpa [hdc] using he)
  · have hsame := h.same
    refine ⟨?_, h.nodup, h.known, h.meek, h.unasked, Nat.le_refl _⟩
    unfold mask at hsame ⊢
    rw [hsame]

theorem Unseen.onConnected_unseen (h : Unseen C s t) (hnext : c = s.accepted)
    (hc : C c = true) (cloned : Bool) (races : List (List (List Move))) :
    Unseen C (s.onConnected c cloned races) t := by
  have hlater : s.accepted ≤ c + 1 := hnext ▸ Nat.le_succ _
  unfold Server.onConnected
  dsimp only
  split
  · refine h.unseen _ hlater (fun d hd => ?_) fun d e hd he => ?_
    · exact Function.update_of_ne (fun heq => by rw [heq, hc] at hd; cases hd) ..
    · by_cases hdc : d = c
      · obtain rfl : _ = e := by simpa [hdc] using he
        exact .inl rfl
      · exact h.meek d e hd (by simpa [hdc] using he)
  · exact h.unseen s.ids hlater (fun _ _ => rfl) h.meek

theorem graceElapsed_mask (ids : List ClientId) (accepted : ClientId) :
    (s.mask C ids accepted).step P .graceElapsed =
      (s.step P .graceElapsed).mask C ids accepted := by
  cases hexited : s.childExited <;> simp [Server.step, Server.call, mask, hexited]

theorem Unseen.graceElapsed (h : Unseen C s t) :
    Unseen C (s.step P .graceElapsed) (t.step P .graceElapsed) := by
  have hframe : ((s.step P .graceElapsed).clients = s.clients ∧
      (s.step P .graceElapsed).accepted = s.accepted) ∧
      (s.step P .graceElapsed).resizes = s.resizes := by
    cases hexited : s.childExited <;> simp [Server.step, Server.call, hexited]
  refine h.update (fun s => s.step P .graceElapsed) graceElapsed_mask hframe.1 ?_
  rw [hframe.2]
  exact h.unasked

theorem supervisorDeadline_mask (ids : List ClientId) (accepted : ClientId) :
    (s.mask C ids accepted).step P .supervisorDeadline =
      (s.step P .supervisorDeadline).mask C ids accepted := by
  cases hsupervised : s.supervised <;> cases hexited : s.childExited <;>
    simp [Server.step, Server.call, mask, hsupervised, hexited]

theorem Unseen.supervisorDeadline (h : Unseen C s t) :
    Unseen C (s.step P .supervisorDeadline) (t.step P .supervisorDeadline) := by
  have hframe : ((s.step P .supervisorDeadline).clients = s.clients ∧
      (s.step P .supervisorDeadline).accepted = s.accepted) ∧
      (s.step P .supervisorDeadline).resizes = s.resizes := by
    cases hsupervised : s.supervised <;> cases hexited : s.childExited <;>
      simp [Server.step, Server.call, hsupervised, hexited]
  refine h.update (fun s => s.step P .supervisorDeadline) supervisorDeadline_mask hframe.1 ?_
  rw [hframe.2]
  exact h.unasked

theorem writer_eq (c : ClientId) (move : Move) : s.step P (.writer c move) =
    s.mapAt fun d e => if d = c then { e with outbox := e.outbox.move move } else e := by
  unfold Server.step
  dsimp only
  cases hc : s.clients c with
  | none =>
    refine (mapAt_self fun d e he => if_neg fun heq => ?_).symm
    rw [heq, hc] at he
    cases he
  | some entry => exact setClient_eq_mapAt hc fun e => { e with outbox := e.outbox.move move }

theorem Unseen.writer (h : Unseen C s t) (c : ClientId) (move : Move) :
    Unseen C (s.step P (.writer c move)) ((sparse P).play t (without C (.writer c move)).toList) := by
  have hroles : ∀ d e, (if d = c then { e with outbox := e.outbox.move move } else e : Client).role =
      e.role := by
    intro d e
    split <;> rfl
  cases hc : C c <;> simp only [without, hc, if_true, Bool.false_eq_true, if_false]
  · show Unseen C (s.step P (.writer c move)) (t.step P (.writer c move))
    rw [writer_eq, writer_eq]
    exact h.mapAt hroles fun _ _ _ => rfl
  · show Unseen C (s.step P (.writer c move)) t
    rw [writer_eq]
    exact h.mapAt_unseen hroles fun d e hd => if_neg fun heq => by rw [heq, hc] at hd; cases hd

theorem Unseen.ids_perm (h : Unseen C s t) (hs : s.Rests) : (s.ids.filter fun c => !C c).Perm t.ids := by
  refine (List.perm_ext_iff_of_nodup (hs.nodup.filter _) h.nodup).2 fun c => ?_
  rw [List.mem_filter, hs.known, h.known, h.clients]
  cases C c <;> simp

/-- **One step.** -/
theorem Unseen.step (h : Unseen C s t) (hs : s.Rests) (hinv : s.Inv) {ev : HolderEvent}
    (hev : s.Enabled ev) (hmeek : s.Meek C ev) :
    Unseen C (s.step P ev) ((sparse P).play t (without C ev).toList) := by
  cases ev with
  | output bytes held failed => exact h.onOutput hs bytes held failed
  | exited outcome => exact h.onExit hs outcome
  | graceElapsed => exact h.graceElapsed
  | supervisorDeadline => exact h.supervisorDeadline
  | connected c cloned races =>
    obtain rfl : c = s.accepted := hev.2
    have hnew : s.accepted ∉ s.ids := fun hmem => Nat.lt_irrefl _ (hinv.older _ hmem)
    cases hc : C s.accepted <;> simp only [without, hc, if_true, Bool.false_eq_true, if_false]
    · exact h.onConnected hs hnew hc cloned races
    · exact h.onConnected_unseen rfl hc cloned races
  | message c m =>
    cases hc : C c <;> simp only [without, hc, if_true, Bool.false_eq_true, if_false]
    · exact h.onMessage hs hc m
    · exact h.onMessage_unseen hs hc hmeek
  | disconnected c =>
    cases hc : C c <;> simp only [without, hc, if_true, Bool.false_eq_true, if_false]
    · exact h.dropClient hs.toSettled c
    · exact h.dropClient_unseen hs hc
  | writer c move => exact h.writer c move
  | inputWriter move =>
    exact h.update (fun s => { s with input := s.input.move move }) (fun _ _ => rfl) ⟨rfl, rfl⟩ h.unasked
  | reorder ids =>
    have hperm : ids.Perm s.ids := hev.2
    have hleft := (hperm.filter fun c => !C c).trans (h.ids_perm hs)
    exact ⟨by rw [h.same]; rfl, hleft.nodup_iff.2 h.nodup, fun c => hleft.mem_iff.trans (h.known c),
      h.meek, h.unasked, h.older⟩

theorem Unseen.enabled (h : Unseen C s t) (hs : s.Rests) {ev : HolderEvent} (hev : s.Enabled ev) :
    (sparse P).Plays t (without C ev).toList := by
  have hfinished : t.finished = false := by
    rw [h.same]
    exact hev.1
  have hone : ∀ {ev'}, (sparse P).Enabled t ev' → (sparse P).Plays t [ev'] := fun h => ⟨h, trivial⟩
  cases ev with
  | graceElapsed => exact hone ⟨hfinished, hfinished, by rw [h.same]; exact hev.2⟩
  | supervisorDeadline => exact hone ⟨hfinished, hfinished, by rw [h.same]; exact hev.2⟩
  | connected c cloned races =>
    obtain rfl : c = s.accepted := hev.2
    cases hc : C s.accepted <;> simp only [without, hc, if_true, Bool.false_eq_true, if_false]
    · exact hone ⟨hfinished, h.older⟩
    · trivial
  | reorder ids =>
    have hperm : ids.Perm s.ids := hev.2
    exact hone ⟨hfinished, hfinished, (hperm.filter _).trans (h.ids_perm hs)⟩
  | message c m =>
    cases hc : C c <;> simp only [without, hc, if_true, Bool.false_eq_true, if_false]
    · exact hone ⟨hfinished, hfinished, trivial⟩
    · trivial
  | disconnected c =>
    cases hc : C c <;> simp only [without, hc, if_true, Bool.false_eq_true, if_false]
    · exact hone ⟨hfinished, hfinished, trivial⟩
    · trivial
  | writer c move =>
    cases hc : C c <;> simp only [without, hc, if_true, Bool.false_eq_true, if_false]
    · exact hone ⟨hfinished, hfinished, trivial⟩
    · trivial
  | output _ _ _ => exact hone ⟨hfinished, hfinished, trivial⟩
  | exited _ => exact hone ⟨hfinished, hfinished, trivial⟩
  | inputWriter _ => exact hone ⟨hfinished, hfinished, trivial⟩

/-- **A whole run.** -/
theorem Unseen.play : ∀ {evs : List HolderEvent} {s t : Server τ}, Unseen C s t → s.Inv → s.Rests →
    ((machine P).restrict (Meek C)).Plays s evs →
    (sparse P).Plays t (evs.filterMap (without C)) ∧
      Unseen C ((machine P).play s evs) ((sparse P).play t (evs.filterMap (without C)))
  | [], _, _, h, _, _, _ => ⟨trivial, h⟩
  | ev :: evs, s, t, h, hinv, hs, hplays => by
    obtain ⟨⟨hev, hmeek⟩, hplays⟩ := hplays
    have hstep := h.step (P := P) hs hinv hev hmeek
    have henabled := h.enabled (P := P) hs hev
    obtain ⟨hrest, hlast⟩ := Unseen.play hstep (hinv.step hev) (hs.step hinv hev) hplays
    rw [List.filterMap_cons]
    cases hleft : without C ev with
    | none =>
      rw [hleft] at hrest hlast
      exact ⟨hrest, hlast⟩
    | some left =>
      rw [hleft] at henabled hrest hlast
      exact ⟨⟨henabled.1, hrest⟩, hlast⟩

theorem new_unseen (C : ClientId → Bool) (terminal : τ) (size : PtySize) (pid : ℕ) (log : Bytes)
    (runStart : ℕ) (outcomes : List Bool) (races : List (List (List Move))) :
    Unseen C (new terminal size pid log runStart outcomes races)
      (new terminal size pid log runStart outcomes races) := by
  refine ⟨?_, .nil, fun _ => by simp [new], fun _ _ _ h => by simp [new] at h,
    fun _ h => by simp [new] at h, Nat.le_refl _⟩
  unfold mask new
  congr 1
  funext c
  exact (ite_self none).symm

/-- Clients of a set that never introduce themselves as a supervisor or as a writable client leave
nothing behind: leaving out their connections, messages and disconnections gives a run in which the
child's input, the calls on the child, the log, the terminal, the count reported, the end of the
loop and every other client are the same.  And only a message of a current supervisor controls the
child or collects its exit. -/
theorem bystanders_change_nothing (P : Platform τ) (C : ClientId → Bool) (terminal : τ)
    (size : PtySize) (pid : ℕ) (log : Bytes) (runStart : ℕ) (outcomes : List Bool)
    (races : List (List (List Move))) (evs : List HolderEvent) :
    let start := new terminal size pid log runStart outcomes races
    (((machine P).restrict (Meek C)).Plays start evs →
      (sparse P).Plays start (evs.filterMap (without C)) ∧
      let s := (machine P).play start evs
      let t := (sparse P).play start (evs.filterMap (without C))
      t.input = s.input ∧ t.calls = s.calls ∧ t.log = s.log ∧ t.terminal = s.terminal ∧
        t.reportedAttached = s.reportedAttached ∧ t.finished = s.finished ∧
        ∀ c, C c = false → t.clients c = s.clients c) ∧
    ((machine P).Plays start evs →
      let s := (machine P).play start evs
      ∀ c m, s.roleOf c ≠ some .supervisor → (s.onMessage P c m).signals = s.signals ∧
        (s.onMessage P c m).finished = s.finished) := by
  intro start
  refine ⟨fun hplays => ?_, ?_⟩
  · obtain ⟨hplays', h⟩ := (new_unseen C ..).play (new_inv ..) (new_rests ..) hplays
    refine ⟨hplays', ?_, ?_, ?_, ?_, ?_, ?_, fun c hc => h.clients_of_not hc⟩ <;>
      · rw [h.same]
        rfl
  · intro hplays s c m hrole
    have heffect := (rests_of_reaches (Machine.reaches_play hplays)).2.onMessage_effect (P := P) c m
    generalize s.onMessage P c m = s' at heffect ⊢
    cases heffect with
    | served h => exact ⟨h.signals, h.finished⟩
    | greeted _ _ h => exact ⟨h.signals, h.finished⟩
    | controlled _ hsupervisor _ => exact absurd hsupervisor hrole
    | collected hsupervisor _ => exact absurd hsupervisor hrole

/-- A supervisor, a writable terminal and two onlookers: one read-only, one that never says hello. -/
def onlookers : List HolderEvent :=
  [.connected 0 true [], .message 0 (.hello .supervisor), .connected 1 true [],
    .message 1 (.hello (.attach true)), .connected 2 true [], .message 2 (.input [1]),
    .connected 3 true [], .message 3 (.hello (.attach false)), .message 1 (.resize ⟨1, 1⟩),
    .message 3 (.resize ⟨50, 100⟩), .message 1 .collectExit, .output [65] .chunk false,
    .disconnected 1, .message 3 (.input [2])]

theorem bystanders_change_nothing_for_two :
    let start := new () ⟨24, 80⟩ 7 [] 0 [true] []
    let s := (machine plain).play start onlookers
    let t := (sparse plain).play start (onlookers.filterMap (without fun c => c = 1 ∨ c = 2))
    ((machine plain).restrict (Meek fun c => c = 1 ∨ c = 2)).Plays start onlookers ∧
      t.calls = s.calls ∧ s.calls = [.resize ⟨50, 100⟩] ∧ t.clients 3 = s.clients 3 := by
  have hplays : ((machine plain).restrict (Meek fun c => c = 1 ∨ c = 2)).Plays
      (new () ⟨24, 80⟩ 7 [] 0 [true] []) onlookers := by decide
  obtain ⟨-, -, hcalls, -, -, -, -, hclients⟩ := (bystanders_change_nothing plain
    (fun c => c = 1 ∨ c = 2) () ⟨24, 80⟩ 7 [] 0 [true] [] onlookers).1 hplays
  exact ⟨hplays, hcalls, by decide, hclients 3 (by decide)⟩

end Server

end Muster.Holder
