import Muster.Holder.Outboxes

/-!
# Frames — what the holder queues tiles the stream

One lemma per event: it leaves every client up to date with the log and the child.  A chunk of
output is the one event in the middle of which clients are `Behind`.
-/

namespace Muster.Holder

open Muster.Log

namespace Server

variable {τ : Type} {P : Platform τ} {s s' s'' : Server τ}

/-! ### Output -/

/-- Everyone is up to date with `log` and `produced`, and the server has logged `held` and seen
`bytes` since. -/
structure Behind (log produced held bytes : Bytes) (s : Server τ) : Prop where
  nodup : s.ids.Nodup
  known : ∀ c, c ∈ s.ids ↔ (s.clients c).isSome = true
  older : ∀ c ∈ s.ids, c < s.accepted
  good : ∀ c e, s.clients c = some e → e.Good log produced
  log : s.log = log ++ held
  produced : s.produced = produced ++ bytes

variable {log produced held bytes : Bytes} {c : ClientId}

theorem Behind.inv (h : s.Behind log produced held bytes) (hstays : s.Stays s')
    {R : Client → Client → Prop} (hrel : ∀ d, Option.Rel R (s.clients d) (s'.clients d))
    (hR : ∀ e e', e.Good log produced → R e e' → e'.Good s.log s.produced) : s'.Inv := by
  refine ⟨hstays.ids ▸ h.nodup, fun c => ?_, fun c hc => ?_, fun c e' he' => ?_⟩
  · rw [hstays.ids, h.known]
    have hd := hrel c
    generalize s.clients c = a at hd
    generalize s'.clients c = b at hd
    cases hd <;> simp
  · rw [hstays.accepted]
    exact h.older c (hstays.ids ▸ hc)
  · have hd := hrel c
    rw [he'] at hd
    generalize hc : s.clients c = a at hd
    cases hd with
    | some hr =>
      rw [hstays.log, hstays.produced]
      exact hR _ _ (h.good c _ hc) hr

theorem Behind.resyncAll (h : s.Behind log produced held bytes) : (s.resyncAll P).Inv := by
  obtain ⟨hstays, hothers, hrel⟩ := resyncs_spec (P := P) (s.chosen fun _ => true) s
    fun _ => introduced_of_chosen
  refine h.inv (R := fun e e' => e'.role = e.role ∧ (e.role ≠ none → e.Sound s.log →
    e'.Good s.log s.produced) ∧ (e.role = none → e' = e)) hstays (fun d => ?_) fun e e' hg hr => ?_
  · by_cases hd : d ∈ s.chosen fun _ => true
    · refine rel_imp (hrel d hd) fun e e' he hr => ⟨hr.1, fun _ => hr.2, fun hnone => ?_⟩
      exact absurd hnone (introduced_of_chosen hd e he)
    · rw [show (s.resyncAll P).clients d = s.clients d from hothers d hd]
      cases he : s.clients d with
      | none => exact .none
      | some e =>
        refine .some ⟨rfl, fun hintro => ?_, fun _ => rfl⟩
        refine absurd (List.mem_filter.mpr ⟨(h.known d).mpr (by simp [he]), ?_⟩) hd
        obtain ⟨role, hrole⟩ := Option.ne_none_iff_exists'.mp hintro
        simp [roleOf, he, hrole]
  · cases hrole : e.role with
    | none =>
      rw [hr.2.2 hrole]
      exact hg.unintroduced hrole _ _
    | some role =>
      refine hr.2.1 (by simp [hrole]) ?_
      rw [h.log]
      exact ⟨hg.1.1, hg.1.2.grow held⟩

theorem Behind.chunk (h : s.Behind log produced bytes bytes) :
    (s.broadcast P (.output log.length bytes)).Inv := by
  obtain ⟨hstays, hrel⟩ := broadcastTo_spec (P := P) h.nodup (fun c => (h.known c).mpr)
    (fun _ => true) (.output log.length bytes)
  refine h.inv hstays hrel fun e e' hg hr => ?_
  cases hrole : e.role with
  | none =>
    rw [hr.2.1 (by simp [hrole])]
    exact hg.unintroduced hrole _ _
  | some role =>
    refine hr.2.2 (by simp [hrole]) ?_ fun e₁ hrole₁ hput => ?_
    · rw [h.log]
      exact ⟨hg.1.1, hg.1.2.grow bytes⟩
    · rw [Server.stamp, h.log, h.produced] at hput
      rw [h.log, h.produced]
      exact hg.output (fun _ => rfl) (fun _ _ => rfl) (by simp [hrole]) hrole₁ hput

theorem Behind.toSupervisor (h : s.Behind log produced held bytes) :
    let sent := if held = [] then s
      else s.broadcastTo P (· = .supervisor) (.output log.length held)
    s.Stays sent ∧ ∀ d, Option.Rel (fun e e' => e'.role = e.role ∧
      (e.role = some .supervisor → e.Good log produced → e'.Good s.log s.produced) ∧
      (e.role ≠ some .supervisor → e' = e)) (s.clients d) (sent.clients d) := by
  dsimp only
  split
  · next hnil =>
    refine ⟨.refl s, fun d => ?_⟩
    cases s.clients d with
    | none => exact .none
    | some e =>
      refine .some ⟨rfl, fun hrole hg => ?_, fun _ => rfl⟩
      rw [h.log, hnil, List.append_nil]
      unfold Client.Good Client.Sound at *
      rw [hrole] at hg ⊢
      exact hg
  · obtain ⟨hstays, hrel⟩ := broadcastTo_spec (P := P) h.nodup (fun c => (h.known c).mpr)
      (· = .supervisor) (.output log.length held)
    refine ⟨hstays, fun d => rel_imp (hrel d) fun e e' _ hr => ⟨hr.1, fun hrole hg => ?_,
      fun hrole => hr.2.1 ?_⟩⟩
    · refine hr.2.2 (by simp [hrole]) ?_ fun e₁ hrole₁ hput => ?_
      · rw [h.log]
        exact ⟨hg.1.1, hg.1.2.grow held⟩
      · rw [Server.stamp, h.log, h.produced] at hput
        rw [h.log, h.produced]
        exact hg.output (fun _ => rfl) (fun _ ha => by rw [hrole] at ha; cases ha) (by simp [hrole])
          hrole₁ hput
    · cases hr : e.role with
      | none => rfl
      | some role =>
        rw [hr] at hrole
        simpa using hrole

theorem Behind.parts (h : s.Behind log produced held bytes) :
    ((if held = [] then s else s.broadcastTo P (· = .supervisor) (.output log.length held)).broadcastTo
      P (· ≠ .supervisor) (.output log.length bytes)).Inv := by
  obtain ⟨hstays, hrel⟩ := h.toSupervisor (P := P)
  set sent := if held = [] then s
    else s.broadcastTo P (· = .supervisor) (.output log.length held) with hsent
  have hknown : ∀ c, (sent.clients c).isSome = true → c ∈ sent.ids := by
    intro c hc
    rw [hstays.ids, h.known]
    have hd := hrel c
    generalize s.clients c = a at hd
    generalize sent.clients c = b at hd hc
    cases hd with
    | none => exact hc
    | some _ => rfl
  obtain ⟨hstays', hrel'⟩ := broadcastTo_spec (P := P) (hstays.ids ▸ h.nodup) hknown
    (· ≠ .supervisor) (.output log.length bytes)
  refine h.inv (hstays.trans hstays') (fun d => rel_trans (hrel d) (hrel' d)
    (T := fun e e'' => e.Good log produced → e''.Good s.log s.produced)
    fun e e' e'' _ hr hr' hg => ?_) fun e e'' hg hr => hr hg
  unfold Reached at hr'
  rw [hr.1, hstays.log, hstays.produced] at hr'
  by_cases hsup : e.role = some .supervisor
  · rw [hr'.2.1 (by simp [hsup])]
    exact hr.2.1 hsup hg
  · obtain rfl := hr.2.2 hsup
    cases hrole : e'.role with
    | none =>
      rw [hr'.2.1 (by simp [hrole])]
      exact hg.unintroduced hrole _ _
    | some role =>
      have htakes : e'.role.any (· ≠ .supervisor) = true := by
        rw [hrole] at hsup ⊢
        simpa using hsup
      refine hr'.2.2 htakes ?_ fun e₁ hrole₁ hput => ?_
      · rw [h.log]
        exact ⟨hg.1.1, hg.1.2.grow held⟩
      · rw [hstays.stamp, Server.stamp, h.log, h.produced] at hput
        rw [h.log, h.produced]
        exact hg.output (fun ha => absurd ha hsup) (fun _ _ => rfl) (by simp [hrole]) hrole₁ hput

theorem absorb_spec (s : Server τ) (bytes : Bytes) :
    (s.absorb P bytes).clients = s.clients ∧ (s.absorb P bytes).ids = s.ids ∧
    (s.absorb P bytes).accepted = s.accepted ∧ (s.absorb P bytes).log = s.log ∧
    (s.absorb P bytes).produced = s.produced ++ bytes := by
  unfold Server.absorb
  dsimp only
  split <;> exact ⟨rfl, rfl, rfl, rfl, rfl⟩

theorem Inv.behind (hs : s.Inv) (bytes held : Bytes) (warning : ResetWarning) :
    Behind s.log s.produced held bytes { s.absorb P bytes with
      log := (s.absorb P bytes).log ++ held, resetWarning := warning } := by
  obtain ⟨hc, hi, ha, hl, hp⟩ := absorb_spec (P := P) s bytes
  refine ⟨hi ▸ hs.nodup, fun c => ?_, fun c h => ?_, fun c e he => hs.good c e (hc ▸ he),
    congrArg (· ++ held) hl, hp⟩
  · show c ∈ (s.absorb P bytes).ids ↔ ((s.absorb P bytes).clients c).isSome = true
    rw [hi, hc]
    exact hs.known c
  · show c < (s.absorb P bytes).accepted
    rw [ha]
    exact hs.older c (hi ▸ h)

theorem Inv.onOutput (hs : s.Inv) (bytes : Bytes) (held : Held) (failed : Bool) :
    (s.onOutput P bytes held failed).Inv := by
  have hl := (absorb_spec (P := P) s bytes).2.2.2.1
  have hbehind := hs.behind (P := P) bytes (held.bytes bytes)
  have hsent : (broadcastOutput P { s.absorb P bytes with
      log := (s.absorb P bytes).log ++ held.bytes bytes } (s.absorb P bytes).log.length bytes
      held).Inv := by
    cases held with
    | chunk => exact hl ▸ (hbehind (s.absorb P bytes).resetWarning).chunk
    | other held => exact hl ▸ (hbehind (s.absorb P bytes).resetWarning).parts
  unfold Server.onOutput
  dsimp only
  split
  · exact (hbehind _).resyncAll
  · generalize (if failed = true then _ else _) = unlogged
    split
    · exact hsent
    · exact hsent.broadcastTo _ rfl

/-! ### The other events -/

theorem Inv.onExit (hs : s.Inv) (outcome : Supervisor.ExitOutcome) : (s.onExit P outcome).Inv := by
  unfold Server.onExit
  dsimp only
  refine Inv.broadcastTo ?_ _ rfl
  have hset : Server.Inv { s with childExited := true, exit := some outcome } :=
    hs.congr ⟨rfl, rfl, rfl, rfl⟩ rfl
  -- a supervisor takes the final screen or is resynced, and stays
  refine (foldl_steady (fun s c hc => ?_) _ _ fun c hc => introduced_of_chosen hc).inv hset
  rw [send_eq_tell hc]
  exact tell_steady (Or.inr (taken_snapshot P s)) hc

theorem Inv.foldl_dropClient : ∀ (cs : List ClientId) {s : Server τ}, s.Inv →
    (cs.foldl (fun s c => s.dropClient P c) s).Inv
  | [], _, hs => hs
  | c :: cs, _, hs => foldl_dropClient cs (hs.dropClient c)

def Inherits (s s' : Server τ) : Prop :=
  ∀ c e', s'.clients c = some e' → ∃ e, s.clients c = some e ∧ e.role = e'.role

theorem Inherits.trans (h : s.Inherits s') (h' : s'.Inherits s'') : s.Inherits s'' := by
  intro c e'' he''
  obtain ⟨e', he', hr'⟩ := h' c e'' he''
  obtain ⟨e, he, hr⟩ := h c e' he'
  exact ⟨e, he, hr.trans hr'⟩

theorem Steady.inherits (h : s.Steady s') : s.Inherits s' := by
  intro c e' he'
  have hrel := h.clients c
  rw [he'] at hrel
  generalize s.clients c = a at hrel
  cases hrel with
  | some hr => exact ⟨_, rfl, hr.1.symm⟩

theorem dropClient_inherits (c : ClientId) : s.Inherits (s.dropClient P c) := by
  have hdropped : s.Inherits { s with clients := Function.update s.clients c none,
                                      ids := s.ids.filter (· ≠ c) } := by
    intro d e he
    by_cases hd : d = c
    · subst hd
      simp at he
    · simp only [Function.update_of_ne hd] at he
      exact ⟨e, he, rfl⟩
  unfold Server.dropClient
  dsimp only
  set told := reportAttached P { s with clients := Function.update s.clients c none,
                                        ids := s.ids.filter (· ≠ c) } with htold
  have htells : s.Inherits told := hdropped.trans reportAttached_steady.inherits
  have hrest : told.Steady { told with resizes := told.resizes.filter (·.1 ≠ c) } :=
    steady_of_clients ⟨rfl, rfl, rfl, rfl⟩ rfl
  refine htells.trans (Steady.inherits (hrest.trans ?_))
  split
  · split
    · split
      · exact (applySize_steady _).trans (resyncWhere_steady _)
      · exact applySize_steady _
    · exact .refl _
  · exact .refl _

theorem foldl_dropClient_inherits : ∀ (cs : List ClientId) (s : Server τ),
    s.Inherits (cs.foldl (fun s c => s.dropClient P c) s)
  | [], _ => fun _ e he => ⟨e, he, rfl⟩
  | c :: cs, _ => (dropClient_inherits c).trans (foldl_dropClient_inherits cs _)

theorem Inv.introduce (hs : s.Inv) {e : Client} (he : s.clients c = some e)
    (hnone : e.role = none) (role : ClientRole) (attached : ℕ) :
    (Server.resync P { s.setClient c { e with role := some role } with
      reportedAttached := attached } c).Inv := by
  set named : Server τ := { s.setClient c { e with role := some role } with
    reportedAttached := attached } with hnamed
  have hnamedc : named.clients c = some { e with role := some role } := Function.update_self ..
  have hsound : Client.Sound named.log { e with role := some role } := by
    obtain ⟨⟨hstamped, htold⟩, -⟩ := hs.good c e he
    rw [hnone] at htold
    refine ⟨hstamped, ?_⟩
    cases role with
    | supervisor => exact chained_neutral htold
    | attach readOnly => trivial
  have htouch := resync_touches (s := named) (P := P) c
  have htouched := htouch.touched
  rw [hnamedc] at htouched
  refine ⟨htouch.stays.ids ▸ hs.nodup, fun d => ?_, fun d hd => ?_, fun d e' he' => ?_⟩
  · rw [htouch.stays.ids]
    by_cases hd : d = c
    · subst hd
      have hin : d ∈ named.ids := (hs.known d).mpr (by simp [he])
      generalize (named.resync P d).clients d = b at htouched
      cases htouched
      simp [hin]
    · rw [htouch.others d hd]
      show d ∈ s.ids ↔ (Function.update s.clients c _ d).isSome = true
      rw [Function.update_of_ne hd]
      exact hs.known d
  · rw [htouch.stays.accepted]
    exact hs.older d (htouch.stays.ids ▸ hd)
  · rw [htouch.stays.log, htouch.stays.produced]
    by_cases hd : d = c
    · subst hd
      rw [he'] at htouched
      cases htouched with
      | some hr => exact resync_good hsound (by simp) hr
    · rw [htouch.others d hd] at he'
      have hsame : named.clients d = s.clients d := Function.update_of_ne hd ..
      exact hs.good d e' (hsame ▸ he')

theorem Inv.onHello (hs : s.Inv) (hnew : ∀ e, s.clients c = some e → e.role = none)
    (role : ClientRole) : (s.onHello P c role).Inv := by
  unfold Server.onHello
  dsimp only
  set evicted := (if role = .supervisor then
    (({ s with supervised := true } : Server τ).chosen (· = .supervisor)).foldl
      (fun s c => s.dropClient P c) { s with supervised := true } else s) with hevicted
  have hinv : evicted.Inv ∧ s.Inherits evicted := by
    rw [hevicted]
    split
    · have hset : s.Steady { s with supervised := true } :=
        steady_of_clients ⟨rfl, rfl, rfl, rfl⟩ rfl
      exact ⟨Inv.foldl_dropClient _ (hset.inv hs),
        hset.inherits.trans (foldl_dropClient_inherits _ _)⟩
    · exact ⟨hs, (Steady.refl s).inherits⟩
  cases he : evicted.clients c with
  | none => exact hinv.1
  | some e =>
    obtain ⟨e₀, he₀, hrole⟩ := hinv.2 c e he
    have hnone : e.role = none := hrole ▸ hnew e₀ he₀
    dsimp only
    refine reportAttached_steady.inv ?_
    split
    · exact hinv.1.introduce he hnone role _
    · exact hinv.1.introduce he hnone role evicted.reportedAttached

theorem Inv.onConnected (hs : s.Inv) (cloned : Bool) (races : List (List (List Move))) :
    (s.onConnected s.accepted cloned races).Inv := by
  have hnew : s.accepted ∉ s.ids := fun h => Nat.lt_irrefl _ (hs.older _ h)
  unfold Server.onConnected
  dsimp only
  split
  · refine ⟨?_, fun c => ?_, fun c hc => ?_, fun c e he => ?_⟩
    · refine List.nodup_append.mpr ⟨hs.nodup, by simp, fun a ha b hb => ?_⟩
      rw [List.mem_singleton.mp hb]
      exact fun h => hnew (h ▸ ha)
    · by_cases hc : c = s.accepted
      · subst hc
        simp
      · simp [hc, hs.known c]
    · show c < s.accepted + 1
      rcases List.mem_append.mp hc with hc | hc
      · exact Nat.lt_succ_of_lt (hs.older c hc)
      · rw [List.mem_singleton.mp hc]
        exact Nat.lt_succ_self _
    · by_cases hc : c = s.accepted
      · subst hc
        simp only [Function.update_self, Option.some.injEq] at he
        subst he
        exact ⟨⟨(fun _ hp => nomatch hp), (fun _ hp => nomatch hp)⟩, trivial⟩
      · simp only [Function.update_of_ne hc] at he
        exact hs.good c e he
  · exact ⟨hs.nodup, hs.known, fun c hc => Nat.lt_succ_of_lt (hs.older c hc), hs.good⟩

def asked (s : Server τ) (c : ClientId) (size : PtySize) : Server τ :=
  { s with resizes := s.resizes.filter (·.1 ≠ c) ++ [(c, size)] }

/-- What a message does, by what it is and the role of the client it comes from. -/
theorem onMessage_cases {Q : Server τ → Prop} {e : Client} {m : ClientMessage}
    (he : s.clients c = some e)
    (hello : e.role = none → ∀ role, m = .hello role → Q (s.onHello P c role))
    (rejected : (∀ size, m = .resize size → e.role.any ClientRole.writable = false) →
      ∀ reason, Q (s.reject P c reason))
    (input : ∀ bytes, m = .input bytes → e.role.any ClientRole.writable = true →
      Q (s.pushInput bytes).1 ∧ Q ((s.pushInput bytes).1.reject P c .inputBacklogged))
    (resize : ∀ size, m = .resize size → e.role.any ClientRole.writable = true →
      (((s.asked c size).applySize P size).2 = some true →
        Q (((s.asked c size).applySize P size).1.resyncAttached P)) ∧
      (((s.asked c size).applySize P size).2 = some false → Q ((s.asked c size).applySize P size).1) ∧
      (((s.asked c size).applySize P size).2 = none →
        Q (((s.asked c size).applySize P size).1.reject P c .childUnavailable)))
    (control : ∀ control, m = .control control → e.role = some .supervisor →
      Q (s.runControl control).1 ∧ Q ((s.runControl control).1.reject P c .childUnavailable))
    (collect : m = .collectExit → e.role = some .supervisor → s.exit.isSome = true →
      Q { s with finished := true }) : Q (s.onMessage P c m) := by
  unfold Server.onMessage
  rw [he]
  dsimp only
  cases hrole : e.role with
  | none =>
    cases m with
    | hello role => exact hello hrole role rfl
    | _ => exact rejected (fun _ _ => by simp [hrole]) _
  | some role =>
    cases m with
    | hello _ => exact rejected (fun _ h => nomatch h) _
    | input bytes =>
      dsimp only
      split
      · exact rejected (fun _ h => nomatch h) _
      · next hw =>
        obtain ⟨htook, hfull⟩ := input bytes rfl (by simpa [hrole] using hw)
        split
        · exact htook
        · exact hfull
    | resize size =>
      dsimp only
      split
      · next hw => exact rejected (fun _ _ => by simpa [hrole] using hw) _
      · next hw =>
        obtain ⟨hchanged, hsame, hrefused⟩ := resize size rfl (by simpa [hrole] using hw)
        have hasked : ({ s with resizes := s.resizes.filter (·.1 ≠ c) ++ [(c, size)] } : Server τ) =
          s.asked c size := rfl
        rw [hasked]
        split
        · next h => simpa [h] using hchanged
        · next h => simpa [h] using hsame
        · next h => simpa [h] using hrefused
    | control request =>
      dsimp only
      split
      · exact rejected (fun _ h => nomatch h) _
      · next hsupervisor =>
        obtain ⟨hdone, hrefused⟩ := control request rfl
          (by rw [hrole, not_not.1 hsupervisor])
        split
        · exact hdone
        · exact hrefused
    | collectExit =>
      dsimp only
      split
      · exact rejected (fun _ h => nomatch h) _
      · next hsupervisor =>
        split
        · next hexit => exact collect rfl (by rw [hrole, not_not.1 hsupervisor]) hexit
        · exact rejected (fun _ h => nomatch h) _

theorem Inv.onMessage (hs : s.Inv) (c : ClientId) (m : ClientMessage) : (s.onMessage P c m).Inv := by
  have hcalls : ∀ call, (s.call call).1.Inv := fun _ => hs.congr ⟨rfl, rfl, rfl, rfl⟩ rfl
  have hcontrol : ∀ control, (s.runControl control).1.Inv := by
    intro control
    cases control with
    | pause => exact hcalls _
    | resume => exact hcalls _
    | kill => exact hcalls _
    | terminate signal grace =>
      unfold Server.runControl
      dsimp only
      split
      · exact hs.congr ⟨rfl, rfl, rfl, rfl⟩ rfl
      · exact hcalls _
  cases he : s.clients c with
  | none =>
    unfold Server.onMessage
    rw [he]
    exact hs
  | some e =>
    refine onMessage_cases he (fun hrole role _ => ?_) (fun _ _ => hs.reject ..)
      (fun bytes _ _ => ?_) (fun size _ _ => ?_)
      (fun control _ _ => ⟨hcontrol control, (hcontrol control).reject ..⟩)
      fun _ _ _ => hs.congr ⟨rfl, rfl, rfl, rfl⟩ rfl
    · refine hs.onHello (fun e' he' => ?_) role
      rw [he] at he'
      rwa [← Option.some.inj he']
    · have hpushed : (s.pushInput bytes).1.Inv := hs.congr ⟨rfl, rfl, rfl, rfl⟩ rfl
      exact ⟨hpushed, hpushed.reject ..⟩
    · have hasked : (s.asked c size).Inv := hs.congr ⟨rfl, rfl, rfl, rfl⟩ rfl
      have hsized := (applySize_steady (P := P) size).inv hasked
      exact ⟨fun _ => (resyncWhere_steady _).inv hsized, fun _ => hsized, fun _ => hsized.reject ..⟩

/-- **One step.** -/
theorem Inv.step (hs : s.Inv) {e : HolderEvent} (he : s.Enabled e) : (s.step P e).Inv := by
  cases e with
  | output bytes held failed => exact hs.onOutput bytes held failed
  | exited outcome => exact hs.onExit outcome
  | graceElapsed =>
    unfold Server.step
    dsimp only
    split <;> exact hs.congr ⟨rfl, rfl, rfl, rfl⟩ rfl
  | supervisorDeadline =>
    unfold Server.step
    dsimp only
    split
    · exact hs.congr ⟨rfl, rfl, rfl, rfl⟩ rfl
    · split <;> exact hs.congr ⟨rfl, rfl, rfl, rfl⟩ rfl
  | connected c cloned races =>
    obtain rfl : c = s.accepted := he.2
    exact hs.onConnected cloned races
  | message c m => exact hs.onMessage c m
  | disconnected c => exact hs.dropClient c
  | writer c move =>
    simp only [Server.step]
    cases hc : s.clients c with
    | none => exact hs
    | some entry =>
      have htouch : Touches c (fun e e' => e'.role = e.role ∧ e'.put = e.put) s
          (s.setClient c { entry with outbox := entry.outbox.move move }) := by
        refine ⟨⟨rfl, rfl, rfl, rfl⟩, fun d hd => Function.update_of_ne hd .., ?_⟩
        rw [hc]
        simp only [setClient, Function.update_self]
        exact .some ⟨rfl, rfl⟩
      exact (htouch.steady fun _ _ _ hr => ⟨hr.1, fun hg => hg.congr hr.1 hr.2⟩).inv hs
  | inputWriter move => exact hs.congr ⟨rfl, rfl, rfl, rfl⟩ rfl
  | reorder ids =>
    have hperm : ids.Perm s.ids := he.2
    exact ⟨hperm.nodup_iff.mpr hs.nodup, fun c => hperm.mem_iff.trans (hs.known c),
      fun c hc => hs.older c (hperm.mem_iff.mp hc), hs.good⟩

theorem new_inv (terminal : τ) (size : PtySize) (pid : ℕ) (log : Bytes) (runStart : ℕ)
    (outcomes : List Bool) (races : List (List (List Move))) :
    (new terminal size pid log runStart outcomes races).Inv :=
  ⟨List.nodup_nil, fun c => by simp [new], (fun _ hc => nomatch hc), fun _ _ he => nomatch he⟩

/-- **What the holder queues tiles the stream.**  In every state a holder reaches, for each client it
serves: every snapshot put in its outbox says where the log ended then; a supervisor's output frames
between one snapshot and the next are contiguous from the first one's log end and carry the log's
bytes; and an attached terminal's after its latest snapshot carry exactly what the child produced
since that was taken. -/
theorem queued_frames_tile (P : Platform τ) {terminal : τ} {size : PtySize} {pid : ℕ} {log : Bytes}
    {runStart : ℕ} {outcomes : List Bool} {races : List (List (List Move))} {s : Server τ}
    (hr : (machine P).Reaches (new terminal size pid log runStart outcomes races) s)
    {c : ClientId} {e : Client} (he : s.clients c = some e) :
    (∀ p ∈ e.put, ∀ repaint size pid attached runStart logEnd,
      p.message = .snapshot repaint size pid attached runStart logEnd → logEnd = p.logged) ∧
    (e.role = some .supervisor → ∀ before snap between after repaint size pid attached runStart logEnd,
      e.put = before ++ snap :: (between ++ after) →
      snap.message = .snapshot repaint size pid attached runStart logEnd →
      (∀ p ∈ between, p.message.isSnapshot = false) → Contiguous s.log logEnd (outputs between)) ∧
    (∀ readOnly, e.role = some (.attach readOnly) → ∃ before snap after,
      e.put = before ++ snap :: after ∧ snap.message.isSnapshot = true ∧
      (∀ p ∈ after, p.message.isSnapshot = false) ∧
      ((outputs after).map Prod.snd).flatten = s.produced.drop snap.produced) := by
  have hinv : s.Inv := hr.invariant (fun _ _ hs => hs.step) (new_inv ..)
  obtain ⟨⟨hstamped, htold⟩, hup⟩ := hinv.good c e he
  refine ⟨hstamped, ?_, ?_⟩
  · intro hrole before snap between after repaint size' pid' attached runStart' logEnd hput hsnap hno
    rw [hrole, hput] at htold
    have hchain := (chained_append.mp htold).2.2
    have hreach : snap.reach (reached none before) = some logEnd := by
      simp [Put.reach, hsnap]
    rw [hreach] at hchain
    exact (chained_append.mp hchain).1.contiguous hno
  · intro readOnly hrole
    rw [hrole] at hup
    obtain ⟨n, -, hdrawn⟩ := hup
    obtain ⟨before, snap, after, hput, hsnap, hno, rfl, hout⟩ := exists_of_drawn hdrawn
    exact ⟨before, snap, after, hput, hsnap, hno, hout⟩

/-- A terminal that logs every byte and answers nothing. -/
def plain : Platform Unit where
  process := fun _ bytes => ⟨(), false, [], bytes⟩
  setSize := fun _ _ => ()
  repaint := fun _ => []
  jsonLen := fun _ => 0

/-- A supervisor and an attached terminal say hello; two bytes are logged whole, then the disk is
full and a third is not. -/
def fullDiskRun : List HolderEvent :=
  [.connected 0 true [], .message 0 (.hello .supervisor), .connected 1 true [],
    .message 1 (.hello (.attach true)), .output [104, 105] .chunk false,
    .output [10] (.other []) true]

theorem queued_frames_tile_full_disk :
    let s := (machine plain).play (new () ⟨24, 80⟩ 7 [] 0 [] []) fullDiskRun
    Contiguous s.log 0 [(0, [104, 105])] ∧
    ∃ e before snap after, s.clients 1 = some e ∧ e.put = before ++ snap :: after ∧
      snap.message.isSnapshot = true ∧ snap.produced = 0 ∧
      ((outputs after).map Prod.snd).flatten = [104, 105, 10] := by
  intro s
  have hr : (machine plain).Reaches (new () ⟨24, 80⟩ 7 [] 0 [] []) s :=
    Machine.reaches_play (by decide)
  have hput : (s.clients 0).map Client.put = some [⟨.snapshot [] ⟨24, 80⟩ 7 0 0 0, 0, 0⟩,
      ⟨.output 0 [104, 105], 2, 2⟩, ⟨.unlogged [10], 3, 2⟩] := by decide
  obtain ⟨e₀, he₀, hput₀⟩ := Option.map_eq_some_iff.mp hput
  have hrole₀ : (s.clients 0).map Client.role = some (some .supervisor) := by decide
  have hrole₁ : (s.clients 1).map Client.role = some (some (.attach true)) := by decide
  obtain ⟨e₁, he₁, hrole₁⟩ := Option.map_eq_some_iff.mp hrole₁
  have hstamps : ∀ e ∈ s.clients 1, ∀ p ∈ e.put, p.message.isSnapshot = true → p.produced = 0 := by
    decide
  refine ⟨?_, ?_⟩
  · obtain ⟨-, hcontiguous, -⟩ := queued_frames_tile plain hr he₀
    refine hcontiguous (by simpa [he₀] using hrole₀) [] _ _ [] _ _ _ _ _ _
      (by rw [hput₀, List.append_nil]; rfl) rfl ?_
    decide
  · obtain ⟨-, -, hattached⟩ := queued_frames_tile plain hr he₁
    obtain ⟨before, snap, after, hput₁, hsnap, -, hout⟩ := hattached true hrole₁
    have hzero : snap.produced = 0 := hstamps e₁ he₁ snap (by simp [hput₁]) hsnap
    refine ⟨e₁, before, snap, after, he₁, hput₁, hsnap, hzero, ?_⟩
    rw [hout, hzero]
    decide

end Server

end Muster.Holder
