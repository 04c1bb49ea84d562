import Muster.Holder.Frames
import Muster.Holder.Pointwise

/-!
# Rests — between two events the holder has at most one supervisor, and it knows the count

Inside an event the reported count may lag behind the clients; every handler that changes who is
connected in which role reports before it ends.
-/

namespace Muster.Holder

open Muster.Log
open Muster.Supervisor (ExitOutcome)

namespace Server

variable {τ : Type} {P : Platform τ} {s s' s'' : Server τ} {f : ClientId → Client → Client}
  {c : ClientId}

/-- Settled, and the count reported is the count there is. -/
structure Rests (s : Server τ) : Prop extends Settled s where
  reported : s.reportedAttached = s.writableAttached

/-- What is said is about the clients, the warning owed and the count reported. -/
theorem Rests.of_eq (hs : s.Rests)
    (h : (s'.ids, s'.clients, s'.resetWarning, s'.reportedAttached) =
      (s.ids, s.clients, s.resetWarning, s.reportedAttached)) : s'.Rests := by
  simp only [Prod.mk.injEq] at h
  obtain ⟨hids, hclients, hwarning, hreported⟩ := h
  refine ⟨⟨?_, ?_, ?_, ?_⟩, ?_⟩
  · exact hids ▸ hs.nodup
  · simpa only [hids, hclients] using hs.known
  · simpa only [roleOf, hclients] using hs.single
  · simpa only [roleOf, hclients, hwarning] using hs.calm
  · simpa only [writableAttached, chosen, roleOf, hids, hclients, hreported] using hs.reported

theorem writableAttached_mapAt
    (hf : ∀ c e, (f c e).role = e.role) : (s.mapAt f).writableAttached = s.writableAttached := by
  unfold writableAttached
  rw [chosen_mapAt hf]

theorem Rests.mapAt (hs : s.Rests) (hf : ∀ c e, (f c e).role = e.role) : (s.mapAt f).Rests :=
  ⟨hs.toSettled.mapAt hf, hs.reported.trans (writableAttached_mapAt hf).symm⟩

/-! ### The parts of a drop -/

def remove (s : Server τ) (c : ClientId) : Server τ :=
  { s with clients := Function.update s.clients c none, ids := s.ids.filter (· ≠ c) }

/-- The rest of a drop: the client's size forgotten, and the fallback when it was in force. -/
def fallback (P : Platform τ) (s : Server τ) (c : ClientId) : Server τ :=
  let rest : Server τ := { s with resizes := s.resizes.filter (·.1 ≠ c) }
  match rest.resizes.getLast? with
  | some (_, size) =>
    if s.resizes.getLast?.map Prod.fst = some c then
      let (sized, changed) := rest.applySize P size
      if changed = some true then sized.resyncAttached P else sized
    else rest
  | none => rest

theorem dropClient_eq (s : Server τ) (c : ClientId) :
    s.dropClient P c = ((s.remove c).reportAttached P).fallback P c := rfl

theorem Settled.remove (hs : s.Settled) (c : ClientId) : (s.remove c).Settled := by
  have hroles : ∀ d r, (s.remove c).roleOf d = some r → s.roleOf d = some r := by
    intro d r hd
    by_cases hdc : d = c
    · simp [roleOf, Server.remove, hdc] at hd
    · simpa [roleOf, Server.remove, hdc] using hd
  refine ⟨hs.nodup.filter _, fun d => ?_, fun d d' hd hd' => ?_, fun hpending d hd => ?_⟩
  · by_cases hdc : d = c <;> simp [Server.remove, hdc, hs.known]
  · exact hs.single d d' (hroles d _ hd) (hroles d' _ hd')
  · exact hs.calm hpending d (hroles d _ hd)

theorem reportAttached_self (h : s.reportedAttached = s.writableAttached) :
    s.reportAttached P = s := by
  simp [Server.reportAttached, h]

theorem Settled.reportAttached (hs : s.Settled) : (s.reportAttached P).Rests := by
  rw [hs.reportAttached_eq]
  split
  · next heq => exact ⟨hs, heq.symm⟩
  · have hcounted : ({ s with reportedAttached := s.writableAttached } : Server τ).Rests :=
      ⟨⟨hs.nodup, hs.known, hs.single, hs.calm⟩, rfl⟩
    refine hcounted.mapAt fun _ e => ?_
    split
    · exact Scene.pushed_role
    · rfl

theorem applySize_frame (P : Platform τ) (s : Server τ) (z : PtySize) :
    ∃ size terminal calls outcomes, (s.applySize P z).1 =
      { s with size := size, terminal := terminal, calls := calls, outcomes := outcomes } := by
  unfold Server.applySize Server.call
  dsimp only
  split
  · exact ⟨_, _, _, _, rfl⟩
  · split <;> exact ⟨_, _, _, _, rfl⟩

theorem Rests.applySize (hs : s.Rests) (z : PtySize) : (s.applySize P z).1.Rests := by
  obtain ⟨size, terminal, calls, outcomes, heq⟩ := applySize_frame P s z
  rw [heq]
  exact hs.of_eq rfl

theorem Rests.resyncWhere (hs : s.Rests) (wanted : ClientRole → Bool) :
    (s.resyncWhere P wanted).Rests := by
  rw [hs.resyncWhere_eq]
  refine hs.mapAt fun _ e => ?_
  split
  · exact Scene.resynced_role
  · rfl

theorem Rests.fallback (hs : s.Rests) (c : ClientId) : (s.fallback P c).Rests := by
  have hrest : ({ s with resizes := s.resizes.filter (·.1 ≠ c) } : Server τ).Rests :=
    hs.of_eq rfl
  unfold Server.fallback
  dsimp only
  split
  · split
    · split
      · exact (hrest.applySize _).resyncWhere _
      · exact hrest.applySize _
    · exact hrest
  · exact hrest

theorem Settled.dropClient (hs : s.Settled) (c : ClientId) : (s.dropClient P c).Rests := by
  rw [dropClient_eq]
  exact (hs.remove c).reportAttached.fallback c

/-! ### Who is left after a drop -/

theorem Settled.roleOf_reportAttached (hs : s.Settled) :
    (s.reportAttached P).roleOf = s.roleOf := by
  rw [hs.reportAttached_eq]
  split
  · rfl
  · refine roleOf_mapAt fun _ e => ?_
    split
    · exact Scene.pushed_role
    · rfl

theorem Rests.roleOf_resyncWhere (hs : s.Rests) (wanted : ClientRole → Bool) :
    (s.resyncWhere P wanted).roleOf = s.roleOf := by
  rw [hs.resyncWhere_eq]
  refine roleOf_mapAt fun _ e => ?_
  split
  · exact Scene.resynced_role
  · rfl

theorem roleOf_applySize (z : PtySize) : (s.applySize P z).1.roleOf = s.roleOf := by
  obtain ⟨size, terminal, calls, outcomes, heq⟩ := applySize_frame P s z
  rw [heq]
  rfl

theorem Rests.roleOf_fallback (hs : s.Rests) (c : ClientId) :
    (s.fallback P c).roleOf = s.roleOf := by
  have hrest : ({ s with resizes := s.resizes.filter (·.1 ≠ c) } : Server τ).Rests :=
    hs.of_eq rfl
  unfold Server.fallback
  dsimp only
  split
  · split
    · split
      · exact ((hrest.applySize _).roleOf_resyncWhere _).trans (roleOf_applySize _)
      · exact roleOf_applySize _
    · rfl
  · rfl

theorem Settled.roleOf_dropClient (hs : s.Settled) (c : ClientId) :
    (s.dropClient P c).roleOf = Function.update s.roleOf c none := by
  rw [dropClient_eq, (hs.remove c).reportAttached.roleOf_fallback, (hs.remove c).roleOf_reportAttached]
  funext d
  by_cases hd : d = c <;> simp [roleOf, Server.remove, hd]

/-! ### Messages -/

theorem Rests.tell (hs : s.Rests) (c : ClientId) (m : HolderMessage) : (s.tell P c m).Rests := by
  rw [hs.tell_eq]
  exact hs.mapAt (pushAt_role _ m c)

/-- A message to a client that has not said hello is taken, or the client is dropped. -/
theorem send_unintroduced {e : Client} (he : s.clients c = some e)
    (hrole : e.role = none) (m : HolderMessage) : s.send P c m =
      if Scene.took P m e then
        s.mapAt fun d e => if d = c then (s.scene P).offered P m e else e
      else (s.mapAt fun d e => if d = c then (s.scene P).offered P m e else e).dropClient P c := by
  have hnone : (s.mapAt fun d e => if d = c then (s.scene P).offered P m e else e).roleOf c =
      none := by
    simp [roleOf, Server.mapAt, he, hrole]
  unfold Server.send
  rw [offer_eq he]
  dsimp only
  unfold Server.onStalled
  rw [hnone]

theorem Rests.send (hs : s.Rests) (c : ClientId) (m : HolderMessage) : (s.send P c m).Rests := by
  by_cases hintro : s.Introduced c
  · rw [send_eq_tell hintro]
    exact hs.tell c m
  · unfold Introduced at hintro
    push Not at hintro
    obtain ⟨e, he, hrole⟩ := hintro
    have hoffered : (s.mapAt fun d e => if d = c then (s.scene P).offered P m e else e).Rests :=
      hs.mapAt fun d e => by split <;> rfl
    rw [send_unintroduced he hrole]
    split
    · exact hoffered
    · exact hoffered.dropClient c

theorem Rests.broadcastTo (hs : s.Rests) (takes : ClientRole → Bool) (m : HolderMessage) :
    (s.broadcastTo P takes m).Rests := by
  rw [hs.broadcastTo_eq]
  refine hs.mapAt fun _ e => ?_
  split
  · exact Scene.pushed_role
  · rfl

/-! ### The child's output and exit -/

theorem Settled.onExit_eq (hs : s.Settled) (outcome : ExitOutcome) :
    s.onExit P outcome = ({ s with childExited := true, exit := some outcome } : Server τ).mapAt
      fun _ => (({ s with childExited := true, exit := some outcome } : Server τ).scene P).left P
        outcome := by
  unfold Server.onExit
  dsimp only
  set gone : Server τ := { s with childExited := true, exit := some outcome } with hgone
  have hgone : gone.Settled := ⟨hs.nodup, hs.known, hs.single, hs.calm⟩
  have hintro : ∀ c ∈ gone.chosen (· = .supervisor), gone.Introduced c := fun c hc =>
    introduced_of_chosen hc
  have hroles : ∀ (d : ClientId) (e : Client),
      (if d ∈ gone.chosen (· = .supervisor) then
        (gone.scene P).pushed P (gone.scene P).snapshot e else e).role = e.role := by
    intro d e
    split
    · exact Scene.pushed_role
    · rfl
  have hshown : (gone.chosen (· = .supervisor)).foldl (fun s c => s.send P c (s.snapshot P)) gone =
      gone.mapAt fun d e => if d ∈ gone.chosen (· = .supervisor) then
        (gone.scene P).pushed P (gone.scene P).snapshot e else e :=
    (Settled.sends_eq Scene.snapshot _ hgone hintro).trans
      (Settled.tells_eq Scene.snapshot _ hgone (hgone.chosen_nodup _))
  rw [hshown]
  unfold Server.broadcast
  rw [(hgone.mapAt hroles).broadcastTo_eq, scene_mapAt hroles, mapAt_mapAt]
  refine mapAt_congr fun c e he => ?_
  rw [hroles]
  simp only [hgone.mem_supervisors he, Scene.left]
  cases e.role <;> rfl

theorem Rests.onExit (hs : s.Rests) (outcome : ExitOutcome) : (s.onExit P outcome).Rests := by
  have hgone : ({ s with childExited := true, exit := some outcome } : Server τ).Rests :=
    hs.of_eq rfl
  rw [hs.onExit_eq]
  exact hgone.mapAt fun _ _ => Scene.left_role

theorem roleOf_of_owesAt (hc : s.owesAt P c = true) : s.roleOf c = some .supervisor := by
  cases he : s.clients c with
  | none => simp [Server.owesAt, he] at hc
  | some e =>
    simp only [Server.owesAt, he, Option.any_some, Scene.owes, Bool.and_eq_true,
      decide_eq_true_eq] at hc
    simp [roleOf, he, hc.1]

theorem resyncAll_eq (hnodup : s.ids.Nodup) (hknown : ∀ c, c ∈ s.ids ↔ (s.clients c).isSome = true)
    (hsingle : ∀ c d, s.roleOf c = some .supervisor → s.roleOf d = some .supervisor → c = d) :
    s.resyncAll P = { s.mapAt (fun _ e => if e.role.isSome then (s.scene P).resynced P e else e) with
      resetWarning :=
        if (s.chosen fun _ => true).any (s.owesAt P) then .sent else s.resetWarning } := by
  have hfold := foldl_resync_eq (P := P) (s.chosen fun _ => true) s (hnodup.filter _)
    (fun c => isSome_of_chosen hknown)
    fun c _ d _ hc hd => hsingle c d (roleOf_of_owesAt hc) (roleOf_of_owesAt hd)
  have hmap : (s.mapAt fun d e =>
        if d ∈ s.chosen (fun _ => true) then (s.scene P).resynced P e else e) =
      s.mapAt fun _ e => if e.role.isSome then (s.scene P).resynced P e else e :=
    mapAt_congr fun c e he => by
      simp only [mem_chosen hknown he]
      cases e.role <;> rfl
  unfold Server.resyncAll Server.resyncWhere
  rw [hfold, hmap]

theorem Rests.resyncAll (hs : s.Rests) (warning : ResetWarning) :
    (resyncAll P { s with resetWarning := warning }).Rests := by
  set reset : Server τ := { s with resetWarning := warning } with hreset
  have hroles : ∀ (d : ClientId) (e : Client),
      (if e.role.isSome then (reset.scene P).resynced P e else e).role = e.role := by
    intro d e
    split
    · exact Scene.resynced_role
    · rfl
  rw [resyncAll_eq (s := reset) hs.nodup hs.known hs.single]
  have hmapped := hs.mapAt (f := fun _ e =>
    if e.role.isSome then (reset.scene P).resynced P e else e) hroles
  refine ⟨⟨hmapped.nodup, hmapped.known, hmapped.single, fun hpending c hc => ?_⟩, hmapped.reported⟩
  -- a warning still pending was owed to nobody, so there is no supervisor
  have hsupervisor : s.roleOf c = some .supervisor := by
    have hsame := congrFun (roleOf_mapAt (s := s) hroles) c
    exact hsame.symm.trans hc
  obtain ⟨e, he, hrole⟩ := Option.bind_eq_some_iff.1 hsupervisor
  split at hpending
  · cases hpending
  · next hnone =>
    refine hnone (List.any_eq_true.2 ⟨c, ?_, ?_⟩)
    · rw [mem_chosen (s := reset) hs.known he, hrole]
      rfl
    · show (s.clients c).any (reset.scene P).owes = true
      have hwarning : warning = .pending := hpending
      simp [he, Scene.owes, hrole, scene, hreset, hwarning]

theorem Rests.broadcastOutput (hs : s.Rests) (start : ℕ) (bytes : Bytes) (held : Held) :
    (s.broadcastOutput P start bytes held).Rests := by
  cases held with
  | chunk => exact hs.broadcastTo _ _
  | other held =>
    unfold Server.broadcastOutput
    dsimp only
    refine Rests.broadcastTo ?_ _ _
    split
    · exact hs
    · exact hs.broadcastTo _ _

theorem absorb_frame (P : Platform τ) (s : Server τ) (bytes : Bytes) :
    ∃ input, s.absorb P bytes = { s with
      terminal := (P.process s.terminal bytes).terminal
      produced := s.produced ++ bytes
      input := input } := by
  unfold Server.absorb
  dsimp only
  split
  · exact ⟨_, rfl⟩
  · exact ⟨_, rfl⟩

def logOutput (P : Platform τ) (s : Server τ) (bytes : Bytes) (held : Held) : Server τ :=
  { s.absorb P bytes with log := (s.absorb P bytes).log ++ held.bytes bytes }

/-- A chunk resets everyone's screen, or goes out; what the log could not hold goes out apart. -/
theorem onOutput_cases {Q : Server τ → Prop} {bytes : Bytes} {held : Held} {failed : Bool}
    (hreset : (P.process s.terminal bytes).reset = true → ∀ warning,
      Q (resyncAll P { s.logOutput P bytes held with resetWarning := warning }))
    (hsent : Q ((s.logOutput P bytes held).broadcastOutput P (s.absorb P bytes).log.length bytes held))
    (happart : ∀ unlogged,
      Q (((s.logOutput P bytes held).broadcastOutput P (s.absorb P bytes).log.length bytes
        held).broadcastTo P (· = .supervisor) (.unlogged unlogged))) :
    Q (s.onOutput P bytes held failed) := by
  unfold Server.onOutput
  dsimp only
  split
  · next hmade => exact hreset hmade _
  · generalize (if failed = true then _ else _ : Bytes) = unlogged
    split
    · exact hsent
    · exact happart unlogged

theorem Rests.logOutput (hs : s.Rests) (bytes : Bytes) (held : Held) :
    (s.logOutput P bytes held).Rests := by
  obtain ⟨input, habsorb⟩ := absorb_frame P s bytes
  unfold Server.logOutput
  rw [habsorb]
  exact hs.of_eq rfl

theorem Rests.onOutput (hs : s.Rests) (bytes : Bytes) (held : Held) (failed : Bool) :
    (s.onOutput P bytes held failed).Rests :=
  have hlogged := hs.logOutput (P := P) bytes held
  onOutput_cases (fun _ warning => hlogged.resyncAll warning) (hlogged.broadcastOutput _ bytes held)
    fun _ => (hlogged.broadcastOutput _ bytes held).broadcastTo _ _

/-! ### Hello -/

def evict (P : Platform τ) (s : Server τ) : Server τ :=
  let supervised : Server τ := { s with supervised := true }
  (supervised.chosen (· = .supervisor)).foldl (fun s c => s.dropClient P c) supervised

/-- A client's role fixed, the client resynced and the count reported. -/
def introduce (P : Platform τ) (s : Server τ) (c : ClientId) (role : ClientRole) : Server τ :=
  match s.clients c with
  | none => s
  | some entry =>
    let s := s.setClient c { entry with role := some role }
    let s := if role = .supervisor then { s with reportedAttached := s.writableAttached } else s
    (s.resync P c).reportAttached P

theorem onHello_eq (s : Server τ) (c : ClientId) (role : ClientRole) :
    s.onHello P c role = (if role = .supervisor then s.evict P else s).introduce P c role := rfl

theorem Settled.supervisors (hs : s.Settled) : s.chosen (· = .supervisor) = [] ∨
    ∃ c, s.roleOf c = some .supervisor ∧ s.chosen (· = .supervisor) = [c] := by
  have hrole : ∀ c ∈ s.chosen (· = .supervisor), s.roleOf c = some .supervisor := by
    intro c hc
    have hany := (List.mem_filter.1 hc).2
    cases hrole : s.roleOf c with
    | none => simp [hrole] at hany
    | some role => simpa [hrole] using hany
  have hnodup := hs.chosen_nodup (· = .supervisor)
  match hcs : s.chosen (· = .supervisor) with
  | [] => exact .inl rfl
  | [c] => exact .inr ⟨c, hrole c (by simp [hcs]), rfl⟩
  | c :: d :: rest =>
    have heq := hs.single c d (hrole c (by simp [hcs])) (hrole d (by simp [hcs]))
    rw [hcs] at hnodup
    simp [heq] at hnodup

theorem Rests.evict (hs : s.Rests) :
    (s.evict P).Rests ∧ ∀ c, (s.evict P).roleOf c ≠ some .supervisor := by
  have hmarked : ({ s with supervised := true } : Server τ).Rests :=
    hs.of_eq rfl
  unfold Server.evict
  dsimp only
  rcases hmarked.supervisors with hnone | ⟨d, hd, hone⟩
  · rw [hnone]
    refine ⟨hmarked, fun c hc => ?_⟩
    obtain ⟨e, he, hrole⟩ := Option.bind_eq_some_iff.1 hc
    have hmem := (hmarked.mem_supervisors he).2 hrole
    rw [hnone] at hmem
    cases hmem
  · rw [hone]
    refine ⟨hmarked.dropClient d, fun c hc => ?_⟩
    rw [List.foldl_cons, List.foldl_nil, hmarked.roleOf_dropClient] at hc
    by_cases hcd : c = d
    · simp [hcd] at hc
    · rw [Function.update_of_ne hcd] at hc
      exact hcd (hmarked.single c d hc hd)

section

variable {c : ClientId} {e : Client}

theorem roleOf_named (role : ClientRole) :
    (s.setClient c { e with role := some role }).roleOf = Function.update s.roleOf c (some role) := by
  funext d
  by_cases hd : d = c <;> simp [roleOf, setClient, hd]

variable (he : s.clients c = some e)
include he

theorem Settled.known_named (hs : s.Settled) (role : ClientRole) (d : ClientId) :
    d ∈ s.ids ↔ ((s.setClient c { e with role := some role }).clients d).isSome = true := by
  rw [hs.known]
  by_cases hd : d = c <;> simp [setClient, hd, he]

theorem Settled.named (hs : s.Settled) (readOnly : Bool) :
    (s.setClient c { e with role := some (.attach readOnly) }).Settled := by
  have hroles : ∀ d, (s.setClient c { e with role := some (.attach readOnly) }).roleOf d =
      some .supervisor → s.roleOf d = some .supervisor := by
    intro d hd
    rw [roleOf_named] at hd
    by_cases hdc : d = c
    · simp [hdc] at hd
    · simpa [hdc] using hd
  exact ⟨hs.nodup, hs.known_named he _,
    fun d d' hd hd' => hs.single d d' (hroles d hd) (hroles d' hd'),
    fun hpending d hd => hs.calm hpending d (hroles d hd)⟩

theorem Settled.introduce_attach (hs : s.Settled) (readOnly : Bool) :
    s.introduce P c (.attach readOnly) =
      ((s.setClient c { e with role := some (.attach readOnly) }).mapAt fun d e' => if d = c then
        ((s.setClient c { e with role := some (.attach readOnly) }).scene P).resynced P e'
        else e').reportAttached P := by
  unfold Server.introduce
  rw [he]
  dsimp only
  rw [if_neg (by simp), (hs.named he readOnly).resync_eq]

variable (hnone : e.role = none)
include hnone

theorem writableAttached_named :
    (s.setClient c { e with role := some .supervisor }).writableAttached = s.writableAttached := by
  have hchosen : (s.setClient c { e with role := some .supervisor }).chosen (· = .attach false) =
      s.chosen (· = .attach false) := by
    refine List.filter_congr fun d _ => ?_
    rw [roleOf_named]
    by_cases hd : d = c
    · subst hd
      have hbefore : s.roleOf d = none := by simp [roleOf, he, hnone]
      simp [hbefore]
    · simp [hd]
  unfold writableAttached
  rw [hchosen]

/-- A new supervisor gets the warning that is owed; the count it sees was reported already. -/
theorem Rests.introduce_supervisor (hs : s.Rests) :
    s.introduce P c .supervisor =
      { (s.setClient c { e with role := some .supervisor }).mapAt fun d e' => if d = c then
          ((s.setClient c { e with role := some .supervisor }).scene P).resynced P e' else e' with
        resetWarning := if s.resetWarning = .pending then .sent else s.resetWarning } := by
  set named := s.setClient c { e with role := some .supervisor } with hnamed
  have hclient : named.clients c = some { e with role := some .supervisor } := by
    simp [hnamed, setClient]
  have hcount : ({ named with reportedAttached := named.writableAttached } : Server τ) = named := by
    rw [writableAttached_named he hnone, ← hs.reported]
    rfl
  have howes : named.owesAt P c = decide (s.resetWarning = .pending) := by
    simp [owesAt, Scene.owes, scene, hnamed, setClient]
  have hroles : ∀ (d : ClientId) (e' : Client),
      (if d = c then (named.scene P).resynced P e' else e').role = e'.role := by
    intro d e'
    split
    · exact Scene.resynced_role
    · rfl
  unfold Server.introduce
  rw [he]
  dsimp only
  rw [if_pos rfl, ← hnamed, hcount, resync_eq hclient, howes, reportAttached_self]
  · simp only [decide_eq_true_eq]
    rfl
  · exact hs.reported.trans
      ((writableAttached_mapAt hroles).trans (writableAttached_named he hnone)).symm

theorem Rests.introduce (hs : s.Rests) {role : ClientRole}
    (hother : role = .supervisor → ∀ d, s.roleOf d ≠ some .supervisor) :
    (s.introduce P c role).Rests := by
  have hresynced : ∀ (k : Scene) (d : ClientId) (e' : Client),
      (if d = c then k.resynced P e' else e').role = e'.role := by
    intro k d e'
    split
    · exact Scene.resynced_role
    · rfl
  cases role with
  | attach readOnly =>
    rw [hs.introduce_attach he]
    exact ((hs.named he readOnly).mapAt (hresynced _)).reportAttached
  | supervisor =>
    rw [hs.introduce_supervisor he hnone]
    set named := s.setClient c { e with role := some .supervisor } with hnamed
    have hsingle : ∀ d, named.roleOf d = some .supervisor → d = c := by
      intro d hd
      rw [hnamed, roleOf_named] at hd
      by_contra hdc
      exact hother rfl d (by simpa [hdc] using hd)
    refine ⟨⟨hs.nodup, fun d => ?_, fun d d' hd hd' => ?_, fun hpending => ?_⟩, ?_⟩
    · show d ∈ s.ids ↔ ((named.clients d).map _).isSome = true
      rw [Option.isSome_map]
      exact hs.known_named he .supervisor d
    · have hroles := roleOf_mapAt (s := named) (hresynced (named.scene P))
      have hd := (congrFun hroles d).symm.trans hd
      have hd' := (congrFun hroles d').symm.trans hd'
      rw [hsingle d hd, hsingle d' hd']
    · dsimp only at hpending
      split at hpending
      · cases hpending
      · next hno => exact absurd hpending hno
    · exact hs.reported.trans
        ((writableAttached_mapAt (hresynced _)).trans (writableAttached_named he hnone)).symm

end

theorem role_of_evict {e : Client}
    (hnew : ∀ e, s.clients c = some e → e.role = none) (he : (s.evict P).clients c = some e) :
    e.role = none := by
  obtain ⟨e₀, he₀, hsame⟩ := foldl_dropClient_inherits (P := P)
    (({ s with supervised := true } : Server τ).chosen (· = .supervisor)) _ c e he
  exact hsame ▸ hnew e₀ he₀

theorem introduce_none (h : s.clients c = none) (role : ClientRole) : s.introduce P c role = s := by
  unfold Server.introduce
  rw [h]

/-! ### What telling clients leaves alone -/

/-- Clients were told something: only their entries, the count reported and the warning owed differ,
and nobody came or left. -/
structure Told (s s' : Server τ) : Prop where
  frame : ∃ clients reported warning, s' = { s with
    clients := clients, reportedAttached := reported, resetWarning := warning }
  there : ∀ c, (s'.clients c).isSome = (s.clients c).isSome

theorem Told.refl (s : Server τ) : s.Told s := ⟨⟨_, _, _, rfl⟩, fun _ => rfl⟩

theorem Told.trans (h : s.Told s') (h' : s'.Told s'') : s.Told s'' := by
  obtain ⟨⟨_, _, _, rfl⟩, hthere⟩ := h
  obtain ⟨⟨_, _, _, rfl⟩, hthere'⟩ := h'
  exact ⟨⟨_, _, _, rfl⟩, fun c => (hthere' c).trans (hthere c)⟩

theorem told_mapAt (f : ClientId → Client → Client) : s.Told (s.mapAt f) :=
  ⟨⟨_, _, _, rfl⟩, fun c => isSome_mapAt f c⟩

theorem told_named {e : Client} (he : s.clients c = some e) (role : ClientRole) :
    s.Told (s.setClient c { e with role := some role }) := by
  refine ⟨⟨_, _, _, rfl⟩, fun d => ?_⟩
  by_cases hd : d = c <;> simp [setClient, hd, he]

theorem Settled.told_reportAttached (hs : s.Settled) : s.Told (s.reportAttached P) := by
  rw [hs.reportAttached_eq]
  split
  · exact .refl s
  · exact ⟨⟨_, _, _, rfl⟩, fun c => Option.isSome_map⟩

theorem Rests.told_resyncWhere (hs : s.Rests) (wanted : ClientRole → Bool) :
    s.Told (s.resyncWhere P wanted) := by
  rw [hs.resyncWhere_eq]
  exact told_mapAt _

theorem Rests.told_broadcastTo (hs : s.Rests) (takes : ClientRole → Bool) (m : HolderMessage) :
    s.Told (s.broadcastTo P takes m) := by
  rw [hs.broadcastTo_eq]
  exact told_mapAt _

theorem Rests.told_broadcastOutput (hs : s.Rests) (start : ℕ) (bytes : Bytes) (held : Held) :
    s.Told (s.broadcastOutput P start bytes held) := by
  cases held with
  | chunk => exact hs.told_broadcastTo _ _
  | other held =>
    unfold Server.broadcastOutput
    dsimp only
    split
    · exact hs.told_broadcastTo _ _
    · exact (hs.told_broadcastTo _ _).trans ((hs.broadcastTo _ _).told_broadcastTo _ _)

theorem Rests.told_onOutput (hs : s.Rests) (bytes : Bytes) (held : Held) (failed : Bool) :
    (s.logOutput P bytes held).Told (s.onOutput P bytes held failed) := by
  have hlogged := hs.logOutput (P := P) bytes held
  have hsent := hlogged.told_broadcastOutput (P := P) (s.absorb P bytes).log.length bytes held
  refine onOutput_cases (fun _ warning => ?_) hsent fun _ =>
    hsent.trans ((hlogged.broadcastOutput _ bytes held).told_broadcastTo _ _)
  rw [resyncAll_eq (s := { s.logOutput P bytes held with resetWarning := warning }) hlogged.nodup
    hlogged.known hlogged.single]
  exact ⟨⟨_, _, _, rfl⟩, fun c => Option.isSome_map⟩

theorem Rests.told_introduce (hs : s.Rests) (hnew : ∀ e, s.clients c = some e → e.role = none)
    (role : ClientRole) : s.Told (s.introduce P c role) := by
  cases he : s.clients c with
  | none => exact (introduce_none he role).symm ▸ .refl s
  | some e =>
    cases role with
    | attach readOnly =>
      rw [hs.introduce_attach he]
      refine ((told_named he _).trans (told_mapAt _)).trans
        (((hs.named he readOnly).mapAt fun d e' => ?_).told_reportAttached)
      split
      · exact Scene.resynced_role
      · rfl
    | supervisor =>
      rw [hs.introduce_supervisor he (hnew e he)]
      exact ((told_named he _).trans (told_mapAt _)).trans ⟨⟨_, _, _, rfl⟩, fun _ => rfl⟩

/-! ### Every event -/

theorem Rests.onHello (hs : s.Rests) (hnew : ∀ e, s.clients c = some e → e.role = none)
    (role : ClientRole) : (s.onHello P c role).Rests := by
  rw [onHello_eq]
  split
  · next hrole =>
    obtain ⟨hevicted, hnobody⟩ := hs.evict (P := P)
    cases he : (s.evict P).clients c with
    | none => exact (introduce_none he role).symm ▸ hevicted
    | some e => exact hevicted.introduce he (role_of_evict hnew he) fun _ => hnobody
  · next hrole =>
    cases he : s.clients c with
    | none => exact (introduce_none he role).symm ▸ hs
    | some e => exact hs.introduce he (hnew e he) fun h => absurd h hrole

theorem Rests.runControl (hs : s.Rests) (control : HolderControl) : (s.runControl control).1.Rests := by
  have hcall : ∀ c, (s.call c).1.Rests := fun _ =>
    hs.of_eq rfl
  cases control with
  | pause => exact hcall _
  | resume => exact hcall _
  | kill => exact hcall _
  | terminate signal grace =>
    unfold Server.runControl
    dsimp only
    split
    · exact hs.of_eq rfl
    · exact hcall _

theorem Rests.onMessage (hs : s.Rests) (c : ClientId) (m : ClientMessage) :
    (s.onMessage P c m).Rests := by
  cases he : s.clients c with
  | none =>
    unfold Server.onMessage
    rw [he]
    exact hs
  | some e =>
    refine onMessage_cases he (fun hrole role _ => ?_) (fun _ _ => hs.send ..) (fun bytes _ _ => ?_)
      (fun size _ _ => ?_) (fun control _ _ => ?_) fun _ _ _ => ?_
    · refine hs.onHello (fun e' he' => ?_) role
      rw [he] at he'
      rwa [← Option.some.inj he']
    · have hpushed : (s.pushInput bytes).1.Rests :=
        hs.of_eq rfl
      exact ⟨hpushed, hpushed.send ..⟩
    · have hasked : (s.asked c size).Rests :=
        hs.of_eq rfl
      have hsized := hasked.applySize (P := P) size
      exact ⟨fun _ => hsized.resyncWhere _, fun _ => hsized, fun _ => hsized.send ..⟩
    · exact ⟨hs.runControl control, (hs.runControl control).send ..⟩
    · exact hs.of_eq rfl

theorem Inv.unused (hinv : s.Inv) : s.clients s.accepted = none := by
  rw [← Option.not_isSome_iff_eq_none, ← hinv.known]
  exact fun h => Nat.lt_irrefl _ (hinv.older _ h)

theorem roleOf_onConnected (hinv : s.Inv) (cloned : Bool) (races : List (List (List Move))) :
    (s.onConnected s.accepted cloned races).roleOf = s.roleOf := by
  unfold Server.onConnected
  dsimp only
  split
  · funext c
    by_cases hc : c = s.accepted
    · subst hc
      simp [roleOf, hinv.unused]
    · simp [roleOf, hc]
  · rfl

theorem Rests.onConnected (hs : s.Rests) (hinv : s.Inv) (cloned : Bool)
    (races : List (List (List Move))) : (s.onConnected s.accepted cloned races).Rests := by
  have hroles := roleOf_onConnected hinv cloned races
  have hconnected := hinv.onConnected cloned races
  have hcount : (s.onConnected s.accepted cloned races).writableAttached = s.writableAttached := by
    have hnone : s.roleOf s.accepted = none := by simp [roleOf, hinv.unused]
    unfold writableAttached chosen
    rw [hroles]
    unfold Server.onConnected
    dsimp only
    split
    · simp [hnone]
    · rfl
  have hreported : (s.onConnected s.accepted cloned races).reportedAttached =
      s.reportedAttached := by
    unfold Server.onConnected
    dsimp only
    split <;> rfl
  have hwarning : (s.onConnected s.accepted cloned races).resetWarning = s.resetWarning := by
    unfold Server.onConnected
    dsimp only
    split <;> rfl
  exact ⟨⟨hconnected.nodup, hconnected.known, hroles ▸ hs.single, hroles ▸ hwarning ▸ hs.calm⟩,
    (hreported.trans hs.reported).trans hcount.symm⟩

/-- **One step.** -/
theorem Rests.step (hs : s.Rests) (hinv : s.Inv) {ev : HolderEvent} (hev : s.Enabled ev) :
    (s.step P ev).Rests := by
  cases ev with
  | output bytes held failed => exact hs.onOutput bytes held failed
  | exited outcome => exact hs.onExit outcome
  | graceElapsed =>
    unfold Server.step
    dsimp only
    split <;> exact hs.of_eq rfl
  | supervisorDeadline =>
    unfold Server.step
    dsimp only
    split
    · exact hs.of_eq rfl
    · split <;> exact hs.of_eq rfl
  | connected c cloned races =>
    obtain rfl : c = s.accepted := hev.2
    exact hs.onConnected hinv cloned races
  | message c m => exact hs.onMessage c m
  | disconnected c => exact hs.dropClient c
  | writer c move =>
    simp only [Server.step]
    cases hc : s.clients c with
    | none => exact hs
    | some entry =>
      dsimp only
      rw [setClient_eq_mapAt hc fun e => { e with outbox := e.outbox.move move }]
      exact hs.mapAt fun d e => by split <;> rfl
  | inputWriter move => exact hs.of_eq rfl
  | reorder ids =>
    have hperm : ids.Perm s.ids := hev.2
    refine ⟨⟨hperm.nodup_iff.2 hs.nodup, fun c => hperm.mem_iff.trans (hs.known c), hs.single,
      hs.calm⟩, hs.reported.trans ?_⟩
    exact congrArg (min · (2 ^ 32 - 1)) (hperm.filter _).length_eq.symm

theorem new_rests (terminal : τ) (size : PtySize) (pid : ℕ) (log : Bytes) (runStart : ℕ)
    (outcomes : List Bool) (races : List (List (List Move))) :
    (new terminal size pid log runStart outcomes races).Rests where
  nodup := .nil
  known := fun _ => by simp [new]
  single := fun _ _ h => by simp [new, roleOf] at h
  calm := fun h => by simp [new] at h
  reported := by simp [new, writableAttached, chosen]

/-- **Every state reached** is one the holder rests in. -/
theorem rests_of_reaches {terminal : τ} {size : PtySize} {pid : ℕ} {log : Bytes} {runStart : ℕ}
    {outcomes : List Bool} {races : List (List (List Move))}
    (hr : (machine P).Reaches (new terminal size pid log runStart outcomes races) s) :
    s.Inv ∧ s.Rests :=
  hr.invariant (P := fun s => s.Inv ∧ s.Rests)
    (fun _ _ hs he => ⟨hs.1.step he, hs.2.step hs.1 he⟩) ⟨new_inv .., new_rests ..⟩

end Server

end Muster.Holder
