import Muster.Holder.Outboxes

/-!
# Pointwise — what the holder does to all its clients it does to each alone

A resync or a push reads nothing of the server but its `Scene`, and changes nothing but the client's
own entry and the reset warning still owed.  So the loops over the clients are maps over them, whatever
order they go in.
-/

namespace Muster.Holder

open Muster.Supervisor (ExitOutcome)

/-- What a resync or a push reads of the server. -/
structure Scene where
  snapshot : HolderMessage
  exit : Option ExitOutcome
  /-- A supervisor is owed the reset warning. -/
  pending : Bool
  produced : ℕ
  logged : ℕ

namespace Scene

variable {τ : Type} (P : Platform τ) (k : Scene)

def stamp (m : HolderMessage) : Put := ⟨m, k.produced, k.logged⟩

def force (e : Client) (m : HolderMessage) : Client :=
  { e with outbox := e.outbox.forcePush m (.ofNat (P.wireLen m)), put := e.put ++ [k.stamp m] }

def owes (e : Client) : Bool := decide (e.role = some .supervisor) && k.pending

def frames (e : Client) : List HolderMessage :=
  k.snapshot :: (e.outbox.clear.1.filter HolderMessage.isWarning ++
    (if k.owes e then [.warning screenResetWarning] else []) ++ (k.exit.map .exited).toList)

def resynced (e : Client) : Client :=
  (k.frames e).foldl (k.force P) { e with outbox := e.outbox.clear.2 }

def took (m : HolderMessage) (e : Client) : Bool := (e.outbox.tryPush m (.ofNat (P.wireLen m))).2

def offered (m : HolderMessage) (e : Client) : Client :=
  { e with outbox := (e.outbox.tryPush m (.ofNat (P.wireLen m))).1,
           put := if took P m e then e.put ++ [k.stamp m] else e.put }

/-- The client after `m` is queued for it: one that is stalled is resynced. -/
def pushed (m : HolderMessage) (e : Client) : Client :=
  if took P m e then k.offered P m e else k.resynced P (k.offered P m e)

/-- The client after the exit is told: a supervisor gets the final screen first. -/
def left (outcome : ExitOutcome) (e : Client) : Client :=
  let shown := if e.role = some .supervisor then k.pushed P k.snapshot e else e
  if e.role.isSome then k.pushed P (.exited outcome) shown else shown

variable {P k} {m : HolderMessage} {e : Client}

theorem foldl_force_role : ∀ (ms : List HolderMessage) (e : Client),
    (ms.foldl (k.force P) e).role = e.role
  | [], _ => rfl
  | _ :: ms, _ => foldl_force_role ms _

@[simp] theorem resynced_role : (k.resynced P e).role = e.role := foldl_force_role _ _

@[simp] theorem offered_role : (k.offered P m e).role = e.role := rfl

@[simp] theorem pushed_role : (k.pushed P m e).role = e.role := by
  unfold pushed
  split
  · rfl
  · exact resynced_role

@[simp] theorem left_role {outcome : ExitOutcome} : (k.left P outcome e).role = e.role := by
  unfold left
  dsimp only
  split <;> split <;> simp

theorem resynced_congr {k' : Scene} (hsnapshot : k'.snapshot = k.snapshot) (hexit : k'.exit = k.exit)
    (hproduced : k'.produced = k.produced) (hlogged : k'.logged = k.logged)
    (howes : k'.owes e = k.owes e) : k'.resynced P e = k.resynced P e := by
  have hforce : k'.force P = k.force P := by
    funext e m
    simp only [force, stamp, hproduced, hlogged]
  simp only [resynced, frames, hsnapshot, hexit, howes, hforce]

end Scene

namespace Server

variable {τ : Type} {P : Platform τ} {s s' : Server τ} {f : ClientId → Client → Client}
  {c : ClientId} {e : Client} {wanted : ClientRole → Bool}

def scene (P : Platform τ) (s : Server τ) : Scene where
  snapshot := s.snapshot P
  exit := s.exit
  pending := decide (s.resetWarning = .pending)
  produced := s.produced.length
  logged := s.log.length

def mapAt (f : ClientId → Client → Client) (s : Server τ) : Server τ :=
  { s with clients := fun c => (s.clients c).map (f c) }

theorem mapAt_mapAt (f g : ClientId → Client → Client) :
    (s.mapAt g).mapAt f = s.mapAt fun c e => f c (g c e) := by
  simp [mapAt, Function.comp_def]

theorem mapAt_congr {g : ClientId → Client → Client}
    (h : ∀ c e, s.clients c = some e → f c e = g c e) : s.mapAt f = s.mapAt g := by
  have hclients : (fun c => (s.clients c).map (f c)) = fun c => (s.clients c).map (g c) := by
    funext c
    exact Option.map_congr fun e he => h c e he
  simp only [mapAt, hclients]

@[simp] theorem isSome_mapAt (f : ClientId → Client → Client) (c : ClientId) :
    ((s.mapAt f).clients c).isSome = (s.clients c).isSome := Option.isSome_map

theorem mapAt_self (h : ∀ c e, s.clients c = some e → f c e = e) : s.mapAt f = s := by
  rw [mapAt_congr (g := fun _ e => e) h]
  simp [mapAt]

section

variable {f : ClientId → Client → Client} (hf : ∀ c e, (f c e).role = e.role)
include hf

theorem roleOf_mapAt : (s.mapAt f).roleOf = s.roleOf := by
  funext c
  simp only [roleOf, mapAt]
  cases s.clients c with
  | none => rfl
  | some e => exact hf c e

theorem chosen_mapAt (wanted : ClientRole → Bool) : (s.mapAt f).chosen wanted = s.chosen wanted := by
  unfold chosen
  rw [roleOf_mapAt hf]
  rfl

theorem scene_mapAt : (s.mapAt f).scene P = s.scene P := by
  simp only [scene, snapshot, writableAttached, chosen_mapAt hf]
  rfl

end

theorem setClient_eq_mapAt (he : s.clients c = some e) (f : Client → Client) :
    s.setClient c (f e) = s.mapAt fun d e => if d = c then f e else e := by
  have hclients : Function.update s.clients c (some (f e)) =
      fun d => (s.clients d).map fun e => if d = c then f e else e := by
    funext d
    by_cases hd : d = c
    · subst hd
      simp [he]
    · simp [hd]
  simp only [setClient, mapAt, hclients]

/-! ### Resyncs -/

/-- A resync of this client would give it the reset warning. -/
def owesAt (P : Platform τ) (s : Server τ) (c : ClientId) : Bool :=
  (s.clients c).any (s.scene P).owes

theorem resync_eq (he : s.clients c = some e) :
    s.resync P c = { s.mapAt (fun d e => if d = c then (s.scene P).resynced P e else e) with
      resetWarning := if s.owesAt P c then .sent else s.resetWarning } := by
  have hset := setClient_eq_mapAt he ((s.scene P).resynced P)
  simp only [setClient, mapAt, Server.mk.injEq, true_and, and_true] at hset
  unfold Server.resync owesAt
  rw [he]
  simp only [setClient, mapAt, ← hset]
  rfl

theorem owes_resync {d : ClientId} {e' : Client} (hc : s.clients c = some e)
    (hd : s.clients d = some e') (hone : s.owesAt P c = true → s.owesAt P d = false) :
    ((s.resync P c).scene P).owes e' = (s.scene P).owes e' := by
  have hpending : ((s.resync P c).scene P).pending =
      decide ((if s.owesAt P c then .sent else s.resetWarning) = ResetWarning.pending) := by
    rw [resync_eq hc]
    rfl
  unfold Scene.owes
  rw [hpending]
  cases howes : s.owesAt P c with
  | false => rfl
  | true =>
    have hnot : (s.scene P).owes e' = false := by
      simpa [owesAt, hd] using hone howes
    simp only [if_true, reduceCtorEq, decide_false, Bool.and_false]
    exact hnot.symm

theorem scene_resync (hc : s.clients c = some e) :
    ((s.resync P c).scene P).snapshot = (s.scene P).snapshot ∧
      ((s.resync P c).scene P).exit = s.exit ∧
      ((s.resync P c).scene P).produced = s.produced.length ∧
      ((s.resync P c).scene P).logged = s.log.length := by
  have hroles : ∀ d e, (if d = c then (s.scene P).resynced P e else e).role = e.role := by
    intro d e
    split
    · exact Scene.resynced_role
    · rfl
  have hsnapshot := congrArg Scene.snapshot (scene_mapAt (s := s) (P := P) hroles)
  rw [resync_eq hc]
  exact ⟨hsnapshot, rfl, rfl, rfl⟩

/-- Loops of resyncs, at most one of which owes the reset warning, are one map. -/
theorem foldl_resync_eq : ∀ (cs : List ClientId) (s : Server τ), cs.Nodup →
    (∀ c ∈ cs, (s.clients c).isSome = true) →
    (∀ c ∈ cs, ∀ d ∈ cs, s.owesAt P c = true → s.owesAt P d = true → c = d) →
    cs.foldl (fun s c => s.resync P c) s =
      { s.mapAt (fun d e => if d ∈ cs then (s.scene P).resynced P e else e) with
        resetWarning := if cs.any (s.owesAt P) then .sent else s.resetWarning }
  | [], s, _, _, _ => by
    simp only [List.foldl_nil, List.not_mem_nil, if_false, List.any_nil, Bool.false_eq_true]
    rw [mapAt_self fun _ _ _ => rfl]
  | c :: cs, s, hnodup, hthere, hone => by
    obtain ⟨hnot, hnodup⟩ := List.nodup_cons.1 hnodup
    obtain ⟨e, hc⟩ := Option.isSome_iff_exists.1 (hthere c List.mem_cons_self)
    have hne : ∀ d ∈ cs, d ≠ c := fun d hd heq => hnot (heq ▸ hd)
    have hother : ∀ d ∈ cs, (s.resync P c).clients d = s.clients d := fun d hd => by
      rw [resync_eq hc]
      simp [mapAt, hne d hd]
    -- no later resync owes what the first one gave
    have howed : ∀ d ∈ cs, s.owesAt P c = true → s.owesAt P d = false := fun d hd howes => by
      rw [Bool.eq_false_iff]
      exact fun hd' => hne d hd
        (hone c List.mem_cons_self d (List.mem_cons_of_mem _ hd) howes hd').symm
    have howes : ∀ d ∈ cs, ∀ e', s.clients d = some e' →
        ((s.resync P c).scene P).owes e' = (s.scene P).owes e' := fun d hd e' he' =>
      owes_resync hc he' (howed d hd)
    have howesAt : ∀ d ∈ cs, (s.resync P c).owesAt P d = s.owesAt P d := fun d hd => by
      unfold owesAt
      rw [hother d hd]
      cases hd' : s.clients d with
      | none => rfl
      | some e' => exact howes d hd e' hd'
    have hany : cs.any ((s.resync P c).owesAt P) = cs.any (s.owesAt P) := by
      rw [Bool.eq_iff_iff, List.any_eq_true, List.any_eq_true]
      exact exists_congr fun d => and_congr_right fun hd => by rw [howesAt d hd]
    have hmap : ∀ d e', (s.resync P c).clients d = some e' →
        (if d ∈ cs then ((s.resync P c).scene P).resynced P e' else e') =
          if d ∈ cs then (s.scene P).resynced P e' else e' := fun d e' he' => by
      split
      · next hd =>
        obtain ⟨hsnapshot, hexit, hproduced, hlogged⟩ := scene_resync (P := P) hc
        exact Scene.resynced_congr hsnapshot hexit hproduced hlogged
          (howes d hd e' (hother d hd ▸ he'))
      · rfl
    rw [List.foldl_cons, foldl_resync_eq cs (s.resync P c) hnodup, mapAt_congr hmap, hany]
    · have hclients : ∀ d, ((s.clients d).map fun e =>
            if d ∈ cs then (s.scene P).resynced P (if d = c then (s.scene P).resynced P e else e)
            else if d = c then (s.scene P).resynced P e else e) =
          (s.clients d).map fun e => if d ∈ c :: cs then (s.scene P).resynced P e else e := by
        intro d
        by_cases hd : d = c
        · subst hd
          simp [hnot]
        · simp [hd]
      rw [resync_eq hc]
      simp only [mapAt, Option.map_map, Function.comp_def, hclients, List.any_cons]
      by_cases hc' : s.owesAt P c = true <;> simp [hc']
    · intro d hd
      rw [hother d hd]
      exact hthere d (List.mem_cons_of_mem _ hd)
    · intro d hd d' hd'
      rw [howesAt d hd, howesAt d' hd']
      exact hone d (List.mem_cons_of_mem _ hd) d' (List.mem_cons_of_mem _ hd')

/-! ### Settled states -/

/-- The clients are keyed once each, at most one is the supervisor, and while there is one it is not
owed the reset warning. -/
structure Settled (s : Server τ) : Prop where
  nodup : s.ids.Nodup
  known : ∀ c, c ∈ s.ids ↔ (s.clients c).isSome = true
  single : ∀ c d, s.roleOf c = some .supervisor → s.roleOf d = some .supervisor → c = d
  calm : s.resetWarning = .pending → ∀ c, s.roleOf c ≠ some .supervisor

theorem mem_chosen (hknown : ∀ c, c ∈ s.ids ↔ (s.clients c).isSome = true)
    (he : s.clients c = some e) :
    c ∈ s.chosen wanted ↔ e.role.any wanted = true := by
  simp [chosen, hknown, roleOf, he]

theorem isSome_of_chosen (hknown : ∀ c, c ∈ s.ids ↔ (s.clients c).isSome = true)
    (hc : c ∈ s.chosen wanted) :
    (s.clients c).isSome = true := (hknown c).1 (List.mem_filter.1 hc).1

theorem Settled.chosen_nodup (hs : s.Settled) (wanted : ClientRole → Bool) :
    (s.chosen wanted).Nodup := hs.nodup.filter _

theorem Settled.mem_supervisors (hs : s.Settled) (he : s.clients c = some e) :
    c ∈ s.chosen (· = .supervisor) ↔ e.role = some .supervisor := by
  rw [mem_chosen hs.known he]
  cases e.role <;> simp

theorem Settled.mapAt (hs : s.Settled)
    (hf : ∀ c e, (f c e).role = e.role) : (s.mapAt f).Settled where
  nodup := hs.nodup
  known := fun c => by
    rw [isSome_mapAt]
    exact hs.known c
  single := by
    rw [roleOf_mapAt hf]
    exact hs.single
  calm := by
    rw [roleOf_mapAt hf]
    exact hs.calm

theorem Settled.owesAt (hs : s.Settled) (c : ClientId) : s.owesAt P c = false := by
  cases hc : s.clients c with
  | none => simp [Server.owesAt, hc]
  | some e =>
    rw [Bool.eq_false_iff]
    intro howes
    simp only [Server.owesAt, hc, Option.any_some, Scene.owes, scene, Bool.and_eq_true,
      decide_eq_true_eq] at howes
    exact hs.calm howes.2 c (by simp [roleOf, hc, howes.1])

theorem Settled.resync_eq (hs : s.Settled) (c : ClientId) :
    s.resync P c = s.mapAt fun d e => if d = c then (s.scene P).resynced P e else e := by
  cases hc : s.clients c with
  | none =>
    rw [mapAt_self]
    · simp [Server.resync, hc]
    · intro d e he
      have hd : d ≠ c := fun heq => by rw [heq, hc] at he; cases he
      simp [hd]
  | some e =>
    rw [Server.resync_eq hc, hs.owesAt]
    rfl

theorem Settled.resyncs_eq (hs : s.Settled) {cs : List ClientId} (hnodup : cs.Nodup)
    (hthere : ∀ c ∈ cs, (s.clients c).isSome = true) :
    cs.foldl (fun s c => s.resync P c) s =
      s.mapAt fun d e => if d ∈ cs then (s.scene P).resynced P e else e := by
  have hnone : cs.any (s.owesAt P) = false := by simp [hs.owesAt]
  have hfold := foldl_resync_eq (P := P) cs s hnodup hthere
    fun c _ d _ hc => by rw [hs.owesAt] at hc; cases hc
  rw [hnone] at hfold
  exact hfold

theorem Settled.resyncWhere_eq (hs : s.Settled) (wanted : ClientRole → Bool) :
    s.resyncWhere P wanted =
      s.mapAt fun _ e => if e.role.any wanted then (s.scene P).resynced P e else e := by
  unfold Server.resyncWhere
  rw [hs.resyncs_eq (hs.chosen_nodup wanted) fun c => isSome_of_chosen hs.known]
  refine mapAt_congr fun c e he => ?_
  simp only [mem_chosen hs.known he]

theorem offer_eq (he : s.clients c = some e) (m : HolderMessage) :
    s.offer P c m = (s.mapAt (fun d e => if d = c then (s.scene P).offered P m e else e),
      Scene.took P m e) := by
  rw [← setClient_eq_mapAt he]
  unfold Server.offer
  rw [he]
  rfl

theorem Settled.tell_eq (hs : s.Settled) (c : ClientId) (m : HolderMessage) :
    s.tell P c m = s.mapAt fun d e => if d = c then (s.scene P).pushed P m e else e := by
  cases hc : s.clients c with
  | none =>
    rw [mapAt_self]
    · simp [Server.tell, Server.offer, hc]
    · intro d e he
      have hd : d ≠ c := fun heq => by rw [heq, hc] at he; cases he
      simp [hd]
  | some e =>
    have hroles : ∀ d e, (if d = c then (s.scene P).offered P m e else e).role = e.role := by
      intro d e
      split <;> rfl
    unfold Server.tell
    rw [offer_eq hc]
    dsimp only
    rw [(hs.mapAt hroles).resync_eq, scene_mapAt hroles, mapAt_mapAt]
    have hpushed : ∀ d e', s.clients d = some e' →
        (if d = c then (s.scene P).pushed P m e' else e') =
          if Scene.took P m e then (if d = c then (s.scene P).offered P m e' else e')
          else if d = c then (s.scene P).resynced P
            (if d = c then (s.scene P).offered P m e' else e')
          else if d = c then (s.scene P).offered P m e' else e' := by
      intro d e' he'
      by_cases hd : d = c
      · obtain rfl : e = e' := by rw [hd, hc] at he'; exact Option.some.inj he'
        simp only [hd, if_true, Scene.pushed]
      · simp [hd]
    rw [mapAt_congr hpushed]
    split <;> rfl

theorem pushAt_role (k : Scene) (m : HolderMessage) (c : ClientId) : ∀ d e,
    (if d = c then k.pushed P m e else e).role = e.role := by
  intro d e
  split
  · exact Scene.pushed_role
  · rfl

theorem Settled.tells_eq (m : Scene → HolderMessage) : ∀ (cs : List ClientId) {s : Server τ},
    s.Settled → cs.Nodup → cs.foldl (fun s c => s.tell P c (m (s.scene P))) s =
      s.mapAt fun d e => if d ∈ cs then (s.scene P).pushed P (m (s.scene P)) e else e
  | [], s, _, _ => by
    rw [mapAt_self fun _ _ _ => by simp]
    rfl
  | c :: cs, s, hs, hnodup => by
    obtain ⟨hnot, hnodup⟩ := List.nodup_cons.1 hnodup
    have hroles := pushAt_role (P := P) (s.scene P) (m (s.scene P)) c
    rw [List.foldl_cons, hs.tell_eq, Settled.tells_eq m cs (hs.mapAt hroles) hnodup,
      scene_mapAt hroles, mapAt_mapAt]
    refine mapAt_congr fun d e _ => ?_
    by_cases hd : d = c
    · subst hd
      simp [hnot]
    · simp [hd]

theorem introduced_mapAt (hf : ∀ c e, (f c e).role = e.role)
    (hc : s.Introduced c) : (s.mapAt f).Introduced c := by
  intro e' he'
  obtain ⟨e, he, rfl⟩ := Option.map_eq_some_iff.1 he'
  rw [hf]
  exact hc e he

theorem Settled.sends_eq (m : Scene → HolderMessage) : ∀ (cs : List ClientId) {s : Server τ},
    s.Settled → (∀ c ∈ cs, s.Introduced c) →
    cs.foldl (fun s c => s.send P c (m (s.scene P))) s =
      cs.foldl (fun s c => s.tell P c (m (s.scene P))) s
  | [], _, _, _ => rfl
  | c :: cs, s, hs, hintro => by
    have hroles := pushAt_role (P := P) (s.scene P) (m (s.scene P)) c
    rw [List.foldl_cons, List.foldl_cons, send_eq_tell (hintro c List.mem_cons_self), hs.tell_eq]
    exact Settled.sends_eq m cs (hs.mapAt hroles) fun d hd =>
      introduced_mapAt hroles (hintro d (List.mem_cons_of_mem _ hd))

theorem Settled.reportAttached_eq (hs : s.Settled) : s.reportAttached P =
    if s.writableAttached = s.reportedAttached then s
    else ({ s with reportedAttached := s.writableAttached } : Server τ).mapAt fun _ e =>
      if e.role = some .supervisor then (s.scene P).pushed P (.attached s.writableAttached) e else e := by
  unfold Server.reportAttached
  dsimp only
  split
  · rfl
  · have hs' : ({ s with reportedAttached := s.writableAttached } : Server τ).Settled :=
      ⟨hs.nodup, hs.known, hs.single, hs.calm⟩
    rw [Settled.tells_eq (fun _ => .attached s.writableAttached) _ hs' (hs.chosen_nodup _)]
    refine mapAt_congr fun c e he => ?_
    have hmem := hs.mem_supervisors he
    simp only [hmem]
    rfl

theorem offers_eq (m : HolderMessage) : ∀ (cs : List ClientId) (s : Server τ), cs.Nodup →
    (∀ c ∈ cs, (s.clients c).isSome = true) →
    offers P m s cs = (s.mapAt fun d e => if d ∈ cs then (s.scene P).offered P m e else e,
      cs.filter fun c => !(s.clients c).all (Scene.took P m))
  | [], s, _, _ => by
    rw [mapAt_self fun _ _ _ => by simp]
    rfl
  | c :: cs, s, hnodup, hthere => by
    obtain ⟨hnot, hnodup⟩ := List.nodup_cons.1 hnodup
    obtain ⟨e, hc⟩ := Option.isSome_iff_exists.1 (hthere c List.mem_cons_self)
    have hroles : ∀ d e, (if d = c then (s.scene P).offered P m e else e).role = e.role := by
      intro d e
      split <;> rfl
    have hother : ∀ d ∈ cs, (s.mapAt fun d e =>
        if d = c then (s.scene P).offered P m e else e).clients d = s.clients d := fun d hd => by
      have hne : d ≠ c := fun heq => hnot (heq ▸ hd)
      simp [Server.mapAt, hne]
    unfold offers
    rw [offer_eq hc]
    dsimp only
    rw [offers_eq m cs _ hnodup fun d hd => by
        rw [hother d hd]; exact hthere d (List.mem_cons_of_mem _ hd),
      scene_mapAt hroles, mapAt_mapAt]
    have hstalled : (cs.filter fun d => !((s.mapAt fun d e =>
          if d = c then (s.scene P).offered P m e else e).clients d).all (Scene.took P m)) =
        cs.filter fun d => !(s.clients d).all (Scene.took P m) :=
      List.filter_congr fun d hd => by rw [hother d hd]
    rw [hstalled, Prod.mk.injEq]
    constructor
    · refine mapAt_congr fun d e _ => ?_
      by_cases hd : d = c
      · subst hd
        simp [hnot]
      · simp [hd]
    · rw [List.filter_cons, hc]
      cases htook : Scene.took P m e <;> simp [htook]

/-- A broadcast pushes the frame to each client in a role it is for. -/
theorem Settled.broadcastTo_eq (hs : s.Settled) (takes : ClientRole → Bool) (m : HolderMessage) :
    s.broadcastTo P takes m =
      s.mapAt fun _ e => if e.role.any takes then (s.scene P).pushed P m e else e := by
  have hthere : ∀ c ∈ s.chosen takes, (s.clients c).isSome = true := fun c =>
    isSome_of_chosen hs.known
  have hroles : ∀ d e, (if d ∈ s.chosen takes then (s.scene P).offered P m e else e).role =
      e.role := by
    intro d e
    split <;> rfl
  have hoffered := hs.mapAt hroles
  unfold Server.broadcastTo
  rw [offers_eq m _ s (hs.chosen_nodup takes) hthere]
  dsimp only
  rw [foldl_onStalled, hoffered.resyncs_eq, scene_mapAt hroles, mapAt_mapAt]
  · refine mapAt_congr fun c e he => ?_
    simp only [List.mem_filter, mem_chosen hs.known he, he, Option.all_some, Scene.pushed]
    by_cases hany : e.role.any takes = true
    · simp only [hany, true_and, if_true]
      cases Scene.took P m e <;> rfl
    · simp [hany]
  · exact (hs.chosen_nodup takes).filter _
  · intro c hc
    rw [isSome_mapAt]
    exact hthere c (List.mem_of_mem_filter hc)
  · intro c hc
    have hc := List.mem_of_mem_filter hc
    have hchosen := hc
    rw [← chosen_mapAt (s := s) hroles] at hchosen
    refine ⟨introduced_of_chosen hchosen, ?_⟩
    rw [isSome_mapAt]
    exact hthere c hc

end Server

end Muster.Holder
