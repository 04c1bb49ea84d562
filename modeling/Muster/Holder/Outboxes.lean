import Mathlib.Tactic.Set
import Muster.Holder.Puts

/-!
# Outboxes — what the server's operations put in its clients' outboxes

Each operation is said once by what it does to one client (`Touches`) or to all (`Steady`,
`broadcastTo_spec`).  A full outbox turns a push into a resync, which makes a sound client good
again.
-/

namespace Muster.Holder

/-! ### One client's outbox at a time -/

namespace Server

variable {τ : Type} {P : Platform τ} {s s' s'' : Server τ} {R Q : Client → Client → Prop}
  {c : ClientId} {m : HolderMessage}

/-- The log, the child's output and who is connected are untouched. -/
structure Stays (s s' : Server τ) : Prop where
  log : s'.log = s.log
  produced : s'.produced = s.produced
  ids : s'.ids = s.ids
  accepted : s'.accepted = s.accepted

theorem Stays.refl (s : Server τ) : s.Stays s := ⟨rfl, rfl, rfl, rfl⟩

theorem Stays.trans (h : s.Stays s') (h' : s'.Stays s'') : s.Stays s'' :=
  ⟨h'.log.trans h.log, h'.produced.trans h.produced, h'.ids.trans h.ids,
    h'.accepted.trans h.accepted⟩

theorem Stays.stamp (h : s.Stays s') (m : HolderMessage) : s'.stamp m = s.stamp m := by
  simp [Server.stamp, h.log, h.produced]

theorem taken_snapshot (P : Platform τ) (s : Server τ) :
    Taken s.log s.produced (s.stamp (s.snapshot P)) := ⟨_, _, _, _, _, rfl⟩

theorem foldl_force : ∀ (ms : List HolderMessage) (e : Client),
    (ms.foldl (s.force P) e).role = e.role ∧ (ms.foldl (s.force P) e).put = e.put ++ ms.map s.stamp
  | [], e => ⟨rfl, by simp⟩
  | m :: ms, e => by
    obtain ⟨hrole, hput⟩ := foldl_force ms (s.force P e m)
    rw [List.foldl_cons, hput]
    exact ⟨hrole, by simp [Server.force]⟩

theorem rel_imp {a b : Option Client} (h : Option.Rel R a b)
    (hRQ : ∀ e e', a = some e → R e e' → Q e e') : Option.Rel Q a b := by
  cases h with
  | none => exact .none
  | some hr => exact .some (hRQ _ _ rfl hr)

theorem rel_trans {T : Client → Client → Prop} {a b c : Option Client} (h : Option.Rel R a b)
    (h' : Option.Rel Q b c) (hT : ∀ e e' e'', a = some e → R e e' → Q e' e'' → T e e'') :
    Option.Rel T a c := by
  cases h with
  | none => cases h'; exact .none
  | some hr =>
    cases h' with
    | some hq => exact .some (hT _ _ _ rfl hr hq)

/-- Only client `c` changes from `s` to `s'`, by `R`. -/
structure Touches (c : ClientId) (R : Client → Client → Prop) (s s' : Server τ) : Prop where
  stays : s.Stays s'
  others : ∀ d, d ≠ c → s'.clients d = s.clients d
  touched : Option.Rel R (s.clients c) (s'.clients c)

/-- A resync puts a snapshot taken now, and nothing after it that is output or a snapshot. -/
theorem resync_touches (c : ClientId) : Touches c (fun e e' => e'.role = e.role ∧
    ∃ p more, Taken s.log s.produced p ∧ (∀ q ∈ more, q.message.isNeutral = true) ∧
      e'.put = e.put ++ p :: more) s (s.resync P c) := by
  unfold Server.resync
  cases hc : s.clients c with
  | none => exact ⟨.refl s, fun _ _ => rfl, by rw [hc]; exact .none⟩
  | some e =>
    dsimp only
    generalize (decide (e.role = some .supervisor) && decide (s.resetWarning = .pending)) = owed
    obtain ⟨hrole, hput⟩ := foldl_force (s := s) (P := P)
      (s.resyncFrames P owed (e.outbox.clear.1.filter HolderMessage.isWarning))
      { e with outbox := e.outbox.clear.2 }
    refine ⟨⟨rfl, rfl, rfl, rfl⟩, fun d hd => Function.update_of_ne hd .., ?_⟩
    rw [hc]
    simp only [setClient, Function.update_self]
    refine .some ⟨hrole, _, _, taken_snapshot P s, ?_, hput⟩
    intro q hq
    simp only [List.mem_map, List.mem_append, List.mem_filter] at hq
    obtain ⟨m, hm, rfl⟩ := hq
    show m.isNeutral = true
    rcases hm with (⟨-, hw⟩ | ho) | hx
    · cases m <;> simp_all [HolderMessage.isWarning, HolderMessage.isNeutral]
    · cases owed <;> simp_all [HolderMessage.isNeutral]
    · cases hexit : s.exit <;> simp_all [HolderMessage.isNeutral]

theorem offer_touches (c : ClientId) (m : HolderMessage) : Touches c (fun e e' => e'.role = e.role ∧
    e'.put = if (s.offer P c m).2 then e.put ++ [s.stamp m] else e.put) s (s.offer P c m).1 := by
  unfold Server.offer
  cases hc : s.clients c with
  | none => exact ⟨.refl s, fun _ _ => rfl, by rw [hc]; exact .none⟩
  | some e =>
    refine ⟨⟨rfl, rfl, rfl, rfl⟩, fun d hd => Function.update_of_ne hd .., ?_⟩
    rw [hc]
    simp only [setClient, Function.update_self]
    exact .some ⟨rfl, rfl⟩

/-! ### Operations that keep every client up to date -/

/-- A client that is connected and has said hello, or is not connected at all. -/
def Introduced (s : Server τ) (c : ClientId) : Prop := ∀ e, s.clients c = some e → e.role ≠ none

/-- The same clients in the same roles, and those up to date stay so. -/
structure Steady (s s' : Server τ) : Prop extends Stays s s' where
  clients : ∀ d, Option.Rel (fun e e' => e'.role = e.role ∧
    (e.Good s.log s.produced → e'.Good s.log s.produced)) (s.clients d) (s'.clients d)

theorem steady_of_clients (h : s.Stays s') (hc : s'.clients = s.clients) : s.Steady s' where
  toStays := h
  clients := fun d => by
    rw [hc]
    cases s.clients d with
    | none => exact .none
    | some e => exact .some ⟨rfl, id⟩

theorem Steady.refl (s : Server τ) : s.Steady s := steady_of_clients (.refl s) rfl

theorem Steady.trans (h : s.Steady s') (h' : s'.Steady s'') : s.Steady s'' where
  toStays := h.toStays.trans h'.toStays
  clients := fun d => by
    have hd := h.clients d
    have hd' := h'.clients d
    rw [h.log, h.produced] at hd'
    exact rel_trans hd hd' fun _ _ _ _ hab hbc => ⟨hbc.1.trans hab.1, fun hg => hbc.2 (hab.2 hg)⟩

theorem Touches.steady (h : Touches c R s s')
    (hR : ∀ e e', s.clients c = some e → R e e' → e'.role = e.role ∧
      (e.Good s.log s.produced → e'.Good s.log s.produced)) : s.Steady s' where
  toStays := h.stays
  clients := fun d => by
    by_cases hd : d = c
    · subst hd
      exact rel_imp h.touched hR
    · rw [h.others d hd]
      cases s.clients d with
      | none => exact .none
      | some e => exact .some ⟨rfl, id⟩

theorem Steady.introduced (h : s.Steady s') (hc : s.Introduced c) : s'.Introduced c := by
  intro e' he'
  have hd := h.clients c
  rw [he'] at hd
  generalize hs : s.clients c = a at hd
  cases hd with
  | some hr =>
    rw [hr.1]
    exact hc _ hs

theorem resync_good {e e' : Client} (hsound : e.Sound s.log) (hintro : e.role ≠ none)
    (h : e'.role = e.role ∧ ∃ p more, Taken s.log s.produced p ∧
      (∀ q ∈ more, q.message.isNeutral = true) ∧ e'.put = e.put ++ p :: more) :
    e'.Good s.log s.produced := by
  obtain ⟨hrole, p, more, hp, hmore, hput⟩ := h
  obtain ⟨role, hr⟩ := Option.ne_none_iff_exists'.mp hintro
  obtain ⟨hstamped, htold⟩ := hsound
  rw [hr] at htold
  obtain ⟨htold', hup⟩ := Told.snapshot (Or.inr htold) hp
  unfold Client.Good Client.Sound
  rw [hrole, hr, hput, List.append_cons]
  exact ⟨⟨(hstamped.append hp.stamped).append (stamped_neutral hmore), htold'.neutral hmore⟩,
    hup.neutral hmore⟩

theorem resync_steady (hc : s.Introduced c) : s.Steady (s.resync P c) :=
  (resync_touches c).steady fun e _ he hr => ⟨hr.1, fun hg => resync_good hg.1 (hc e he) hr⟩

theorem foldl_steady {f : Server τ → ClientId → Server τ}
    (hf : ∀ (s : Server τ) c, s.Introduced c → s.Steady (f s c)) :
    ∀ (cs : List ClientId) (s : Server τ), (∀ c ∈ cs, s.Introduced c) → s.Steady (cs.foldl f s)
  | [], s, _ => .refl s
  | c :: cs, s, h => by
    have hstep := hf s c (h c (List.mem_cons_self ..))
    exact hstep.trans (foldl_steady hf cs _ fun d hd =>
      hstep.introduced (h d (List.mem_cons_of_mem _ hd)))

theorem introduced_of_chosen {wanted : ClientRole → Bool} (h : c ∈ s.chosen wanted) :
    s.Introduced c := by
  intro e he hnone
  have := (List.mem_filter.mp h).2
  simp [roleOf, he, hnone] at this

theorem resyncWhere_steady (wanted : ClientRole → Bool) : s.Steady (s.resyncWhere P wanted) :=
  foldl_steady (fun _ _ => resync_steady) _ _ fun _ => introduced_of_chosen

/-- A push that keeps clients up to date: neither output nor a snapshot, or a snapshot of the
present. -/
def Harmless (s : Server τ) (m : HolderMessage) : Prop :=
  m.isNeutral = true ∨ Taken s.log s.produced (s.stamp m)

theorem Harmless.good (hm : s.Harmless m) {e e' : Client}
    (hintro : m.isNeutral = false → e.role ≠ none) (hg : e.Good s.log s.produced)
    (hrole : e'.role = e.role) (hput : e'.put = e.put ++ [s.stamp m]) :
    e'.Good s.log s.produced := by
  cases hn : m.isNeutral with
  | true => exact hg.neutral hn rfl hrole hput
  | false =>
    have htaken := hm.resolve_left (by simp [hn])
    exact resync_good hg.1 (hintro hn) ⟨hrole, _, [], htaken, (fun _ hq => nomatch hq), hput⟩

theorem offer_steady (hm : s.Harmless m)
    (hc : m.isNeutral = false → s.Introduced c) : s.Steady (s.offer P c m).1 :=
  (offer_touches c m).steady fun e e' he ⟨hrole, hput⟩ => ⟨hrole, fun hg => by
    cases ht : (s.offer P c m).2 with
    | true => exact hm.good (fun hn => hc hn e he) hg hrole (by simpa [ht] using hput)
    | false => exact hg.congr hrole (by simpa [ht] using hput)⟩

theorem tell_steady (hm : s.Harmless m) (hc : s.Introduced c) : s.Steady (s.tell P c m) := by
  have hoffer := offer_steady (P := P) hm fun _ => hc
  unfold Server.tell
  dsimp only
  split
  · exact hoffer
  · exact hoffer.trans (resync_steady (hoffer.introduced hc))

theorem send_eq_tell (hc : s.Introduced c) (m : HolderMessage) : s.send P c m = s.tell P c m := by
  unfold Server.send Server.tell
  dsimp only
  split
  · rfl
  · next hfull =>
    cases he : s.clients c with
    | none => simp [Server.offer, he] at hfull
    | some e =>
      obtain ⟨role, hrole⟩ := Option.ne_none_iff_exists'.mp (hc e he)
      have hstill : (s.offer P c m).1.roleOf c = some role := by
        simp [Server.offer, he, roleOf, setClient, hrole]
      simp only [Server.onStalled, hstill]

theorem reportAttached_steady : s.Steady (s.reportAttached P) := by
  unfold Server.reportAttached
  dsimp only
  split
  · exact .refl s
  · have hset : s.Steady { s with reportedAttached := s.writableAttached } :=
      steady_of_clients ⟨rfl, rfl, rfl, rfl⟩ rfl
    exact hset.trans (foldl_steady (fun _ _ => tell_steady (Or.inl rfl)) _ _
      fun c hc => introduced_of_chosen (s := s) hc)

theorem applySize_steady (size : PtySize) : s.Steady (s.applySize P size).1 := by
  unfold Server.applySize Server.call
  dsimp only
  split
  · exact .refl s
  · split <;> exact steady_of_clients ⟨rfl, rfl, rfl, rfl⟩ rfl

/-! ### The invariant -/

/-- The clients are keyed once each, by identities given out so far, and every one is up to date. -/
structure Inv (s : Server τ) : Prop where
  nodup : s.ids.Nodup
  known : ∀ c, c ∈ s.ids ↔ (s.clients c).isSome = true
  older : ∀ c ∈ s.ids, c < s.accepted
  good : ∀ c e, s.clients c = some e → e.Good s.log s.produced

theorem Steady.inv (h : s.Steady s') (hs : s.Inv) : s'.Inv := by
  refine ⟨h.ids ▸ hs.nodup, fun c => ?_, fun c hc => ?_, fun c e' he' => ?_⟩
  · rw [h.ids, hs.known]
    have hd := h.clients c
    generalize s.clients c = a at hd
    generalize s'.clients c = b at hd
    cases hd <;> simp
  · rw [h.accepted]
    exact hs.older c (h.ids ▸ hc)
  · have hd := h.clients c
    rw [he'] at hd
    generalize hc : s.clients c = a at hd
    cases hd with
    | some hr =>
      rw [h.log, h.produced]
      exact hr.2 (hs.good c _ hc)

theorem Inv.congr (hs : s.Inv) (h : s.Stays s') (hc : s'.clients = s.clients) : s'.Inv :=
  (steady_of_clients h hc).inv hs

theorem Inv.dropClient (hs : s.Inv) (c : ClientId) : (s.dropClient P c).Inv := by
  have hdropped : Server.Inv { s with clients := Function.update s.clients c none,
                                      ids := s.ids.filter (· ≠ c) } := by
    refine ⟨hs.nodup.filter _, fun d => ?_, fun d hd => hs.older d (List.mem_filter.mp hd).1,
      fun d e he => ?_⟩
    · by_cases hd : d = c
      · subst hd
        simp
      · simp [hd, hs.known d]
    · by_cases hd : d = c
      · subst hd
        simp at he
      · simp only [Function.update_of_ne hd] at he
        exact hs.good d e he
  unfold Server.dropClient
  dsimp only
  set told := reportAttached P { s with clients := Function.update s.clients c none,
                                        ids := s.ids.filter (· ≠ c) } with htold
  have hrest : Server.Inv { told with resizes := told.resizes.filter (·.1 ≠ c) } :=
    (reportAttached_steady.inv hdropped).congr ⟨rfl, rfl, rfl, rfl⟩ rfl
  split
  · split
    · split
      · exact (resyncWhere_steady _).inv ((applySize_steady _).inv hrest)
      · exact (applySize_steady _).inv hrest
    · exact hrest
  · exact hrest

theorem Inv.onStalled (hs : s.Inv) (c : ClientId) : (s.onStalled P c).Inv := by
  unfold Server.onStalled
  split
  · next role hrole =>
    refine (resync_steady fun e he hnone => ?_).inv hs
    simp [roleOf, he, hnone] at hrole
  · exact hs.dropClient c

theorem Inv.send (hs : s.Inv) (hm : s.Harmless m)
    (hc : m.isNeutral = false → s.Introduced c) : (s.send P c m).Inv := by
  have hoffer := (offer_steady (P := P) hm hc).inv hs
  unfold Server.send
  dsimp only
  split
  · exact hoffer
  · exact hoffer.onStalled c

theorem Inv.reject (hs : s.Inv) (c : ClientId) (reason : RejectReason) : (s.reject P c reason).Inv :=
  hs.send (Or.inl rfl) fun h => nomatch h

/-! ### Broadcasts -/

/-- Offering a frame to clients one after the other: each takes it or is left as it was, and is then
among the stalled. -/
theorem offers_spec (m : HolderMessage) : ∀ (cs : List ClientId) (s : Server τ), cs.Nodup →
    s.Stays (offers P m s cs).1 ∧ (∀ c ∈ (offers P m s cs).2, c ∈ cs) ∧
    (∀ d, d ∉ cs → (offers P m s cs).1.clients d = s.clients d) ∧
    (∀ c ∈ (offers P m s cs).2, (s.clients c).isSome = true) ∧
    ∀ d ∈ cs, Option.Rel (fun e e' => e'.role = e.role ∧
      e'.put = if d ∈ (offers P m s cs).2 then e.put else e.put ++ [s.stamp m])
      (s.clients d) ((offers P m s cs).1.clients d)
  | [], s, _ => ⟨.refl s, (fun _ hc => nomatch hc), fun _ _ => rfl, (fun _ hc => nomatch hc),
      (fun _ hd => nomatch hd)⟩
  | c :: cs, s, hnodup => by
    obtain ⟨hc, hnodup⟩ := List.nodup_cons.mp hnodup
    have hoffer := offer_touches (s := s) (P := P) c m
    obtain ⟨hstays, hsub, hothers, hthere, hrel⟩ := offers_spec m cs (s.offer P c m).1 hnodup
    have hmem : ∀ d, d ∈ (offers P m s (c :: cs)).2 ↔
        (d = c ∧ (s.offer P c m).2 = false) ∨ d ∈ (offers P m (s.offer P c m).1 cs).2 := by
      intro d
      simp only [offers]
      cases (s.offer P c m).2 <;> simp
    have hlast : (offers P m s (c :: cs)).1 = (offers P m (s.offer P c m).1 cs).1 := rfl
    have hmissed : (s.offer P c m).2 = false → (s.clients c).isSome = true := by
      intro hnot
      unfold Server.offer at hnot
      cases hcl : s.clients c with
      | none => simp [hcl] at hnot
      | some e => rfl
    rw [hlast]
    refine ⟨hoffer.stays.trans hstays, fun d hd => ?_, fun d hd => ?_, fun d hd => ?_,
      fun d hd => ?_⟩
    · rcases (hmem d).mp hd with ⟨rfl, -⟩ | hd
      · exact List.mem_cons_self ..
      · exact List.mem_cons_of_mem _ (hsub d hd)
    · rw [List.mem_cons, not_or] at hd
      rw [hothers d hd.2, hoffer.others d hd.1]
    · rcases (hmem d).mp hd with ⟨rfl, hnot⟩ | hd
      · exact hmissed hnot
      · have hne : d ≠ c := fun h => hc (h ▸ hsub d hd)
        rw [← hoffer.others d hne]
        exact hthere d hd
    · by_cases hdc : d = c
      · subst hdc
        rw [hothers d hc]
        refine rel_imp hoffer.touched fun e e' _ hr => ⟨hr.1, ?_⟩
        have hiff : d ∈ (offers P m s (d :: cs)).2 ↔ (s.offer P d m).2 = false := by
          have hnot : d ∉ (offers P m (s.offer P d m).1 cs).2 := fun h => hc (hsub d h)
          simp [hmem, hnot]
        cases ht : (s.offer P d m).2 with
        | true => simpa [hiff, ht] using hr.2
        | false => simpa [hiff, ht] using hr.2
      · rcases List.mem_cons.mp hd with rfl | hd
        · exact absurd rfl hdc
        · have hr := hrel d hd
          rw [hoffer.others d hdc, hoffer.stays.stamp] at hr
          refine rel_imp hr fun e e' _ hr => ⟨hr.1, hr.2.trans ?_⟩
          simp [hmem, hdc]

theorem resyncs_spec : ∀ (cs : List ClientId) (s : Server τ), (∀ c ∈ cs, s.Introduced c) →
    s.Stays (cs.foldl (fun s c => s.resync P c) s) ∧
    (∀ d, d ∉ cs → (cs.foldl (fun s c => s.resync P c) s).clients d = s.clients d) ∧
    ∀ d ∈ cs, Option.Rel (fun e e' => e'.role = e.role ∧
      (e.Sound s.log → e'.Good s.log s.produced)) (s.clients d)
      ((cs.foldl (fun s c => s.resync P c) s).clients d)
  | [], s, _ => ⟨.refl s, fun _ _ => rfl, (fun _ hd => nomatch hd)⟩
  | c :: cs, s, h => by
    have hintro := h c (List.mem_cons_self ..)
    have htouch := resync_touches (s := s) (P := P) c
    have hfirst := fun e (e' : Client) (he : s.clients c = some e) hr (hsound : e.Sound s.log) =>
      (resync_good hsound (hintro e he) hr : e'.Good s.log s.produced)
    obtain ⟨hstays, hothers, hrel⟩ := resyncs_spec cs (s.resync P c) fun d hd =>
      (resync_steady hintro).introduced (h d (List.mem_cons_of_mem _ hd))
    rw [htouch.stays.log, htouch.stays.produced] at hrel
    refine ⟨htouch.stays.trans hstays, fun d hd => ?_, fun d hd => ?_⟩
    · rw [List.mem_cons, not_or] at hd
      exact (hothers d hd.2).trans (htouch.others d hd.1)
    · show Option.Rel _ _ ((cs.foldl (fun s c => s.resync P c) (s.resync P c)).clients d)
      by_cases hin : d ∈ cs
      · by_cases hdc : d = c
        · subst hdc
          exact rel_trans htouch.touched (hrel d hin) fun e e' e'' he hr hr' =>
            ⟨hr'.1.trans hr.1, fun hsound => hr'.2 (hfirst e e' he hr hsound).1⟩
        · rw [← htouch.others d hdc]
          exact hrel d hin
      · rcases List.mem_cons.mp hd with rfl | hd
        · rw [hothers d hin]
          exact rel_imp htouch.touched fun e e' he hr => ⟨hr.1, hfirst e e' he hr⟩
        · exact absurd hd hin

/-- Stalled clients that have said hello are resynced, never dropped. -/
theorem foldl_onStalled : ∀ (cs : List ClientId) (s : Server τ),
    (∀ c ∈ cs, s.Introduced c ∧ (s.clients c).isSome = true) →
    cs.foldl (fun s c => s.onStalled P c) s = cs.foldl (fun s c => s.resync P c) s
  | [], _, _ => rfl
  | c :: cs, s, h => by
    obtain ⟨hintro, hthere⟩ := h c (List.mem_cons_self ..)
    obtain ⟨e, he⟩ := Option.isSome_iff_exists.mp hthere
    have hresync : s.onStalled P c = s.resync P c := by
      obtain ⟨role, hrole⟩ := Option.ne_none_iff_exists'.mp (hintro e he)
      simp [Server.onStalled, roleOf, he, hrole]
    have hsteady := resync_steady (P := P) hintro
    rw [List.foldl_cons, List.foldl_cons, hresync]
    refine foldl_onStalled cs _ fun d hd => ?_
    obtain ⟨hd1, hd2⟩ := h d (List.mem_cons_of_mem _ hd)
    refine ⟨hsteady.introduced hd1, ?_⟩
    have hrel := hsteady.clients d
    generalize s.clients d = a at hrel hd2
    generalize (s.resync P c).clients d = b at hrel
    cases hrel with
    | none => exact hd2
    | some _ => rfl

/-- What a broadcast leaves of a client that takes it: up to date, if it was sound and the frame
would have made it so. -/
def Reached (s : Server τ) (takes : ClientRole → Bool) (m : HolderMessage) (e e' : Client) : Prop :=
  e'.role = e.role ∧ (e.role.any takes = false → e' = e) ∧
  (e.role.any takes = true → e.Sound s.log →
    (∀ e₁ : Client, e₁.role = e.role → e₁.put = e.put ++ [s.stamp m] → e₁.Good s.log s.produced) →
    e'.Good s.log s.produced)

theorem broadcastTo_spec (hnodup : s.ids.Nodup)
    (hknown : ∀ c, (s.clients c).isSome = true → c ∈ s.ids) (takes : ClientRole → Bool)
    (m : HolderMessage) : s.Stays (s.broadcastTo P takes m) ∧
      ∀ d, Option.Rel (s.Reached takes m) (s.clients d) ((s.broadcastTo P takes m).clients d) := by
  have hchosen : (s.chosen takes).Nodup := hnodup.filter _
  obtain ⟨hstays, hsub, hothers, hthere, hrel⟩ := offers_spec (P := P) m _ s hchosen
  set sent := (offers P m s (s.chosen takes)).1 with hsent
  set stalled := (offers P m s (s.chosen takes)).2 with hstalled
  have hintro : ∀ c ∈ stalled, sent.Introduced c ∧ (sent.clients c).isSome = true := by
    intro c hc
    have hr := hrel c (hsub c hc)
    have hs := introduced_of_chosen (hsub c hc)
    have hsome := hthere c hc
    unfold Introduced at hs ⊢
    generalize s.clients c = a at hr hs hsome
    generalize sent.clients c = b at hr
    cases hr with
    | none => cases hsome
    | some hr =>
      refine ⟨fun e' he' => ?_, rfl⟩
      obtain rfl := Option.some.inj he'
      rw [hr.1]
      exact hs _ rfl
  obtain ⟨hstays', hothers', hrel'⟩ := resyncs_spec (P := P) stalled sent fun c hc => (hintro c hc).1
  have hbroadcast : s.broadcastTo P takes m = stalled.foldl (fun s c => s.resync P c) sent :=
    foldl_onStalled stalled sent hintro
  rw [hbroadcast]
  refine ⟨hstays.trans hstays', fun d => ?_⟩
  by_cases hd : d ∈ s.chosen takes
  · have htakes : ∀ e, s.clients d = some e → e.role.any takes = true := by
      intro e he
      simpa [roleOf, he] using (List.mem_filter.mp hd).2
    have hr := hrel d hd
    by_cases hin : d ∈ stalled
    · have hr' := hrel' d hin
      rw [hstays.log, hstays.produced] at hr'
      refine rel_trans hr hr' fun e e' e'' he h h' => ⟨h'.1.trans h.1, ?_, ?_⟩
      · intro hno
        rw [htakes e he] at hno
        cases hno
      · intro _ hsound _
        exact h'.2 (hsound.congr h.1 (by simpa [hin] using h.2))
    · rw [hothers' d hin]
      refine rel_imp hr fun e e' he h => ⟨h.1, ?_, ?_⟩
      · intro hno
        rw [htakes e he] at hno
        cases hno
      · intro _ _ hpushed
        exact hpushed e' h.1 (by simpa [hin] using h.2)
  · rw [hothers' d fun hin => hd (hsub d hin), hothers d hd]
    have hno : ∀ e, s.clients d = some e → e.role.any takes = false := by
      intro e he
      cases hany : e.role.any takes with
      | false => rfl
      | true =>
        refine absurd (List.mem_filter.mpr ⟨hknown d (by simp [he]), ?_⟩) hd
        simpa [roleOf, he] using hany
    cases he : s.clients d with
    | none => exact .none
    | some e =>
      refine .some ⟨rfl, fun _ => rfl, fun hyes => ?_⟩
      rw [hno e he] at hyes
      cases hyes

theorem Inv.broadcastTo (hs : s.Inv) (takes : ClientRole → Bool)
    (hm : m.isNeutral = true) : (s.broadcastTo P takes m).Inv := by
  obtain ⟨hstays, hrel⟩ := broadcastTo_spec (P := P) hs.nodup (fun c => (hs.known c).mpr) takes m
  refine Steady.inv ⟨hstays, fun d => rel_imp (hrel d) fun e e' he hr => ⟨hr.1, fun hg => ?_⟩⟩ hs
  cases hany : e.role.any takes with
  | false => rwa [hr.2.1 hany]
  | true =>
    exact hr.2.2 hany hg.1 fun e₁ hrole hput =>
      Harmless.good (Or.inl hm) (fun h => by rw [hm] at h; cases h) hg hrole hput

end Server

end Muster.Holder
