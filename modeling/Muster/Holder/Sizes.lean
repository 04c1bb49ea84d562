import Muster.Holder.Served
import Muster.Lib.Latest

/-!
# Sizes — whose size is in force

The PTY's size is the one it last accepted and the emulator was last given.  As long as it refuses
none, it is the size most recently asked for among the clients still connected: a drop of the client
it came from falls back to the one asked for before.
-/

namespace Muster.Holder

open Muster.Log
open Muster.Supervisor (ExitOutcome)

/-- A size the PTY took: a resize its handle agreed to. -/
def granted : ChildCall × Bool → Option PtySize
  | (.resize size, true) => some size
  | _ => none

def grants (outcomes : List Bool) (calls : List ChildCall) : List PtySize :=
  (calls.zip outcomes).filterMap granted

/-- The PTY refused no resize. -/
def Unrefused (outcomes : List Bool) (calls : List ChildCall) : Prop :=
  ∀ (i : ℕ) (size : PtySize), calls[i]? = some (ChildCall.resize size) → outcomes[i]? = some true

/-- `shown` reads the size the emulator was last given: setting it sets it, and the child's output
leaves it. -/
structure Platform.Shows {τ : Type} (P : Platform τ) (shown : τ → PtySize) : Prop where
  setSize : ∀ t size, shown (P.setSize t size) = size
  process : ∀ t bytes, shown (P.process t bytes).terminal = shown t

theorem zip_concat {α β : Type*} : ∀ (as : List α) (a : α) (bs : List β),
    (as ++ [a]).zip bs = as.zip bs ++ [a].zip (bs.drop as.length)
  | [], _, _ => by simp
  | _ :: _, _, [] => by simp
  | _ :: as, a, _ :: bs => by simp [zip_concat as a bs]

theorem Unrefused.before {outcomes : List Bool} {calls : List ChildCall} {c : ChildCall}
    (h : Unrefused outcomes (calls ++ [c])) : Unrefused outcomes calls := by
  intro i size hi
  refine h i size ?_
  rw [List.getElem?_append_left (List.getElem?_eq_some_iff.1 hi).1]
  exact hi

theorem grants_concat (outcomes : List Bool) (calls : List ChildCall) (c : ChildCall) :
    grants outcomes (calls ++ [c]) =
      grants outcomes calls ++ ([c].zip (outcomes.drop calls.length)).filterMap granted := by
  unfold grants
  rw [zip_concat, List.filterMap_append]

namespace Server

variable {τ : Type} {P : Platform τ} {s s' : Server τ} {shown : τ → PtySize}

/-- The requests a message makes: those of a client that may resize. -/
def asks (s : Server τ) : HolderEvent → List (ClientId × PtySize)
  | .message c (.resize size) =>
    if (s.roleOf c).any ClientRole.writable then [(c, size)] else []
  | _ => []

def requests (P : Platform τ) : Server τ → List HolderEvent → List (ClientId × PtySize)
  | _, [] => []
  | s, ev :: evs => s.asks ev ++ requests P (s.step P ev) evs

structure Fit (shown : τ → PtySize) (first : PtySize) (outcomes : List Bool) (s : Server τ) :
    Prop where
  ahead : s.outcomes = outcomes.drop s.calls.length
  taken : s.size = (grants outcomes s.calls).getLastD first
  drawn : shown s.terminal = s.size

/-- The requests kept are the last of each connected client, and the most recent of them is in force
unless some resize was refused. -/
structure Sized (shown : τ → PtySize) (first : PtySize) (outcomes : List Bool)
    (asked : List (ClientId × PtySize)) (s : Server τ) : Prop extends Fit shown first outcomes s where
  older : ∀ a ∈ asked, a.1 < s.accepted
  kept : s.resizes = latest (asked.filter fun a => (s.clients a.1).isSome)
  inForce : Unrefused outcomes s.calls → ∀ a, s.resizes.getLast? = some a → s.size = a.2

structure Still (shown : τ → PtySize) (s s' : Server τ) : Prop where
  size : s'.size = s.size
  terminal : shown s'.terminal = shown s.terminal
  resizes : s'.resizes = s.resizes
  calls : s'.calls = s.calls
  outcomes : s'.outcomes = s.outcomes
  accepted : s'.accepted = s.accepted
  there : ∀ c, (s'.clients c).isSome = (s.clients c).isSome

theorem Still.refl (s : Server τ) : Still shown s s := ⟨rfl, rfl, rfl, rfl, rfl, rfl, fun _ => rfl⟩

theorem Still.trans {s'' : Server τ} (h : Still shown s s') (h' : Still shown s' s'') :
    Still shown s s'' :=
  ⟨h'.size.trans h.size, h'.terminal.trans h.terminal, h'.resizes.trans h.resizes,
    h'.calls.trans h.calls, h'.outcomes.trans h.outcomes, h'.accepted.trans h.accepted,
    fun c => (h'.there c).trans (h.there c)⟩

theorem Told.still (h : s.Told s') : Still shown s s' := by
  obtain ⟨⟨_, _, _, rfl⟩, hthere⟩ := h
  exact ⟨rfl, rfl, rfl, rfl, rfl, rfl, hthere⟩

section

variable {first : PtySize} {outcomes : List Bool} {asked : List (ClientId × PtySize)} {c : ClientId}

theorem Sized.still (h : Sized shown first outcomes asked s) (hs : Still shown s s') :
    Sized shown first outcomes asked s' where
  ahead := by rw [hs.outcomes, hs.calls]; exact h.ahead
  taken := by rw [hs.size, hs.calls]; exact h.taken
  drawn := by rw [hs.terminal, hs.size]; exact h.drawn
  older := by rw [hs.accepted]; exact h.older
  kept := by
    simp only [hs.resizes, hs.there]
    exact h.kept
  inForce := by rw [hs.calls, hs.resizes, hs.size]; exact h.inForce

/-! ### Calls -/

theorem Fit.congr (h : Fit shown first outcomes s) (hsize : s'.size = s.size)
    (hterminal : s'.terminal = s.terminal) (hcalls : s'.calls = s.calls)
    (houtcomes : s'.outcomes = s.outcomes) : Fit shown first outcomes s' :=
  ⟨by rw [houtcomes, hcalls]; exact h.ahead, by rw [hsize, hcalls]; exact h.taken,
    by rw [hterminal, hsize]; exact h.drawn⟩

theorem Fit.call (h : Fit shown first outcomes s) {c : ChildCall}
    (hc : ∀ answer, granted (c, answer) = none) : Fit shown first outcomes (s.call c).1 where
  ahead := by
    show s.outcomes.tail = outcomes.drop (s.calls ++ [c]).length
    rw [h.ahead, List.tail_drop, List.length_append]
    rfl
  taken := by
    have hnone : ([c].zip (outcomes.drop s.calls.length)).filterMap granted = [] := by
      cases outcomes.drop s.calls.length with
      | nil => rfl
      | cons answer _ => simp [hc]
    show s.size = (grants outcomes (s.calls ++ [c])).getLastD first
    rw [grants_concat, hnone, List.append_nil]
    exact h.taken
  drawn := h.drawn

theorem Sized.call (h : Sized shown first outcomes asked s) {c : ChildCall}
    (hc : ∀ answer, granted (c, answer) = none) : Sized shown first outcomes asked (s.call c).1 where
  toFit := h.toFit.call hc
  older := h.older
  kept := h.kept
  inForce := fun hall => h.inForce hall.before

/-- A size applied: unless it was refused it is in force. -/
theorem Fit.applySize (hshows : P.Shows shown)
    (h : Fit shown first outcomes s) (z : PtySize) :
    Fit shown first outcomes (s.applySize P z).1 ∧
      (Unrefused outcomes (s.applySize P z).1.calls →
        Unrefused outcomes s.calls ∧ (s.applySize P z).1.size = z) := by
  unfold Server.applySize
  split
  · next hsame => exact ⟨h, fun hall => ⟨hall, hsame.symm⟩⟩
  · dsimp only [Server.call]
    have hahead : s.outcomes.tail = outcomes.drop (s.calls ++ [ChildCall.resize z]).length := by
      rw [h.ahead, List.tail_drop, List.length_append]
      rfl
    split
    · next haccepted =>
      -- the answer at hand is the one the new call gets
      obtain ⟨rest, hrest⟩ : ∃ rest, outcomes.drop s.calls.length = true :: rest := by
        rw [h.ahead] at haccepted
        match hdrop : outcomes.drop s.calls.length with
        | [] => simp [hdrop] at haccepted
        | answer :: rest =>
          rw [hdrop] at haccepted
          exact ⟨rest, by rw [show answer = true from haccepted]⟩
      refine ⟨⟨hahead, ?_, hshows.setSize _ _⟩, fun hall => ⟨hall.before, rfl⟩⟩
      show z = (grants outcomes (s.calls ++ [ChildCall.resize z])).getLastD first
      rw [grants_concat, hrest]
      simp [granted]
    · next hrefused =>
      refine ⟨⟨hahead, ?_, h.drawn⟩, fun hall => ?_⟩
      · show s.size = (grants outcomes (s.calls ++ [ChildCall.resize z])).getLastD first
        have hnone : ([ChildCall.resize z].zip (outcomes.drop s.calls.length)).filterMap granted =
            [] := by
          rw [h.ahead] at hrefused
          match hdrop : outcomes.drop s.calls.length with
          | [] => rfl
          | answer :: rest =>
            rw [hdrop] at hrefused
            simp only [List.headD_cons, Bool.not_eq_true] at hrefused
            simp [hrefused, granted]
        rw [grants_concat, hnone, List.append_nil]
        exact h.taken
      · have htrue := hall s.calls.length z (by simp)
        rw [h.ahead, List.headD_eq_head?_getD, List.head?_drop, htrue] at hrefused
        exact absurd rfl hrefused

/-! ### Drops -/

theorem applySize_clients (z : PtySize) : (s.applySize P z).1.clients = s.clients ∧
    (s.applySize P z).1.resizes = s.resizes ∧ (s.applySize P z).1.accepted = s.accepted := by
  obtain ⟨size, terminal, calls, outcomes, heq⟩ := applySize_frame P s z
  rw [heq]
  exact ⟨rfl, rfl, rfl⟩

/-- A client's requests forgotten: what is left in force is the most recent of the others. -/
theorem Sized.fallback (hshows : P.Shows shown) (hs : s.Rests)
    (hfit : Fit shown first outcomes s) (older : ∀ a ∈ asked, a.1 < s.accepted)
    (hkept : s.resizes.filter (·.1 ≠ c) = latest (asked.filter fun a => (s.clients a.1).isSome))
    (hin : Unrefused outcomes s.calls → ∀ a, s.resizes.getLast? = some a → s.size = a.2) :
    Sized shown first outcomes asked (s.fallback P c) := by
  set rest : Server τ := { s with resizes := s.resizes.filter (·.1 ≠ c) } with hrest
  have hrests : rest.Rests := hs.of_eq rfl
  have hfit' : Fit shown first outcomes rest := ⟨hfit.ahead, hfit.taken, hfit.drawn⟩
  unfold Server.fallback
  dsimp only
  split
  · next d z hlast =>
    split
    · -- the size of the client that left was in force
      obtain ⟨hsized, hgranted⟩ := hfit'.applySize hshows z
      obtain ⟨hclients, hresizes, haccepted⟩ := applySize_clients (s := rest) (P := P) z
      have happlied : Sized shown first outcomes asked (rest.applySize P z).1 := by
        refine ⟨hsized, by rw [haccepted]; exact older, ?_, fun hall a ha => ?_⟩
        · simp only [hclients, hresizes]
          exact hkept
        · have hz := (hgranted hall).2
          rw [hresizes] at ha
          obtain rfl := Option.some.inj (hlast.symm.trans ha)
          exact hz
      split
      · exact happlied.still ((hrests.applySize z).told_resyncWhere _).still
      · exact happlied
    · next hother =>
      refine ⟨hfit', older, hkept, fun hall a ha => ?_⟩
      -- the most recent request is another client's, so it stands
      match hs' : s.resizes.getLast? with
      | none => simp [List.getLast?_eq_none_iff.1 hs'] at ha
      | some b =>
        have hb : b.1 ≠ c := fun h => hother (by rw [hs', ← h]; rfl)
        obtain ⟨before, hbefore⟩ := List.getLast?_eq_some_iff.1 hs'
        have hlast' : (s.resizes.filter (·.1 ≠ c)).getLast? = some b := by
          rw [hbefore, List.filter_append]
          simp [hb]
        obtain rfl := Option.some.inj (hlast'.symm.trans ha)
        exact hin hall b hs'
  · next hnone =>
    refine ⟨hfit', older, hkept, fun _ a ha => ?_⟩
    exact absurd (hnone.symm.trans ha) (by simp)

theorem Sized.dropClient (hshows : P.Shows shown) (hs : s.Settled)
    (h : Sized shown first outcomes asked s) (c : ClientId) :
    Sized shown first outcomes asked (s.dropClient P c) := by
  have hremoved := hs.remove c
  have hstill : Still shown _ _ := (hremoved.told_reportAttached (P := P)).still
  rw [dropClient_eq]
  refine Sized.fallback hshows hremoved.reportAttached ?_ ?_ ?_ ?_
  · exact ⟨by rw [hstill.outcomes, hstill.calls]; exact h.ahead,
      by rw [hstill.size, hstill.calls]; exact h.taken,
      by rw [hstill.terminal, hstill.size]; exact h.drawn⟩
  · rw [hstill.accepted]
    exact h.older
  · have hthere : ∀ d, ((s.remove c).clients d).isSome =
        (decide (d ≠ c) && (s.clients d).isSome) := by
      intro d
      by_cases hd : d = c <;> simp [Server.remove, hd]
    simp only [hstill.resizes, hstill.there, hthere]
    show s.resizes.filter (·.1 ≠ c) = _
    rw [h.kept, ← latest_filter (fun d => decide (d ≠ c)), List.filter_filter]
  · rw [hstill.calls, hstill.resizes, hstill.size]
    exact h.inForce

/-! ### Messages -/

theorem Sized.send (hshows : P.Shows shown) (hs : s.Rests)
    (h : Sized shown first outcomes asked s) (c : ClientId) (m : HolderMessage) :
    Sized shown first outcomes asked (s.send P c m) := by
  by_cases hintro : s.Introduced c
  · rw [send_eq_tell hintro, hs.tell_eq]
    exact h.still (told_mapAt _).still
  · unfold Introduced at hintro
    push Not at hintro
    obtain ⟨e, he, hrole⟩ := hintro
    have hoffered : (s.mapAt fun d e => if d = c then (s.scene P).offered P m e else e).Rests :=
      hs.mapAt fun d e => by split <;> rfl
    rw [send_unintroduced he hrole]
    split
    · exact h.still (told_mapAt _).still
    · exact (h.still (told_mapAt _).still).dropClient hshows hoffered.toSettled c

theorem Sized.ask (hshows : P.Shows shown)
    (h : Sized shown first outcomes asked s) (hthere : (s.clients c).isSome = true)
    (hold : c < s.accepted) (z : PtySize) :
    Sized shown first outcomes (asked ++ [(c, z)]) ((s.asked c z).applySize P z).1 := by
  have hfit : Fit shown first outcomes (s.asked c z) := ⟨h.ahead, h.taken, h.drawn⟩
  obtain ⟨hsized, hgranted⟩ := hfit.applySize hshows z
  obtain ⟨hclients, hresizes, haccepted⟩ := applySize_clients (s := s.asked c z) (P := P) z
  refine ⟨hsized, fun a ha => ?_, ?_, fun hall a ha => ?_⟩
  · rw [haccepted]
    rcases List.mem_append.1 ha with ha | ha
    · exact h.older a ha
    · rw [List.mem_singleton.1 ha]
      exact hold
  · have hfilter : (asked ++ [(c, z)]).filter (fun a => (s.clients a.1).isSome) =
        asked.filter (fun a => (s.clients a.1).isSome) ++ [(c, z)] := by simp [hthere]
    simp only [hclients, hresizes]
    show s.resizes.filter (·.1 ≠ c) ++ [(c, z)] =
      latest ((asked ++ [(c, z)]).filter fun a => (s.clients a.1).isSome)
    rw [hfilter, latest_concat, ← h.kept]
  · have hz := (hgranted hall).2
    rw [hresizes] at ha
    have hlast : (s.asked c z).resizes.getLast? = some (c, z) := List.getLast?_concat
    obtain rfl := Option.some.inj (hlast.symm.trans ha)
    exact hz

theorem Sized.runControl (h : Sized shown first outcomes asked s) (control : HolderControl) :
    Sized shown first outcomes asked (s.runControl control).1 := by
  cases control with
  | terminate signal grace =>
    have hcall := h.call (c := .terminate signal grace) fun _ => rfl
    unfold Server.runControl
    dsimp only
    split
    · exact hcall.still ⟨rfl, rfl, rfl, rfl, rfl, rfl, fun _ => rfl⟩
    · exact hcall
  | pause => exact h.call fun _ => rfl
  | resume => exact h.call fun _ => rfl
  | kill => exact h.call fun _ => rfl

theorem Sized.evict (hshows : P.Shows shown) (hs : s.Rests)
    (h : Sized shown first outcomes asked s) : Sized shown first outcomes asked (s.evict P) := by
  have hmarked : ({ s with supervised := true } : Server τ).Rests :=
    hs.of_eq rfl
  have h' : Sized shown first outcomes asked { s with supervised := true } :=
    h.still ⟨rfl, rfl, rfl, rfl, rfl, rfl, fun _ => rfl⟩
  unfold Server.evict
  dsimp only
  rcases hmarked.supervisors with hnone | ⟨d, -, hone⟩
  · rw [hnone]
    exact h'
  · rw [hone]
    exact h'.dropClient hshows hmarked.toSettled d

theorem Sized.onHello (hshows : P.Shows shown) (hs : s.Rests)
    (h : Sized shown first outcomes asked s)
    (hnew : ∀ e, s.clients c = some e → e.role = none) (role : ClientRole) :
    Sized shown first outcomes asked (s.onHello P c role) := by
  rw [onHello_eq]
  split
  · exact (h.evict hshows hs).still (hs.evict.1.told_introduce (fun e => role_of_evict hnew) role).still
  · exact h.still (hs.told_introduce hnew role).still

theorem Sized.onMessage (hshows : P.Shows shown) (hs : s.Rests) (hinv : s.Inv)
    (h : Sized shown first outcomes asked s) (c : ClientId) (m : ClientMessage) :
    Sized shown first outcomes (asked ++ s.asks (.message c m)) (s.onMessage P c m) := by
  cases he : s.clients c with
  | none =>
    have hasks : s.asks (.message c m) = [] := by
      cases m <;> simp [asks, roleOf, he]
    unfold Server.onMessage
    rw [he, hasks, List.append_nil]
    exact h
  | some e =>
    have hroleOf : s.roleOf c = e.role := by simp [roleOf, he]
    have hother : (∀ size, m = .resize size → e.role.any ClientRole.writable = false) →
        s.asks (.message c m) = [] := by
      intro hm
      cases m with
      | resize size => simp [asks, hroleOf, hm size rfl]
      | _ => rfl
    refine onMessage_cases he (fun hrole role hm => ?_) (fun hm reason => ?_) (fun bytes hm _ => ?_)
      (fun size hm hwritable => ?_) (fun control hm _ => ?_) fun hm _ _ => ?_
    · subst hm
      rw [hother (fun _ h => by cases h), List.append_nil]
      refine h.onHello hshows hs (fun e' he' => ?_) role
      rw [he] at he'
      rwa [← Option.some.inj he']
    · rw [hother hm, List.append_nil]
      exact h.send hshows hs c _
    · subst hm
      have hrests : (s.pushInput bytes).1.Rests :=
        hs.of_eq rfl
      have hpushed : Sized shown first outcomes asked (s.pushInput bytes).1 :=
        h.still ⟨rfl, rfl, rfl, rfl, rfl, rfl, fun _ => rfl⟩
      rw [hother (fun _ h => by cases h), List.append_nil]
      exact ⟨hpushed, hpushed.send hshows hrests c _⟩
    · subst hm
      have hthere : (s.clients c).isSome = true := by simp [he]
      have hasks : s.asks (.message c (.resize size)) = [(c, size)] := by
        simp [asks, hroleOf, hwritable]
      have hasked : (s.asked c size).Rests :=
        hs.of_eq rfl
      have hrests := hasked.applySize (P := P) size
      have hsized := h.ask hshows hthere (hinv.older c ((hinv.known c).2 hthere)) size
      rw [hasks]
      exact ⟨fun _ => hsized.still (hrests.told_resyncWhere _).still, fun _ => hsized,
        fun _ => hsized.send hshows hrests c _⟩
    · subst hm
      have hcontrolled := h.runControl control
      rw [hother (fun _ h => by cases h), List.append_nil]
      exact ⟨hcontrolled, hcontrolled.send hshows (hs.runControl control) c _⟩
    · subst hm
      rw [hother (fun _ h => by cases h), List.append_nil]
      exact h.still ⟨rfl, rfl, rfl, rfl, rfl, rfl, fun _ => rfl⟩

/-! ### Every event -/

theorem Rests.still_onOutput (hshows : P.Shows shown) (hs : s.Rests) (bytes : Bytes) (held : Held)
    (failed : Bool) : Still shown s (s.onOutput P bytes held failed) := by
  have hlogged : Still shown s (s.logOutput P bytes held) := by
    obtain ⟨input, habsorb⟩ := absorb_frame P s bytes
    unfold Server.logOutput
    rw [habsorb]
    exact ⟨rfl, hshows.process _ _, rfl, rfl, rfl, rfl, fun _ => rfl⟩
  exact hlogged.trans (hs.told_onOutput bytes held failed).still

theorem Sized.onConnected (h : Sized shown first outcomes asked s) (cloned : Bool)
    (races : List (List (List Move))) :
    Sized shown first outcomes asked (s.onConnected s.accepted cloned races) := by
  have holder : ∀ a ∈ asked, a.1 < s.accepted + 1 := fun a ha => Nat.lt_succ_of_lt (h.older a ha)
  unfold Server.onConnected
  dsimp only
  split
  · refine ⟨h.toFit.congr rfl rfl rfl rfl, holder, ?_, h.inForce⟩
    show s.resizes = _
    rw [h.kept]
    -- no request was the new client's
    refine congrArg latest (List.filter_congr fun a ha => ?_)
    simp [Nat.ne_of_lt (h.older a ha)]
  · exact ⟨h.toFit.congr rfl rfl rfl rfl, holder, h.kept, h.inForce⟩

/-- **One step.** -/
theorem Sized.step (hshows : P.Shows shown) (hs : s.Rests) (hinv : s.Inv)
    (h : Sized shown first outcomes asked s) {ev : HolderEvent} (hev : s.Enabled ev) :
    Sized shown first outcomes (asked ++ s.asks ev) (s.step P ev) := by
  have hstill : ∀ {s' : Server τ}, Still shown s s' → Sized shown first outcomes (asked ++ []) s' :=
    fun hs' => by rw [List.append_nil]; exact h.still hs'
  cases ev with
  | output bytes held failed => exact hstill (hs.still_onOutput hshows bytes held failed)
  | exited outcome =>
    refine hstill ?_
    show Still shown s (s.onExit P outcome)
    rw [hs.onExit_eq]
    exact ⟨rfl, rfl, rfl, rfl, rfl, rfl, fun _ => Option.isSome_map⟩
  | graceElapsed =>
    unfold Server.step
    dsimp only [asks]
    have hcounted : Sized shown first outcomes (asked ++ []) { s with graces := s.graces - 1 } :=
      hstill ⟨rfl, rfl, rfl, rfl, rfl, rfl, fun _ => rfl⟩
    split
    · exact hcounted
    · exact hcounted.call fun _ => rfl
  | supervisorDeadline =>
    unfold Server.step
    dsimp only [asks]
    have hpassed : Sized shown first outcomes (asked ++ []) { s with deadlinePending := false } :=
      hstill ⟨rfl, rfl, rfl, rfl, rfl, rfl, fun _ => rfl⟩
    split
    · exact hpassed
    · split
      · exact hpassed.still ⟨rfl, rfl, rfl, rfl, rfl, rfl, fun _ => rfl⟩
      · exact (hpassed.call (c := .kill) fun _ => rfl).still
          ⟨rfl, rfl, rfl, rfl, rfl, rfl, fun _ => rfl⟩
  | connected c cloned races =>
    obtain rfl : c = s.accepted := hev.2
    dsimp only [asks]
    rw [List.append_nil]
    exact h.onConnected cloned races
  | message c m => exact h.onMessage hshows hs hinv c m
  | disconnected c =>
    dsimp only [asks]
    rw [List.append_nil]
    exact h.dropClient hshows hs.toSettled c
  | writer c move =>
    refine hstill ?_
    simp only [Server.step]
    cases hc : s.clients c with
    | none => exact .refl s
    | some entry =>
      dsimp only
      rw [setClient_eq_mapAt hc fun e => { e with outbox := e.outbox.move move }]
      exact (told_mapAt _).still
  | inputWriter move => exact hstill ⟨rfl, rfl, rfl, rfl, rfl, rfl, fun _ => rfl⟩
  | reorder ids => exact hstill ⟨rfl, rfl, rfl, rfl, rfl, rfl, fun _ => rfl⟩

/-- **Every run.** -/
theorem Sized.play (hshows : P.Shows shown) : ∀ {evs : List HolderEvent} {s : Server τ}
    {asked : List (ClientId × PtySize)}, s.Inv → s.Rests → Sized shown first outcomes asked s →
    (machine P).Plays s evs →
    Sized shown first outcomes (asked ++ requests P s evs) ((machine P).play s evs)
  | [], _, _, _, _, h, _ => by
    rw [requests, List.append_nil]
    exact h
  | ev :: evs, s, asked, hinv, hs, h, ⟨hev, hevs⟩ => by
    have hstep := h.step hshows hs hinv hev
    have hrun := Sized.play hshows (hinv.step hev) (hs.step hinv hev) hstep hevs
    rw [List.append_assoc] at hrun
    exact hrun

end

theorem new_sized {terminal : τ} {size : PtySize} (hshown : shown terminal = size) (pid : ℕ)
    (log : Bytes) (runStart : ℕ) (outcomes : List Bool) (races : List (List (List Move))) :
    Sized shown size outcomes [] (new terminal size pid log runStart outcomes races) where
  ahead := rfl
  taken := rfl
  drawn := hshown
  older := (fun _ h => nomatch h)
  kept := rfl
  inForce := (fun _ _ h => nomatch h)

theorem applySize_refused {z : PtySize} (h : (s.applySize P z).2 = none) :
    (s.applySize P z).1.size = s.size ∧ (s.applySize P z).1.terminal = s.terminal := by
  unfold Server.applySize Server.call at h ⊢
  dsimp only at h ⊢
  split at h
  · cases h
  · next hne =>
    rw [if_neg hne]
    split at h
    · cases h
    · next hrefused =>
      rw [if_neg hrefused]
      exact ⟨rfl, rfl⟩

/-- After every event of every run: there is at most one supervisor; the size is the one the PTY last
took and the emulator was last given, and a refused resize changes neither; the count reported is the
number of writable attach clients, in 32 bits, and the last one the supervisor was told or saw; and
unless the PTY refused some resize, the size is the one most recently asked for among the clients
still connected, if any of them asked. -/
theorem roles_and_sizes (P : Platform τ) (hshows : P.Shows shown) {terminal : τ} {size : PtySize}
    (hshown : shown terminal = size) {pid : ℕ} {log : Bytes} {runStart : ℕ} {outcomes : List Bool}
    {races : List (List (List Move))} {evs : List HolderEvent}
    (hruns : (machine P).Plays (new terminal size pid log runStart outcomes races) evs) :
    let start := new terminal size pid log runStart outcomes races
    let s := (machine P).play start evs
    (∀ c d, s.roleOf c = some .supervisor → s.roleOf d = some .supervisor → c = d) ∧
    (s.size = (grants outcomes s.calls).getLastD size ∧ shown s.terminal = s.size ∧
      ∀ z, (s.applySize P z).2 = none →
        (s.applySize P z).1.size = s.size ∧ (s.applySize P z).1.terminal = s.terminal) ∧
    (s.reportedAttached = min (s.chosen (· = .attach false)).length (2 ^ 32 - 1) ∧
      ∀ c e, s.clients c = some e → e.role = some .supervisor →
        lastCount (e.outbox.taken ++ e.outbox.items.map Prod.fst) = some s.reportedAttached) ∧
    (Unrefused outcomes s.calls → ∀ c z,
      ((requests P start evs).filter fun a => (s.clients a.1).isSome).getLast? = some (c, z) →
      s.size = z) := by
  intro start s
  have hreaches := Machine.reaches_play hruns
  obtain ⟨-, hrests⟩ := rests_of_reaches hreaches
  have hserved := (served_of_reaches hreaches).1
  have hsized := Sized.play hshows (new_inv ..) (new_rests ..)
    (new_sized hshown pid log runStart outcomes races) hruns
  refine ⟨hrests.single, ⟨hsized.taken, hsized.drawn, fun z => applySize_refused⟩,
    ⟨hrests.reported, fun c e he hrole => (hserved c e he).counted hrole⟩, fun hall c z hlast => ?_⟩
  refine hsized.inForce hall (c, z) ?_
  rw [hsized.kept, getLast?_latest]
  exact hlast

def resizable : Platform PtySize where
  process := fun size bytes => ⟨size, false, [], bytes⟩
  setSize := fun _ size => size
  repaint := fun _ => []
  jsonLen := fun _ => 0

def twoTerminals : List HolderEvent :=
  [.connected 0 true [], .message 0 (.hello .supervisor), .connected 1 true [],
    .message 1 (.hello (.attach false)), .connected 2 true [], .message 2 (.hello (.attach false)),
    .message 1 (.resize ⟨30, 100⟩), .message 2 (.resize ⟨20, 70⟩), .disconnected 2]

theorem roles_and_sizes_two_terminals :
    let s := (machine resizable).play (new ⟨24, 80⟩ ⟨24, 80⟩ 7 [] 0 [true, true, true] [])
      twoTerminals
    s.calls = [.resize ⟨30, 100⟩, .resize ⟨20, 70⟩, .resize ⟨30, 100⟩] ∧ s.size = ⟨30, 100⟩ := by
  intro s
  have hall : Unrefused [true, true, true] s.calls := by
    intro i size hi
    have hlength : s.calls.length = 3 := by decide
    have hlt := (List.getElem?_eq_some_iff.1 hi).1
    rw [hlength] at hlt
    match i, hlt with
    | 0, _ => rfl
    | 1, _ => rfl
    | 2, _ => rfl
  have hshows : resizable.Shows id := ⟨fun _ _ => rfl, fun _ _ => rfl⟩
  have hruns : (machine resizable).Plays (new ⟨24, 80⟩ ⟨24, 80⟩ 7 [] 0 [true, true, true] [])
      twoTerminals := by decide
  obtain ⟨-, -, -, hforce⟩ := roles_and_sizes resizable hshows rfl hruns
  exact ⟨by decide, hforce hall 1 ⟨30, 100⟩ (by decide)⟩

end Server

end Muster.Holder
