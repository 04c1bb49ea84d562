import Muster.Events.EventLog
import Muster.Lib.Machine

/-!
# Alerts — what one connection hears of crashes and failures

Each call on a connection reads the mark of its project, fetches a page of the service's log from there
and then takes it: it moves the mark and reports what no other call has.  The three steps of any number
of calls interleave, with events recorded and services restarted in between.  Cursors are compared by
the number of events recorded, under all services, when they were the newest.
-/

namespace Muster.Events

open Config (ProjectRoot)

def maxAlerts : ℕ := 5

def alertKinds : List EventKind := [.crashed, .readyTimeout, .blocked]

structure AlertsView where
  alerts : List StackEvent
  alertsOmitted : Option ℕ
  alertsGap : Option Bool
deriving DecidableEq

def AlertsView.default : AlertsView := ⟨[], none, none⟩

namespace Alerts

/-- Moves the mark: to the page's cursor when no other call moved it since it was read, or further
along the same log. -/
def moved (current readSince : Option EventSeq) (page : EventPage) : Option EventSeq :=
  if current = readSince || current.any (page.cursor.isAfter ·) then some page.cursor else current

/-- The events of a page worth an alert that no other call reported. -/
def worthy (current readSince : Option EventSeq) (page : EventPage) : List StackEvent :=
  let reported := current.filter fun mark => some mark ≠ readSince
  (page.events.filter (·.kind ∈ alertKinds)).filter fun event =>
    reported.all fun mark => event.seq.epoch ≠ mark.epoch || event.seq.isAfter mark

/-- The mark that was left behind for another service's log, until a page of an older one is taken. -/
def leftBehind (current readSince : Option EventSeq) (page : EventPage) (left : Option EventSeq) :
    Option EventSeq :=
  if current.any (·.epoch = page.cursor.epoch) then left
  else if current = readSince then current
  else none

/-- How many of the worthy events are left out: the oldest. -/
def omitted (worthy : List StackEvent) : ℕ := worthy.length - maxAlerts

/-- What a call reports of its page; the first page of a project only sets where alerts start. -/
def view (current readSince : Option EventSeq) (page : EventPage) : AlertsView :=
  if readSince.isNone then .default
  else
    let worthy := worthy current readSince page
    ⟨worthy.drop (omitted worthy), if 0 < omitted worthy then some (omitted worthy) else none,
      if page.gap then some true else none⟩

end Alerts

/-! ### Calls -/

/-- How far a call is: it has read the mark, fetched its page with so many events recorded under all
services, or taken the page at the mark `current`. -/
inductive Call where
  | idle
  | read (since : Option EventSeq)
  | fetched (since : Option EventSeq) (page : EventPage) (heard : ℕ)
  | finished (since : Option EventSeq) (page : EventPage) (heard : ℕ) (current : Option EventSeq)
  | failed

def Call.isIdle : Call → Bool
  | .idle => true
  | _ => false

def Call.isRead : Call → Bool
  | .read _ => true
  | _ => false

def Call.isFetched : Call → Bool
  | .fetched _ _ _ => true
  | _ => false

def Call.isOpen : Call → Bool
  | .finished _ _ _ _ => false
  | _ => true

def Call.view : Call → AlertsView
  | .finished since page _ current => Alerts.view current since page
  | _ => .default

def Call.leftOut : Call → List StackEvent
  | .finished since page _ current =>
    if since.isNone then []
    else
      let worthy := Alerts.worthy current since page
      worthy.take (Alerts.omitted worthy)
  | _ => []

def Call.worthy : Call → List StackEvent
  | .finished (some mark) page _ current => Alerts.worthy current (some mark) page
  | _ => []

theorem Call.mem_worthy {call : Call} {event : StackEvent} :
    event ∈ call.worthy ↔ event ∈ call.view.alerts ∨ event ∈ call.leftOut := by
  cases call with
  | finished since page heard current =>
    cases since with
    | none => simp [worthy, view, leftOut, Alerts.view, AlertsView.default]
    | some mark =>
      simp only [worthy, view, leftOut, Alerts.view, Option.isNone_some, Bool.false_eq_true, if_false]
      rw [or_comm, ← List.mem_append, List.take_append_drop]
  | _ => simp [worthy, view, leftOut, AlertsView.default]

/-- A connection to the service.  The last four fields are history nothing reads: all events recorded
under all services, how many there were as each service's log began, and as the first page to be taken
was fetched, and the mark that was left behind. -/
structure Connection where
  log : EventLog
  mark : Option EventSeq
  calls : ℕ → Call
  history : List StackEvent
  starts : ℕ → Option ℕ
  baseline : Option ℕ
  left : Option EventSeq

namespace Connection

def first (epoch : ℕ) : Connection where
  log := .withEpoch epoch
  mark := none
  calls _ := .idle
  history := []
  starts := Function.update (fun _ => none) epoch (some 0)
  baseline := none
  left := none

inductive Event where
  | begin (call : ℕ)
  | fetch (call : ℕ)
  | fail (call : ℕ)
  | take (call : ℕ)
  | record (draft : EventDraft) (time : ℕ)
  | restart (epoch : ℕ)

variable (project : ProjectRoot) (s : Connection)

@[simp] def setCall (id : ℕ) (call : Call) : Connection :=
  { s with calls := Function.update s.calls id call }

def next : Event → Connection
  | .begin id => s.setCall id (.read s.mark)
  | .fetch id => match s.calls id with
    | .read since => s.setCall id (.fetched since (s.log.page project since alertKinds) s.history.length)
    | _ => s
  | .fail id => s.setCall id .failed
  | .take id => match s.calls id with
    | .fetched since page heard =>
      { s.setCall id (.finished since page heard s.mark) with
        mark := Alerts.moved s.mark since page
        baseline := some (s.baseline.getD heard)
        left := Alerts.leftBehind s.mark since page s.left }
    | _ => s
  | .record draft time =>
    { s with log := s.log.recordAt draft time, history := s.history ++ [s.log.newEvent draft time] }
  | .restart epoch =>
    { s with
      log := .withEpoch epoch
      starts := Function.update s.starts epoch (some s.history.length) }

/-- A call takes its steps in order and may fail to fetch; a service's log has an epoch of its own. -/
def machine : Machine Connection Event where
  Enabled s e := match e with
    | .begin id => (s.calls id).isIdle
    | .fetch id | .fail id => (s.calls id).isRead
    | .take id => (s.calls id).isFetched
    | .record _ _ => True
    | .restart epoch => s.starts epoch = none
  next := next project

instance machine.decidable : ∀ e, Decidable ((machine project).Enabled s e)
  | .begin id => inferInstanceAs (Decidable ((s.calls id).isIdle = true))
  | .fetch id | .fail id => inferInstanceAs (Decidable ((s.calls id).isRead = true))
  | .take id => inferInstanceAs (Decidable ((s.calls id).isFetched = true))
  | .record _ _ => isTrue trivial
  | .restart epoch => inferInstanceAs (Decidable (s.starts epoch = none))

/-- How many events had been recorded, under all services, when `cursor` was the newest. -/
def place (cursor : EventSeq) : Option ℕ := (s.starts cursor.epoch).map (· + cursor.seq)

/-! ### Places -/

/-- The log is that of what was recorded since it began, and every event stands at its place. -/
structure Places (s : Connection) : Prop where
  log : ∃ start, s.starts s.log.epoch = some start ∧ start ≤ s.history.length ∧
    s.log.Sums (s.history.drop start)
  placed : ∀ i event, s.history[i]? = some event → s.place event.seq = some (i + 1)

/-- A cursor a service gave out, at its place; one of an earlier service is from before this one. -/
structure Known (s : Connection) (cursor : EventSeq) (n : ℕ) : Prop where
  place : s.place cursor = some n
  le : n ≤ s.history.length
  older : cursor.epoch ≠ s.log.epoch → ∀ start, s.starts s.log.epoch = some start → n ≤ start

variable {project} {s s' : Connection} {event : StackEvent} {since : Option EventSeq}
  {page : EventPage} {heard id : ℕ} {call : Call}

theorem places_first (epoch : ℕ) : Places (first epoch) where
  log := ⟨0, by simp [first, EventLog.withEpoch], le_rfl, EventLog.sums_withEpoch epoch⟩
  placed := by simp [first]

theorem Places.record (h : Places s) (draft : EventDraft) (time : ℕ) :
    Places (s.next project (.record draft time)) := by
  obtain ⟨start, hstart, hle, hsums⟩ := h.log
  have hepoch : (s.log.recordAt draft time).epoch = s.log.epoch := EventLog.makeRoom_epoch
  refine ⟨⟨start, ?_, ?_, ?_⟩, fun i event hi => ?_⟩
  · show s.starts (s.log.recordAt draft time).epoch = some start
    rw [hepoch, hstart]
  · exact hle.trans (by simp [next])
  · have := hsums.recordAt draft time
    rwa [← List.drop_append_of_le_length hle] at this
  · have hi : (s.history ++ [s.log.newEvent draft time])[i]? = some event := hi
    obtain hlt | hge := lt_or_ge i s.history.length
    · exact h.placed i event (by rwa [List.getElem?_append_left hlt] at hi)
    · rw [List.getElem?_append_right hge] at hi
      have hi' := List.getElem?_eq_some_iff.1 hi
      obtain ⟨hlt, hevent⟩ := hi'
      have hlast : i = s.history.length := by
        simp only [List.length_singleton] at hlt
        omega
      subst hlast
      rw [← hevent]
      have hrecorded := hsums.recorded
      rw [List.length_drop] at hrecorded
      simp only [Nat.sub_self, List.getElem_cons_zero]
      show (s.starts s.log.epoch).map (· + (s.log.recorded + 1)) = _
      rw [hstart, hrecorded]
      simp only [Option.map_some, Option.some_inj]
      omega

theorem Places.restart (h : Places s) {epoch : ℕ} (hfresh : s.starts epoch = none) :
    Places (s.next project (.restart epoch)) := by
  refine ⟨⟨s.history.length, by simp [next, EventLog.withEpoch], le_rfl, ?_⟩, fun i event hi => ?_⟩
  · simpa [next] using EventLog.sums_withEpoch epoch
  · have hplace := h.placed i event hi
    have hne : event.seq.epoch ≠ epoch := fun heq => by simp [place, heq, hfresh] at hplace
    simpa [place, next, Function.update_of_ne hne] using hplace

/-- What is on record only grows, at the places it has. -/
structure Grows (s s' : Connection) : Prop where
  place : ∀ cursor n, s.place cursor = some n → s'.place cursor = some n
  known : ∀ cursor n, s.Known cursor n → s'.Known cursor n
  history : ∀ event ∈ s'.history, event ∈ s.history ∨
    ∀ n, s'.place event.seq = some n → s.history.length < n

theorem grows_of_eq (hlog : s'.log = s.log) (hhistory : s'.history = s.history)
    (hstarts : s'.starts = s.starts) : Grows s s' := by
  have hplace : s'.place = s.place := by
    unfold Connection.place
    rw [hstarts]
  refine ⟨fun _ _ h => hplace ▸ h, fun cursor n h => ⟨hplace ▸ h.place, hhistory ▸ h.le, ?_⟩,
    fun event h => .inl (hhistory ▸ h)⟩
  rw [hlog, hstarts]
  exact h.older

theorem grows_record (h : Places s) (draft : EventDraft) (time : ℕ) :
    Grows s (s.next project (.record draft time)) := by
  refine ⟨fun _ _ h => h, fun cursor n h => ⟨h.place, h.le.trans (by simp [next]), ?_⟩,
    fun event hevent => ?_⟩
  · have hepoch : (s.next project (.record draft time)).log.epoch = s.log.epoch :=
      EventLog.makeRoom_epoch
    rw [hepoch]
    exact h.older
  · have hevent : event ∈ s.history ++ [s.log.newEvent draft time] := hevent
    obtain hevent | hevent := List.mem_append.1 hevent
    · exact .inl hevent
    · refine .inr fun n hn => ?_
      have hplaces : Places (s.next project (.record draft time)) := h.record draft time
      have hlast := hplaces.placed s.history.length event (by
        simp [next, List.mem_singleton.1 hevent])
      rw [hn] at hlast
      rw [Option.some_inj.1 hlast]
      exact Nat.lt_succ_self _

theorem grows_restart {epoch : ℕ} (hfresh : s.starts epoch = none) :
    Grows s (s.next project (.restart epoch)) := by
  have hne : ∀ cursor n, s.place cursor = some n → cursor.epoch ≠ epoch := fun cursor n h heq => by
    simp [Connection.place, heq, hfresh] at h
  have hplace : ∀ cursor n, s.place cursor = some n →
      (s.next project (.restart epoch)).place cursor = some n := fun cursor n h => by
    simpa [Connection.place, next, Function.update_of_ne (hne cursor n h)] using h
  refine ⟨hplace, fun cursor n h => ⟨hplace cursor n h.place, h.le, fun _ start hstart => ?_⟩,
    fun _ h => .inl h⟩
  obtain rfl : s.history.length = start := by simpa [next, EventLog.withEpoch] using hstart
  exact h.le

/-! ### Pages -/

/-- What a page fetched from `since` with `heard` events recorded is: of one log, from after the cursor
to `heard`, and unless it has a gap all there is to be alerted to in between. -/
structure Fetched (project : ProjectRoot) (s : Connection) (since : Option EventSeq) (page : EventPage)
    (heard : ℕ) : Prop where
  cursor : s.Known page.cursor heard
  epoch : ∀ event ∈ page.events, event.seq.epoch = page.cursor.epoch
  numbered : ∀ event ∈ page.events, 0 < event.seq.seq
  read : ∀ mark ∈ since, ∃ r ≤ heard, s.place mark = some r ∧
    (∀ event ∈ page.events, ∃ n, s.place event.seq = some n ∧ r < n ∧ n ≤ heard) ∧
    (page.gap = false → ∀ event ∈ s.history, event.isRelevant project alertKinds →
      ∀ n, s.place event.seq = some n → r < n → n ≤ heard → event ∈ page.events)

theorem Places.place_of_mem (h : Places s) (hevent : event ∈ s.history) :
    ∃ n ≤ s.history.length, s.place event.seq = some n := by
  obtain ⟨i, hi⟩ := List.mem_iff_getElem?.1 hevent
  exact ⟨i + 1, (List.getElem?_eq_some_iff.1 hi).1, h.placed i event hi⟩

theorem Fetched.grows (h : Fetched project s since page heard) (hp : Places s) (hs : Grows s s') :
    Fetched project s' since page heard where
  cursor := hs.known _ _ h.cursor
  epoch := h.epoch
  numbered := h.numbered
  read mark hmark := by
    obtain ⟨r, hr, hplace, hevents, hall⟩ := h.read mark hmark
    refine ⟨r, hr, hs.place _ _ hplace, fun event hevent => ?_, fun hgap event hevent hrelevant n hn =>
      ?_⟩
    · obtain ⟨n, hn, hlt, hle⟩ := hevents event hevent
      exact ⟨n, hs.place _ _ hn, hlt, hle⟩
    · intro hlt hle
      obtain hevent | hbeyond := hs.history event hevent
      · obtain ⟨m, -, hm⟩ := hp.place_of_mem hevent
        obtain rfl : m = n := Option.some_inj.1 ((hs.place _ _ hm).symm.trans hn)
        exact hall hgap event hevent hrelevant m hm hlt hle
      · have := hbeyond n hn
        have := h.cursor.le
        omega

theorem place_own {start : ℕ} (hstart : s.starts s.log.epoch = some start) {cursor : EventSeq}
    (hepoch : cursor.epoch = s.log.epoch) : s.place cursor = some (start + cursor.seq) := by
  simp [Connection.place, hepoch, hstart]

/-- Fetching a page from a cursor a service gave out. -/
theorem fetched_page (h : Places s) (hsince : ∀ mark ∈ since, ∃ r, s.Known mark r) :
    Fetched project s since (s.log.page project since alertKinds) s.history.length := by
  obtain ⟨start, hstart, hle, hsums⟩ := h.log
  have hrecorded := hsums.recorded
  rw [List.length_drop] at hrecorded
  obtain ⟨gone, hsplit, -⟩ := hsums.holds
  -- an event of the page was recorded since the log began
  have hown : ∀ event ∈ (s.log.page project since alertKinds).events,
      event ∈ s.history.drop start := fun event hevent => by
    rw [hsplit]
    exact List.mem_append_right _ (EventLog.mem_ring_of_page hevent)
  refine ⟨⟨?_, le_rfl, fun hne => absurd rfl hne⟩,
    fun event hevent => hsums.epoch event (hown event hevent), fun event hevent => ?_,
    fun mark hmark => ?_⟩
  · show s.place s.log.latest = _
    rw [place_own hstart rfl]
    show some (start + s.log.recorded) = _
    rw [hrecorded, Nat.add_sub_cancel' hle]
  · obtain ⟨j, hj⟩ := List.mem_iff_getElem?.1 (hown event hevent)
    rw [List.getElem?_drop] at hj
    have hplace := place_own hstart (hsums.epoch event (hown event hevent))
    have := Option.some_inj.1 (hplace.symm.trans (h.placed _ event hj))
    omega
  · obtain ⟨r, hr⟩ := hsince mark hmark
    obtain rfl : since = some mark := hmark
    refine ⟨r, hr.le, hr.place, fun event hevent => ?_, fun hgap event hevent hrelevant n hn hlt _ =>
      ?_⟩
    · obtain ⟨j, hj⟩ := List.mem_iff_getElem?.1 (hown event hevent)
      rw [List.getElem?_drop] at hj
      have hn := h.placed _ event hj
      refine ⟨start + j + 1, hn, ?_, (List.getElem?_eq_some_iff.1 hj).1⟩
      by_cases hepoch : mark.epoch = s.log.epoch
      · have hmark := Option.some_inj.1 ((place_own hstart hepoch).symm.trans hr.place)
        have hseq := Option.some_inj.1
          ((place_own hstart (hsums.epoch event (hown event hevent))).symm.trans hn)
        have hlt := EventLog.lt_of_page hepoch (by have := hr.le; omega) hevent
        omega
      · have := hr.older hepoch start hstart
        omega
    · have hsame : mark.epoch = s.log.epoch := by
        by_contra hne
        have hgap' := (hsums.page_gap project mark alertKinds).2 (.inl hne)
        exact Bool.false_ne_true (hgap.symm.trans hgap')
      have hmark := Option.some_inj.1 ((place_own hstart hsame).symm.trans hr.place)
      obtain ⟨i, hi⟩ := List.mem_iff_getElem?.1 hevent
      have hplace := Option.some_inj.1 ((h.placed i event hi).symm.trans hn)
      have hmem : event ∈ s.history.drop start := by
        refine List.mem_iff_getElem?.2 ⟨i - start, ?_⟩
        rwa [List.getElem?_drop, Nat.add_sub_cancel' (by omega)]
      have hseq := Option.some_inj.1 ((place_own hstart (hsums.epoch event hmem)).symm.trans hn)
      rw [hsums.page_events hgap, EventLog.after, List.mem_filter]
      refine ⟨hmem, ?_⟩
      simp only [hrelevant, Bool.true_and, decide_eq_true_eq]
      omega

/-! ### Taking a page -/

def markAt (s : Connection) : ℕ := (s.mark.bind s.place).getD 0

/-- How many events had been recorded as the log of the mark began. -/
def logStart (s : Connection) : Option ℕ := s.mark.bind fun mark => s.starts mark.epoch

/-- A page may be taken: no other call moved the mark since it was read; or moved it along the log the page
is of; or a first page has nothing the mark is not past; or the page is of an older log than the mark's, and
the call read the mark that was left behind. -/
def InOrder (s : Connection) (since : Option EventSeq) (page : EventPage) (heard : ℕ) : Prop :=
  s.mark = since ∨ since.isSome ∧ s.mark.any (·.epoch = page.cursor.epoch) ∨
    since.isNone ∧ heard ≤ s.markAt ∨ since.isSome ∧ s.left = since ∧ s.logStart.any (heard ≤ ·)

instance (s : Connection) (since : Option EventSeq) (page : EventPage) (heard : ℕ) :
    Decidable (s.InOrder since page heard) :=
  inferInstanceAs (Decidable (_ ∨ _))

def Settled (s : Connection) : Event → Prop
  | .take id => match s.calls id with
    | .fetched since page heard => s.InOrder since page heard
    | _ => True
  | _ => True

instance Settled.decidable (s : Connection) : ∀ e, Decidable (Settled s e)
  | .take id => match h : s.calls id with
    | .fetched since page heard => decidable_of_iff (s.InOrder since page heard) (by simp [Settled, h])
    | .idle | .read _ | .finished _ _ _ _ | .failed => isTrue (by simp [Settled, h])
  | .begin _ | .fetch _ | .fail _ | .record _ _ | .restart _ => isTrue trivial

/-- No call has told of an event at this place: it is beyond the mark, or was left behind. -/
def Fresh (s : Connection) (n : ℕ) : Prop :=
  s.markAt < n ∨ ∃ mark ∈ s.left, ∃ r, s.place mark = some r ∧ r < n ∧ ∃ start ∈ s.logStart, n ≤ start

theorem isAfter_iff {a b : EventSeq} {m n : ℕ} (hepoch : a.epoch = b.epoch) (ha : s.place a = some m)
    (hb : s.place b = some n) : a.isAfter b ↔ n < m := by
  obtain ⟨start, hstart, rfl⟩ := Option.map_eq_some_iff.1 ha
  obtain ⟨start', hstart', rfl⟩ := Option.map_eq_some_iff.1 hb
  rw [hepoch, hstart'] at hstart
  obtain rfl := Option.some_inj.1 hstart
  simp [EventSeq.isAfter, hepoch]

theorem logStart_le (hmark : ∀ mark ∈ s.mark, s.place mark = some s.markAt) {start : ℕ}
    (h : s.logStart = some start) : start ≤ s.markAt := by
  obtain ⟨mark, hm, hstart⟩ := Option.bind_eq_some_iff.1 h
  have hplace := hmark mark hm
  rw [Connection.place, hstart, Option.map_some, Option.some_inj] at hplace
  omega

/-- A page in order comes from the mark or along its log, or the mark is past all of it. -/
theorem InOrder.cases (h : s.InOrder since page heard)
    (hmark : ∀ mark ∈ s.mark, s.place mark = some s.markAt) :
    s.mark = since ∨ since.isSome ∧ s.mark.any (·.epoch = page.cursor.epoch) ∨
      s.mark.isSome ∧ heard ≤ s.markAt ∧
        (since = none ∨ since.isSome ∧ s.left = since ∧ ∃ start ∈ s.logStart, heard ≤ start) := by
  obtain hsame | halong | ⟨hnone, hle⟩ | ⟨hsome, hleft, hstale⟩ := h
  · exact .inl hsame
  · exact .inr (.inl halong)
  · have hnone := Option.isNone_iff_eq_none.1 hnone
    cases hm : s.mark with
    | none => exact .inl hnone.symm
    | some mark => exact .inr (.inr ⟨rfl, hle, .inl hnone⟩)
  · obtain ⟨start, hstart, hle⟩ := (Option.any_eq_true _ _).1 hstale
    obtain ⟨mark, hm, -⟩ := Option.bind_eq_some_iff.1 hstart
    have hle : heard ≤ start := of_decide_eq_true hle
    exact .inr (.inr ⟨by rw [hm]; rfl, hle.trans (logStart_le hmark hstart),
      .inr ⟨hsome, hleft, start, hstart, hle⟩⟩)

/-- The mark only moves forward, to the page's cursor if that is further. -/
theorem moved_place (hmark : ∀ mark ∈ s.mark, s.place mark = some s.markAt)
    (hpage : Fetched project s since page heard)
    (hsettled : s.InOrder since page heard) :
    ∃ mark, Alerts.moved s.mark since page = some mark ∧
      s.place mark = some (max s.markAt heard) ∧ (mark = page.cursor ∨ s.mark = some mark) := by
  by_cases hsame : s.mark = since
  · refine ⟨page.cursor, by simp [Alerts.moved, hsame], ?_, .inl rfl⟩
    have hle : s.markAt ≤ heard := by
      cases hm : s.mark with
      | none => simp [markAt, hm]
      | some mark =>
        obtain ⟨r, hr, hplace, -⟩ := hpage.read mark (hsame ▸ hm)
        rw [Option.some_inj.1 ((hmark mark hm).symm.trans hplace)]
        exact hr
    rw [hpage.cursor.place, max_eq_right hle]
  · have hrest := (hsettled.cases hmark).resolve_left hsame
    obtain ⟨mark, hm⟩ : ∃ mark, s.mark = some mark := by
      obtain ⟨-, hany⟩ | ⟨hsome, -⟩ := hrest
      · obtain ⟨mark, hm, -⟩ := (Option.any_eq_true _ _).1 hany
        exact ⟨mark, hm⟩
      · exact Option.isSome_iff_exists.1 hsome
    have hafter : page.cursor.isAfter mark ↔ mark.epoch = page.cursor.epoch ∧ s.markAt < heard := by
      by_cases hepoch : mark.epoch = page.cursor.epoch
      · rw [isAfter_iff hepoch.symm hpage.cursor.place (hmark mark hm), and_iff_right hepoch]
      · simp [EventSeq.isAfter, hepoch, Ne.symm hepoch]
    by_cases hlt : s.markAt < heard
    · have hepoch : mark.epoch = page.cursor.epoch := by
        obtain ⟨-, hany⟩ | ⟨-, hle, -⟩ := hrest
        · simpa [hm] using hany
        · omega
      refine ⟨page.cursor, by simp [Alerts.moved, hm, hafter.2 ⟨hepoch, hlt⟩], ?_, .inl rfl⟩
      rw [hpage.cursor.place, max_eq_right hlt.le]
    · refine ⟨mark, ?_, ?_, .inr hm⟩
      · rw [hm] at hsame
        simp [Alerts.moved, hm, hsame, mt hafter.1 fun h => hlt h.2]
      · rw [hmark mark hm, max_eq_left (not_lt.1 hlt)]

theorem unreported_iff (hmark : ∀ mark ∈ s.mark, s.place mark = some s.markAt)
    (hpage : Fetched project s since page heard) (hread : since.isSome)
    (hsettled : s.mark = since ∨ s.mark.any (·.epoch = page.cursor.epoch))
    {event : StackEvent} (hevent : event ∈ page.events) {n : ℕ} (hn : s.place event.seq = some n) :
    ((s.mark.filter fun mark => some mark ≠ since).all fun mark =>
      event.seq.epoch ≠ mark.epoch || event.seq.isAfter mark) ↔ s.markAt < n := by
  by_cases hsame : s.mark = since
  · obtain ⟨mark, hm⟩ := Option.isSome_iff_exists.1 hread
    obtain ⟨r, -, hplace, hevents, -⟩ := hpage.read mark hm
    obtain ⟨n', hn', hlt, -⟩ := hevents event hevent
    obtain rfl : n' = n := Option.some_inj.1 (hn'.symm.trans hn)
    rw [Option.some_inj.1 ((hmark mark (hsame.trans hm)).symm.trans hplace)]
    simp [hsame, hm, hlt]
  · obtain ⟨mark, hm, hepoch⟩ := (Option.any_eq_true _ _).1 (hsettled.resolve_left hsame)
    have hepoch : event.seq.epoch = mark.epoch :=
      (hpage.epoch event hevent).trans (by simpa using (of_decide_eq_true hepoch).symm)
    rw [hm] at hsame
    have hreported : s.mark.filter (fun mark => some mark ≠ since) = some mark := by
      simp [hm, hsame]
    rw [hreported]
    simpa [hepoch] using isAfter_iff hepoch hn (hmark mark hm)

/-- What is worth an alert lies up to the page's cursor and no call told of it, and unless the page has a gap
it is all there is to be alerted to between the mark and the cursor. -/
theorem worthy_spec (hmark : ∀ mark ∈ s.mark, s.place mark = some s.markAt)
    (hsince : ∀ mark ∈ since, ∀ r, s.place mark = some r → r ≤ s.markAt)
    (hpage : Fetched project s since page heard) (hread : since.isSome)
    (hsettled : s.InOrder since page heard) :
    (∀ event ∈ Alerts.worthy s.mark since page,
      ∃ n, s.place event.seq = some n ∧ s.Fresh n ∧ n ≤ heard) ∧
    (page.gap = false → ∀ event ∈ s.history, event.isRelevant project alertKinds →
      ∀ n, s.place event.seq = some n → s.markAt < n → n ≤ heard →
      event ∈ Alerts.worthy s.mark since page) := by
  obtain ⟨mark, hm⟩ := Option.isSome_iff_exists.1 hread
  obtain ⟨r, -, hplace, hevents, hall⟩ := hpage.read mark hm
  refine ⟨fun event hevent => ?_, fun hgap event hevent hrelevant n hn hlt hle => ?_⟩
  · obtain ⟨hevent, hreported⟩ := List.mem_filter.1 hevent
    obtain ⟨hevent, -⟩ := List.mem_filter.1 hevent
    obtain ⟨n, hn, hlt, hle⟩ := hevents event hevent
    refine ⟨n, hn, ?_, hle⟩
    obtain hsame | ⟨-, hany⟩ | ⟨-, -, hnone | ⟨-, hleft, start, hstart, hheard⟩⟩ := hsettled.cases hmark
    · exact .inl ((unreported_iff hmark hpage hread (.inl hsame) hevent hn).1 hreported)
    · exact .inl ((unreported_iff hmark hpage hread (.inr hany) hevent hn).1 hreported)
    · cases hnone.symm.trans hm
    · exact .inr ⟨mark, hleft.trans hm, r, hplace, hlt, start, hstart, hle.trans hheard⟩
  · have halong : s.mark = since ∨ s.mark.any (·.epoch = page.cursor.epoch) := by
      obtain hsame | ⟨-, hany⟩ | ⟨-, hpast, -⟩ := hsettled.cases hmark
      · exact .inl hsame
      · exact .inr hany
      · omega
    have hevent := hall hgap event hevent hrelevant n hn ((hsince mark hm r hplace).trans_lt hlt) hle
    have hkind : event.kind ∈ alertKinds := by
      simpa [StackEvent.isRelevant, alertKinds] using (Bool.and_eq_true_iff.1 hrelevant).2
    exact List.mem_filter.2 ⟨List.mem_filter.2 ⟨hevent, by simpa using hkind⟩,
      (unreported_iff hmark hpage hread halong hevent hn).2 hlt⟩

/-- A mark left behind after a page is taken was already, along the log of the page, or the mark was. -/
theorem mem_leftBehind {left : Option EventSeq} {mark : EventSeq}
    (h : mark ∈ Alerts.leftBehind s.mark since page left) :
    (∃ own ∈ s.mark, own.epoch = page.cursor.epoch) ∧ mark ∈ left ∨ s.mark = since ∧ mark ∈ s.mark := by
  unfold Alerts.leftBehind at h
  split at h
  · next hany =>
    obtain ⟨own, hown, hepoch⟩ := (Option.any_eq_true _ _).1 hany
    exact .inl ⟨⟨own, hown, of_decide_eq_true hepoch⟩, h⟩
  · split at h
    · next hsame => exact .inr ⟨hsame, h⟩
    · cases h

/-- The connection once the call `id` took its page. -/
def taken (s : Connection) (id : ℕ) (since : Option EventSeq) (page : EventPage) (heard : ℕ) :
    Connection :=
  { s.setCall id (.finished since page heard s.mark) with
    mark := Alerts.moved s.mark since page
    baseline := some (s.baseline.getD heard)
    left := Alerts.leftBehind s.mark since page s.left }

section Taken

variable (hmark : ∀ mark ∈ s.mark, s.place mark = some s.markAt)
  (hpage : Fetched project s since page heard) (hsettled : s.InOrder since page heard)
include hmark hpage hsettled

theorem markAt_taken : (s.taken id since page heard).markAt = max s.markAt heard := by
  obtain ⟨mark, hmoved, hplace, -⟩ := moved_place hmark hpage hsettled
  have hbind : (s.taken id since page heard).mark.bind (s.taken id since page heard).place =
      some (max s.markAt heard) := by
    rw [show (s.taken id since page heard).mark = some mark from hmoved]
    exact hplace
  rw [markAt, hbind, Option.getD_some]

theorem logStart_taken {mark : EventSeq} (h : mark ∈ (s.taken id since page heard).left) :
    (s.taken id since page heard).logStart = s.starts page.cursor.epoch := by
  obtain ⟨mark', hmoved, -, hwhich⟩ := moved_place hmark hpage hsettled
  have hepoch : mark'.epoch = page.cursor.epoch := by
    obtain ⟨⟨own, hown, hepoch⟩, -⟩ | ⟨hsame, -⟩ := mem_leftBehind h
    · obtain rfl | hm := hwhich
      · rfl
      · rwa [Option.some_inj.1 (hm.symm.trans hown)]
    · have hcursor : Alerts.moved s.mark since page = some page.cursor := by
        simp [Alerts.moved, hsame]
      rw [Option.some_inj.1 (hmoved.symm.trans hcursor)]
  rw [logStart, show (s.taken id since page heard).mark = some mark' from hmoved, Option.bind_some,
    hepoch]
  rfl

theorem Fresh.of_taken {n : ℕ} (h : (s.taken id since page heard).Fresh n) : s.Fresh n := by
  have hat : (s.taken id since page heard).markAt = max s.markAt heard :=
    markAt_taken hmark hpage hsettled
  obtain hlt | ⟨mark, hm, r, hr, hlt, hle⟩ := h
  · exact .inl (by omega)
  · rw [logStart_taken hmark hpage hsettled hm] at hle
    have hr : s.place mark = some r := hr
    obtain ⟨⟨own, hown, hepoch⟩, hm⟩ | ⟨-, hm⟩ := mem_leftBehind hm
    · refine .inr ⟨mark, hm, r, hr, hlt, ?_⟩
      rwa [logStart, show s.mark = some own from hown, Option.bind_some, hepoch]
    · rw [hmark mark hm, Option.some_inj] at hr
      exact .inl (hr ▸ hlt)

theorem not_fresh_taken (hevent : event ∈ page.events) {n : ℕ} (hn : s.place event.seq = some n)
    (hle : n ≤ heard) : ¬ (s.taken id since page heard).Fresh n := by
  have hat : (s.taken id since page heard).markAt = max s.markAt heard :=
    markAt_taken hmark hpage hsettled
  rintro (hlt | ⟨mark, hm, r, -, -, start, hstart, hle'⟩)
  · omega
  · rw [logStart_taken hmark hpage hsettled hm] at hstart
    have hnumbered := hpage.numbered event hevent
    rw [Connection.place, hpage.epoch event hevent, show s.starts _ = some start from hstart,
      Option.map_some, Option.some_inj] at hn
    omega

end Taken

/-! ### Every step -/

/-- The call reported a gap that the event lies in: after the mark it read, and recorded as it fetched
its page. -/
def Covers (s : Connection) (id : ℕ) (event : StackEvent) : Prop :=
  (s.calls id).view.alertsGap = some true ∧
    ∃ mark page heard current r n, s.calls id = .finished (some mark) page heard current ∧
      s.place mark = some r ∧ s.place event.seq = some n ∧ r < n ∧ n ≤ heard

/-- Some call reported the event, counted it as left out, or reported a gap it lies in. -/
def Accounted (s : Connection) (event : StackEvent) : Prop :=
  ∃ id, event ∈ (s.calls id).view.alerts ∨ event ∈ (s.calls id).leftOut ∨ s.Covers id event

/-- What is known of a call: the mark it read is not beyond the one there is, its page is as fetched,
and what it reported is told. -/
def Sound (project : ProjectRoot) (s : Connection) : Call → Prop
  | .read since => ∀ mark ∈ since, ∃ r ≤ s.markAt, s.Known mark r
  | .fetched since page heard => Fetched project s since page heard ∧
    ∀ mark ∈ since, ∃ r ≤ s.markAt, s.Known mark r
  | .finished since page heard current => heard ≤ s.markAt ∧
    ∀ event ∈ (Call.finished since page heard current).worthy,
      ∃ n, s.place event.seq = some n ∧ ¬ s.Fresh n
  | .idle | .failed => True

theorem Sound.grows (h : Sound project s call) (hp : Places s) (hs : Grows s s')
    (hle : s.markAt ≤ s'.markAt) (hfresh : ∀ n, s'.Fresh n → s.Fresh n) : Sound project s' call := by
  have hread : ∀ {since : Option EventSeq}, (∀ mark ∈ since, ∃ r ≤ s.markAt, s.Known mark r) →
      ∀ mark ∈ since, ∃ r ≤ s'.markAt, s'.Known mark r := fun h mark hmark => by
    obtain ⟨r, hr, hknown⟩ := h mark hmark
    exact ⟨r, hr.trans hle, hs.known _ _ hknown⟩
  cases call with
  | idle | failed => trivial
  | read since => exact hread h
  | fetched since page heard => exact ⟨h.1.grows hp hs, hread h.2⟩
  | finished since page heard current =>
    refine ⟨h.1.trans hle, fun event hevent => ?_⟩
    obtain ⟨n, hplace, htold⟩ := h.2 event hevent
    exact ⟨n, hs.place _ _ hplace, mt (hfresh n) htold⟩

/-- What holds between the mark, the calls and all that was recorded. -/
structure Inv (project : ProjectRoot) (s : Connection) : Prop where
  places : Places s
  mark : ∀ mark ∈ s.mark, s.Known mark s.markAt
  calls : ∀ id, Sound project s (s.calls id)
  apart : ∀ id id', id ≠ id' → ∀ event ∈ (s.calls id).worthy, event ∉ (s.calls id').worthy
  begun : s.baseline.isSome = s.mark.isSome
  left : ∀ mark ∈ s.left, ∃ r, s.place mark = some r
  accounted : ∀ base ∈ s.baseline, ∀ event ∈ s.history, event.isRelevant project alertKinds →
    ∀ n, s.place event.seq = some n → base < n → n ≤ s.markAt → s.Accounted event

theorem inv_first (epoch : ℕ) : Inv project (first epoch) where
  places := places_first epoch
  mark := nofun
  calls _ := trivial
  apart _ _ _ _ h := by simp [first, Call.worthy] at h
  begun := rfl
  left := nofun
  accounted := nofun

theorem Inv.markAt_le (h : Inv project s) : s.markAt ≤ s.history.length := by
  cases hm : s.mark with
  | none => simp [markAt, hm]
  | some mark => exact (h.mark mark hm).le

theorem Inv.grows (h : Inv project s) (hp : Places s') (hs : Grows s s') (hmark : s'.mark = s.mark)
    (hcalls : s'.calls = s.calls) (hbase : s'.baseline = s.baseline) (hleft : s'.left = s.left) :
    Inv project s' := by
  have hat : s'.markAt = s.markAt := by
    unfold markAt
    rw [hmark]
    cases hm : s.mark with
    | none => rfl
    | some mark =>
      have hplace := (h.mark mark hm).place
      simp only [Option.bind_some, hplace, hs.place _ _ hplace]
  have hstart : s'.logStart = s.logStart := by
    unfold logStart
    rw [hmark]
    cases hm : s.mark with
    | none => rfl
    | some mark =>
      have hplace := (h.mark mark hm).place
      obtain ⟨start, hstart, hn⟩ := Option.map_eq_some_iff.1 hplace
      obtain ⟨start', hstart', hn'⟩ := Option.map_eq_some_iff.1 (hs.place _ _ hplace)
      obtain rfl : start' = start := by omega
      exact hstart'.trans hstart.symm
  have hfresh : ∀ n, s'.Fresh n → s.Fresh n := by
    rintro n (hlt | ⟨mark, hm, r, hr, hlt, hle⟩)
    · exact .inl (hat ▸ hlt)
    · obtain ⟨r', hr'⟩ := h.left mark (hleft ▸ hm)
      obtain rfl : r' = r := Option.some_inj.1 ((hs.place _ _ hr').symm.trans hr)
      exact .inr ⟨mark, hleft ▸ hm, r', hr', hlt, hstart ▸ hle⟩
  refine ⟨hp, fun mark hm => ?_, fun id => ?_, ?_, ?_, fun mark hm => ?_,
    fun base hbase' event hevent hrelevant n hn hlt hle => ?_⟩
  · rw [hat]
    exact hs.known _ _ (h.mark mark (hmark ▸ hm))
  · rw [hcalls]
    exact (h.calls id).grows h.places hs hat.ge hfresh
  · rw [hcalls]
    exact h.apart
  · rw [hbase, hmark]
    exact h.begun
  · obtain ⟨r, hr⟩ := h.left mark (hleft ▸ hm)
    exact ⟨r, hs.place _ _ hr⟩
  · rw [hat] at hle
    obtain hevent | hbeyond := hs.history event hevent
    · obtain ⟨m, -, hm⟩ := h.places.place_of_mem hevent
      obtain rfl : m = n := Option.some_inj.1 ((hs.place _ _ hm).symm.trans hn)
      obtain ⟨id, hid⟩ := h.accounted base (hbase ▸ hbase') event hevent hrelevant m hm hlt hle
      refine ⟨id, ?_⟩
      unfold Covers at hid ⊢
      rw [hcalls]
      refine hid.imp_right (Or.imp_right ?_)
      rintro ⟨hgap, mark, page, heard, current, r, n, hcall, hr, hn, hbetween⟩
      exact ⟨hgap, mark, page, heard, current, r, n, hcall, hs.place _ _ hr, hs.place _ _ hn, hbetween⟩
    · have := hbeyond n hn
      have := h.markAt_le
      omega

theorem Accounted.setCall (h : s.Accounted event)
    (hopen : (s.calls id).isOpen) (hcalls : s'.calls = Function.update s.calls id call)
    (hstarts : s'.starts = s.starts) : s'.Accounted event := by
  have hplace : s'.place = s.place := by
    unfold Connection.place
    rw [hstarts]
  obtain ⟨id', hid'⟩ := h
  have hne : id' ≠ id := by
    rintro rfl
    unfold Covers at hid'
    cases hcall : s.calls id' with
    | finished => simp [hcall, Call.isOpen] at hopen
    | _ => simp [hcall, Call.view, Call.leftOut, AlertsView.default] at hid'
  refine ⟨id', ?_⟩
  unfold Covers at hid' ⊢
  rwa [hcalls, Function.update_of_ne hne, hplace]

theorem Inv.setCall (h : Inv project s) (hopen : (s.calls id).isOpen)
    (hnone : call.worthy = []) (hcall : Sound project s call) : Inv project (s.setCall id call) := by
  have hs : Grows s (s.setCall id call) := grows_of_eq rfl rfl rfl
  refine ⟨⟨h.places.log, h.places.placed⟩, fun mark hm => hs.known _ _ (h.mark mark hm), fun id' => ?_,
    fun a b hne event ha hb => ?_, h.begun, h.left, fun base hbase event hevent hrelevant n hn hlt hle => ?_⟩
  · by_cases hid : id' = id
    · subst hid
      simpa using hcall.grows h.places hs le_rfl fun _ hfresh => hfresh
    · simpa [Function.update_of_ne hid] using (h.calls id').grows h.places hs le_rfl fun _ hfresh => hfresh
  · by_cases hid : a = id
    · subst hid
      simp [hnone] at ha
    · by_cases hid' : b = id
      · subst hid'
        simp [hnone] at hb
      · exact h.apart a b hne event (by simpa [Function.update_of_ne hid] using ha)
          (by simpa [Function.update_of_ne hid'] using hb)
  · exact (h.accounted base hbase event hevent hrelevant n hn hlt hle).setCall hopen rfl rfl

/-- A call that took its page accounts for what lies between the mark and the page's cursor. -/
theorem accounted_of_taken (hmark : ∀ mark ∈ s.mark, s.place mark = some s.markAt)
    (hsince : ∀ mark ∈ since, ∀ r, s.place mark = some r → r ≤ s.markAt)
    (hpage : Fetched project s since page heard) (hread : since.isSome)
    (hsettled : s.InOrder since page heard) (hevent : event ∈ s.history)
    (hrelevant : event.isRelevant project alertKinds) {n : ℕ} (hn : s.place event.seq = some n)
    (hlt : s.markAt < n) (hle : n ≤ heard) : (s.taken id since page heard).Accounted event := by
  have hcall : (s.taken id since page heard).calls id = .finished since page heard s.mark :=
    Function.update_self ..
  obtain ⟨mark, rfl⟩ := Option.isSome_iff_exists.1 hread
  refine ⟨id, ?_⟩
  cases hgap : page.gap with
  | false =>
    have hworthy := (worthy_spec hmark hsince hpage hread hsettled).2 hgap event hevent hrelevant n hn
      hlt hle
    rw [hcall, ← or_assoc]
    exact .inl (Call.mem_worthy.1 hworthy)
  | true =>
    obtain ⟨r, -, hplace, -⟩ := hpage.read mark rfl
    have hr := hsince mark rfl r hplace
    exact .inr (.inr ⟨by simp [hcall, Call.view, Alerts.view, hgap], mark, page, heard, s.mark, r, n,
      hcall, hplace, hn, by omega, hle⟩)

section Take

variable (h : Inv project s)
include h

theorem Inv.place_mark : ∀ mark ∈ s.mark, s.place mark = some s.markAt :=
  fun mark hm => (h.mark mark hm).place

theorem Inv.told_of_worthy (hevent : event ∈ (s.calls id).worthy) :
    ∃ n, s.place event.seq = some n ∧ ¬ s.Fresh n := by
  have hsound := h.calls id
  cases hcall : s.calls id with
  | finished => exact (hcall ▸ hsound).2 event (hcall ▸ hevent)
  | _ => simp [hcall, Call.worthy] at hevent

variable (hcall : s.calls id = .fetched since page heard)
include hcall

theorem Inv.fetched : Fetched project s since page heard :=
  (show Sound project s (.fetched since page heard) from hcall ▸ h.calls id).1

theorem Inv.read_le : ∀ mark ∈ since, ∀ r, s.place mark = some r → r ≤ s.markAt := by
  intro mark hm r hr
  obtain ⟨-, hread⟩ : Sound project s (.fetched since page heard) := hcall ▸ h.calls id
  obtain ⟨r', hle, hknown⟩ := hread mark hm
  rwa [← Option.some_inj.1 (hknown.place.symm.trans hr)]

variable (hsettled : s.InOrder since page heard)
include hsettled

/-- What the call finds worth an alert was told by none. -/
theorem Inv.fresh_of_worthy (hevent : event ∈ (Call.finished since page heard s.mark).worthy) :
    event ∈ page.events ∧ ∃ n, s.place event.seq = some n ∧ s.Fresh n ∧ n ≤ heard := by
  have hsince := h.read_le hcall
  have hpage := h.fetched hcall
  cases since with
  | none => simp [Call.worthy] at hevent
  | some mark =>
    exact ⟨List.mem_of_mem_filter (List.mem_of_mem_filter hevent),
      (worthy_spec h.place_mark hsince hpage rfl hsettled).1 event hevent⟩

theorem Inv.apart_taken {a b : ℕ} (hne : a ≠ b)
    (ha : event ∈ ((s.taken id since page heard).calls a).worthy) :
    event ∉ ((s.taken id since page heard).calls b).worthy := by
  intro hb
  have hapart : ∀ id', event ∈ (s.calls id').worthy →
      event ∉ (Call.finished since page heard s.mark).worthy := fun id' hevent hevent' => by
    obtain ⟨-, n, hn, hfresh, -⟩ := h.fresh_of_worthy hcall hsettled hevent'
    obtain ⟨m, hm, htold⟩ := h.told_of_worthy hevent
    obtain rfl : m = n := Option.some_inj.1 (hm.symm.trans hn)
    exact htold hfresh
  simp only [taken, Connection.setCall] at ha hb
  by_cases hid : a = id
  · subst hid
    rw [Function.update_self] at ha
    rw [Function.update_of_ne (Ne.symm hne)] at hb
    exact hapart b hb ha
  · rw [Function.update_of_ne hid] at ha
    by_cases hid' : b = id
    · subst hid'
      rw [Function.update_self] at hb
      exact hapart a ha hb
    · rw [Function.update_of_ne hid'] at hb
      exact h.apart a b hne event ha hb

theorem Inv.accounted_taken (hevent : event ∈ s.history)
    (hrelevant : event.isRelevant project alertKinds) {n : ℕ} (hn : s.place event.seq = some n)
    (hlt : s.baseline.getD heard < n) (hle : n ≤ max s.markAt heard) :
    (s.taken id since page heard).Accounted event := by
  have hbegun := h.begun
  cases hbase : s.baseline with
  | none =>
    -- the first page to be taken: nothing lies between the baseline and the mark
    have hnone : s.mark = none := by simpa [hbase] using hbegun.symm
    have hzero : s.markAt = 0 := by simp [markAt, hnone]
    simp only [hbase, Option.getD_none] at hlt
    omega
  | some base =>
    simp only [hbase, Option.getD_some] at hlt
    obtain hle' | hgt := le_or_gt n s.markAt
    · exact (h.accounted base hbase event hevent hrelevant n hn hlt hle').setCall
        (by simp [hcall, Call.isOpen]) rfl rfl
    · have hmarked : s.mark.isSome := by rw [← hbegun, hbase, Option.isSome_some]
      have hread : since.isSome := by
        obtain hsame | ⟨hsome, -⟩ | ⟨-, hpast, -⟩ := hsettled.cases h.place_mark
        · exact hsame ▸ hmarked
        · exact hsome
        · omega
      exact accounted_of_taken h.place_mark (h.read_le hcall) (h.fetched hcall) hread hsettled hevent
        hrelevant hn hgt (by omega)

/-- A call takes its page: the mark moves up to it, and all up to there is accounted for. -/
theorem Inv.take : Inv project (s.taken id since page heard) := by
  have hpage := h.fetched hcall
  have hat : (s.taken id since page heard).markAt = max s.markAt heard :=
    markAt_taken h.place_mark hpage hsettled
  have hs : Grows s (s.taken id since page heard) := grows_of_eq rfl rfl rfl
  obtain ⟨mark', hmoved, hplace', hwhich⟩ := moved_place h.place_mark hpage hsettled
  refine ⟨⟨h.places.log, h.places.placed⟩, fun mark hm => ?_, fun id' => ?_,
    fun a b hne event ha => h.apart_taken hcall hsettled hne ha, ?_, fun mark hm => ?_,
    fun base hbase event hevent hrelevant n hn hlt hle => ?_⟩
  · obtain rfl : mark' = mark := Option.some_inj.1 (hmoved.symm.trans hm)
    rw [hat]
    have hknown : s.Known mark' (max s.markAt heard) := by
      obtain rfl | hm := hwhich
      · exact Option.some_inj.1 (hpage.cursor.place.symm.trans hplace') ▸ hpage.cursor
      · exact Option.some_inj.1 ((h.place_mark mark' hm).symm.trans hplace') ▸ h.mark mark' hm
    exact hs.known _ _ hknown
  · by_cases hid : id' = id
    · subst hid
      rw [show (s.taken id' since page heard).calls id' = _ from Function.update_self ..]
      refine ⟨hat ▸ le_max_right _ _, fun event hevent => ?_⟩
      obtain ⟨hmem, n, hn, -, hle⟩ := h.fresh_of_worthy hcall hsettled hevent
      exact ⟨n, hn, not_fresh_taken h.place_mark hpage hsettled hmem hn hle⟩
    · rw [show (s.taken id since page heard).calls id' = _ from Function.update_of_ne hid ..]
      exact (h.calls id').grows h.places hs (hat ▸ le_max_left _ _) fun _ hfresh =>
        hfresh.of_taken h.place_mark hpage hsettled
  · simp [taken, hmoved]
  · obtain ⟨-, hm⟩ | ⟨-, hm⟩ := mem_leftBehind hm
    · exact h.left mark hm
    · exact ⟨_, h.place_mark mark hm⟩
  · obtain rfl : s.baseline.getD heard = base := Option.some_inj.1 hbase
    exact h.accounted_taken hcall hsettled hevent hrelevant hn hlt (hat ▸ hle)

end Take

theorem Inv.next (h : Inv project s) {e : Event} (he : (machine project).Enabled s e)
    (hsettled : Settled s e) : Inv project ((machine project).next s e) := by
  cases e with
  | begin id =>
    have hopen : (s.calls id).isOpen := by
      cases hcall : s.calls id <;> simp_all [machine, Call.isOpen, Call.isIdle]
    exact h.setCall hopen rfl fun mark hm => ⟨s.markAt, le_rfl, h.mark mark hm⟩
  | fetch id =>
    cases hcall : s.calls id with
    | read since =>
      have hsound : Sound project s (.read since) := hcall ▸ h.calls id
      have hfetch : (machine project).next s (.fetch id) = s.setCall id
          (.fetched since (s.log.page project since alertKinds) s.history.length) := by
        simp [machine, Connection.next, hcall]
      rw [hfetch]
      refine h.setCall (by simp [hcall, Call.isOpen]) rfl ⟨fetched_page h.places fun mark hm => ?_, hsound⟩
      obtain ⟨r, -, hr⟩ := hsound mark hm
      exact ⟨r, hr⟩
    | _ => simp [machine, hcall, Call.isRead] at he
  | fail id =>
    have hopen : (s.calls id).isOpen := by
      cases hcall : s.calls id <;> simp_all [machine, Call.isOpen, Call.isRead]
    exact h.setCall hopen rfl trivial
  | take id =>
    cases hcall : s.calls id with
    | fetched since page heard =>
      have htake : (machine project).next s (.take id) = s.taken id since page heard := by
        simp [machine, Connection.next, taken, hcall]
      rw [htake]
      exact h.take hcall (by simpa [Settled, hcall] using hsettled)
    | _ => simp [machine, hcall, Call.isFetched] at he
  | record draft time =>
    have hp : Places (s.next project (.record draft time)) := h.places.record draft time
    have hs : Grows s (s.next project (.record draft time)) := grows_record h.places draft time
    exact h.grows hp hs rfl rfl rfl rfl
  | restart epoch =>
    have hp : Places (s.next project (.restart epoch)) := h.places.restart he
    have hs : Grows s (s.next project (.restart epoch)) := grows_restart he
    exact h.grows hp hs rfl rfl rfl rfl

/-- **Alerts are told once and not lost.**  In every run in which pages are taken in order: no event is
reported by two calls; and an event worth an alert that was recorded after the baseline has been
reported, counted as left out or covered by a reported gap once any call that fetched its page after it
has finished. -/
theorem alerts_told_once {epoch : ℕ} {s : Connection}
    (hs : ((machine project).restrict Settled).Reaches (first epoch) s) :
    (∀ id id' event, event ∈ (s.calls id).view.alerts → event ∈ (s.calls id').view.alerts → id = id') ∧
    ∀ base ∈ s.baseline, ∀ i event, s.history[i]? = some event →
      event.isRelevant project alertKinds → base ≤ i →
      ∀ id since page heard current, s.calls id = .finished since page heard current → i < heard →
      s.Accounted event := by
  have h : Inv project s :=
    hs.invariant_restrict (fun _ _ h he hsettled => h.next he hsettled) (inv_first epoch)
  refine ⟨fun id id' event hid hid' => ?_,
    fun base hbase i event hi hrelevant hle id since page heard current hcall hlt => ?_⟩
  · by_contra hne
    exact h.apart id id' hne event (Call.mem_worthy.2 (.inl hid)) (Call.mem_worthy.2 (.inl hid'))
  · have hheard : heard ≤ s.markAt := by
      have hsound := h.calls id
      rw [hcall] at hsound
      exact hsound.1
    exact h.accounted base hbase event (List.mem_iff_getElem?.2 ⟨i, hi⟩) hrelevant (i + 1)
      (h.places.placed i event hi) (by omega) (by omega)

def crash : EventDraft := ⟨some (.top [115]), none, .crashed, "exit 1", none⟩

/-- One call sets where alerts start, and the next is told of a crash and of one of the service
started since. -/
def heardTwice : Connection :=
  (machine (.top [115])).play (first 1) [.begin 0, .fetch 0, .take 0, .record crash 1, .restart 2,
    .record crash 2, .begin 1, .fetch 1, .take 1]

theorem alerts_told_once_restarted :
    heardTwice.history[1]? = some (crash.intoEvent ⟨2, 1⟩ 2) ∧
      heardTwice.Accounted (crash.intoEvent ⟨2, 1⟩ 2) := by
  refine ⟨by decide, ?_⟩
  have hruns : ((machine (.top [115])).restrict Settled).Reaches (first 1) heardTwice :=
    Machine.reaches_play_restrict (by decide)
  exact (alerts_told_once hruns).2 0 (by decide) 1 _ (by decide) (by decide) (by decide) 1 _ _ _ _ rfl
    (by decide)

/-- Two first calls with nothing recorded between are in order, and so is a slow call whose page came from
the service before a restart. -/
example : ((machine (.top [115])).restrict Settled).Reaches (first 1) ((machine (.top [115])).play (first 1)
    [.begin 0, .begin 1, .fetch 0, .fetch 1, .take 0, .take 1, .begin 2, .begin 3, .record crash 1, .fetch 2,
      .restart 2, .record crash 2, .fetch 3, .take 3, .take 2]) :=
  Machine.reaches_play_restrict (by decide)

/-- Two calls set where alerts start, a crash recorded between their pages. -/
def lostBetween : Connection :=
  (machine (.top [115])).play (first 1) [.begin 0, .begin 1, .fetch 0, .record crash 1, .fetch 1,
    .take 0, .take 1]

/-- A call reads the mark before another moves it and fetches its page from the service started
since; the call after it finds the mark where it was. -/
def toldTwice : Connection :=
  (machine (.top [115])).play (first 1) [.begin 0, .fetch 0, .take 0, .begin 1, .begin 2,
    .record crash 1, .fetch 1, .restart 2, .record crash 2, .fetch 2, .take 1, .take 2,
    .begin 3, .fetch 3, .take 3]

/-- The crash recorded after the baseline is told by no call, although one fetched its page after it
and finished; and a crash is told by two calls. -/
theorem alerts_lost_and_repeated :
    ((machine (.top [115])).Reaches (first 1) lostBetween ∧ lostBetween.baseline = some 0 ∧
      lostBetween.history[0]? = some (crash.intoEvent ⟨1, 1⟩ 1) ∧
      (∃ since page current, lostBetween.calls 1 = .finished since page 1 current) ∧
      ¬ lostBetween.Accounted (crash.intoEvent ⟨1, 1⟩ 1)) ∧
    (machine (.top [115])).Reaches (first 1) toldTwice ∧
      crash.intoEvent ⟨2, 1⟩ 2 ∈ (toldTwice.calls 2).view.alerts ∧
      crash.intoEvent ⟨2, 1⟩ 2 ∈ (toldTwice.calls 3).view.alerts := by
  refine ⟨⟨Machine.reaches_play (by decide), by decide, by decide, ⟨_, _, _, rfl⟩, ?_⟩,
    Machine.reaches_play (by decide), by decide, by decide⟩
  rintro ⟨id, hid⟩
  have hid := hid.imp_right (Or.imp_right And.left)
  revert hid
  match id with
  | 0 | 1 => decide
  | id + 2 => exact fun hid => by simpa using (show _ ∈ [] ∨ _ ∈ [] ∨ none = some true from hid)

end Connection

end Muster.Events
