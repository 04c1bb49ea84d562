import Muster.Events.EventLog
import Muster.Lib.Machine

/-!
# Feed — readers of the event log

A reader asks for the events after a cursor and passes on the cursor of each page it gets; a read that
finds nothing may be held until something arrives or its wait passes.  However records and reads
interleave, a reader no page told of a gap has every event after its first cursor up to its present
one, once and in order.
-/

namespace Muster.Events

open Config (ProjectRoot)

/-- A read held until an event arrives. -/
structure EventWaiter where
  project : ProjectRoot
  since : EventSeq
  kinds : List EventKind
  deadline : ℕ
deriving DecidableEq

inductive Reply where
  | now (page : EventPage)
  | held (waiter : EventWaiter)

namespace EventLog

variable (log : EventLog)

def eventsAfter (project : ProjectRoot) (since : Option EventSeq) (kinds : List EventKind)
    (now wait : ℕ) : Reply :=
  let page := log.page project since kinds
  if !page.events.isEmpty || wait = 0 || page.gap then .now page
  else .held ⟨project, since.getD log.latest, kinds, now + wait⟩

def answerEventWaiter (now : ℕ) (waiter : EventWaiter) : Option EventPage :=
  let page := log.page waiter.project (some waiter.since) waiter.kinds
  if page.events.isEmpty && now < waiter.deadline then none else some page

end EventLog

/-! ### Readers -/

/-- A reader of a project's events.  The last three fields are history nothing reads: the cursor it
began from, the events it got since, and whether a page told of a gap. -/
structure Reader where
  project : ProjectRoot
  kinds : List EventKind
  since : Option EventSeq
  waiter : Option EventWaiter
  base : Option EventSeq
  got : List StackEvent
  gap : Bool

namespace Reader

def new (project : ProjectRoot) (kinds : List EventKind) (since : Option EventSeq) : Reader where
  project
  kinds
  since
  waiter := none
  base := since
  got := []
  gap := false

variable (r : Reader)

def position : Option EventSeq := match r.waiter with
  | some waiter => some waiter.since
  | none => r.since

/-- Takes a page read from where the reader stood. -/
@[simp] def receive (page : EventPage) : Reader :=
  { r with
    since := some page.cursor
    waiter := none
    got := r.got ++ page.events
    gap := r.gap || page.gap }

/-- Reads on from the last page's cursor.  A reader without one begins where its first page ends. -/
def ask (log : EventLog) (now wait : ℕ) : Reader :=
  match log.eventsAfter r.project r.since r.kinds now wait with
  | .now page =>
    if r.since.isSome then r.receive page
    else { r with since := some page.cursor, base := some page.cursor }
  | .held waiter => { r with waiter := some waiter, base := some (r.base.getD waiter.since) }

def tick (log : EventLog) (now : ℕ) : Reader :=
  match r.waiter.bind (log.answerEventWaiter now) with
  | some page => r.receive page
  | none => r

end Reader

/-- The log, its readers, and the history of all events recorded. -/
structure Feed where
  log : EventLog
  readers : ℕ → Reader
  history : List StackEvent

namespace Feed

/-- What happens: an event is recorded, a reader asks, or the service answers held reads. -/
inductive Event where
  | record (draft : EventDraft) (time : ℕ)
  | ask (reader now wait : ℕ)
  | tick (now : ℕ)

variable (s : Feed)

def next : Event → Feed
  | .record draft time =>
    { s with log := s.log.recordAt draft time, history := s.history ++ [s.log.newEvent draft time] }
  | .ask reader now wait =>
    { s with readers := Function.update s.readers reader ((s.readers reader).ask s.log now wait) }
  | .tick now => { s with readers := fun reader => (s.readers reader).tick s.log now }

def machine : Machine Feed Event where
  Enabled s e := match e with
    | .ask reader _ _ => (s.readers reader).waiter = none
    | _ => True
  next := next

instance machine.decidable (s : Feed) : ∀ e, Decidable (machine.Enabled s e)
  | .ask reader _ _ => inferInstanceAs (Decidable ((s.readers reader).waiter = none))
  | .record _ _ | .tick _ => isTrue trivial

def first (epoch : ℕ) (readers : ℕ → ProjectRoot × List EventKind × Option EventSeq) : Feed where
  log := .withEpoch epoch
  readers id := .new (readers id).1 (readers id).2.1 (readers id).2.2
  history := []

end Feed

/-! ### What a reader was told -/

/-- The events of `history` a reader is after, from one number up to another. -/
def between (history : List StackEvent) (project : ProjectRoot) (kinds : List EventKind) (a b : ℕ) :
    List StackEvent :=
  (EventLog.after history project kinds a).filter (·.seq.seq ≤ b)

section Between

variable {history : List StackEvent} {project : ProjectRoot} {kinds : List EventKind}

@[simp] theorem between_self (a : ℕ) : between history project kinds a a = [] := by
  simp only [between, EventLog.after, List.filter_filter, List.filter_eq_nil_iff, Bool.and_eq_true,
    decide_eq_true_eq]
  omega

theorem between_append {a b : ℕ} {event : StackEvent} (h : b < event.seq.seq) :
    between (history ++ [event]) project kinds a b = between history project kinds a b := by
  have hb : ¬ event.seq.seq ≤ b := not_le.2 h
  simp only [between, EventLog.after, List.filter_append, List.filter_filter]
  simp [hb]

theorem filter_le_append {events : List StackEvent} (h : events.Pairwise (·.seq.seq < ·.seq.seq))
    (c : ℕ) : events.filter (·.seq.seq ≤ c) ++ events.filter (c < ·.seq.seq) = events := by
  induction events with
  | nil => rfl
  | cons event events ih =>
    obtain ⟨hhead, htail⟩ := List.pairwise_cons.1 h
    by_cases hle : event.seq.seq ≤ c
    · simpa [hle, not_lt.2 hle] using ih htail
    · have hnil : events.filter (·.seq.seq ≤ c) = [] := List.filter_eq_nil_iff.2 fun e he => by
        have := hhead e he
        simp only [decide_eq_true_eq]
        omega
      have hall : events.filter (c < ·.seq.seq) = events := List.filter_eq_self.2 fun e he => by
        have := hhead e he
        simp only [decide_eq_true_eq]
        omega
      simp [hle, not_le.1 hle, hnil, hall]

theorem between_append_after {log : EventLog} (h : log.Sums history) {a c : ℕ} (hac : a ≤ c) :
    between history project kinds a c ++ EventLog.after history project kinds c =
      between history project kinds a log.recorded := by
  have hlater : EventLog.after history project kinds c =
      (EventLog.after history project kinds a).filter (c < ·.seq.seq) := by
    rw [EventLog.after, EventLog.after, List.filter_filter]
    refine List.filter_congr fun event _ => ?_
    by_cases hc : c < event.seq.seq
    · simp [hc, hac.trans_lt hc]
    · simp [hc]
  have hall : between history project kinds a log.recorded =
      EventLog.after history project kinds a := List.filter_eq_self.2 fun event hevent => by
    rw [h.recorded, decide_eq_true_eq]
    exact h.bounded event (List.mem_filter.1 hevent).1
  rw [hlater, hall]
  exact filter_le_append (h.numbered.filter _) c

end Between

/-- Unless told of a gap, the reader has all from where it began to where it stands. -/
structure Reader.Told (history : List StackEvent) (r : Reader) : Prop where
  begun : r.base.isSome = r.position.isSome
  unbegun : r.base = none → r.got = []
  waits : ∀ waiter ∈ r.waiter, waiter.project = r.project ∧ waiter.kinds = r.kinds
  told : r.gap = false → ∀ base ∈ r.base, ∀ here ∈ r.position, base.seq ≤ here.seq ∧
    r.got = between history r.project r.kinds base.seq here.seq ∧
    (here = base ∨ here.seq ≤ history.length)

namespace Reader

variable {log : EventLog} {history : List StackEvent} {r : Reader}

theorem told_new (project : ProjectRoot) (kinds : List EventKind) (since : Option EventSeq) :
    (new project kinds since).Told history where
  begun := rfl
  unbegun _ := rfl
  waits := nofun
  told _ base hbase here hhere := by
    obtain rfl : base = here := Option.some_inj.1 (hbase.symm.trans hhere)
    exact ⟨le_rfl, (between_self _).symm, .inl rfl⟩

theorem Told.record (hr : r.Told history) (h : log.Sums history) (draft : EventDraft) (time : ℕ) :
    r.Told (history ++ [log.newEvent draft time]) where
  begun := hr.begun
  unbegun := hr.unbegun
  waits := hr.waits
  told hgap base hbase here hhere := by
    obtain ⟨hle, hgot, hpos⟩ := hr.told hgap base hbase here hhere
    refine ⟨hle, ?_, hpos.imp_right fun h => h.trans (by simp)⟩
    obtain rfl | hpos := hpos
    · simpa using hgot
    · rw [hgot, between_append]
      show here.seq < log.recorded + 1
      rw [h.recorded]
      omega

/-- A page read from where the reader stands adds exactly what it was after. -/
theorem Told.receive (hr : r.Told history) (h : log.Sums history) {here : EventSeq}
    (hhere : r.position = some here) :
    (r.receive (log.page r.project (some here) r.kinds)).Told history := by
  have hbegun := hr.begun
  rw [hhere] at hbegun
  refine ⟨hbegun, fun hnone => by simp_all, nofun, fun hgap base hbase here' hhere' => ?_⟩
  obtain ⟨hgap, hpage⟩ : r.gap = false ∧ (log.page r.project (some here) r.kinds).gap = false :=
    Bool.or_eq_false_iff.1 hgap
  obtain rfl : log.latest = here' := Option.some_inj.1 hhere'
  obtain ⟨hle, hgot, -⟩ := hr.told hgap base hbase here hhere
  have hnot := mt (h.page_gap r.project here r.kinds).2 (by simp [hpage])
  have hhere : here.seq ≤ log.recorded := by
    by_contra hlt
    exact hnot (.inr (.inl (not_le.1 hlt)))
  refine ⟨hle.trans hhere, ?_, .inr h.recorded.le⟩
  show r.got ++ (log.page r.project (some here) r.kinds).events = _
  rw [hgot, h.page_events hpage, between_append_after h hle]
  rfl

theorem Told.begin (hr : r.Told history) (hnone : r.base = none)
    {r' : Reader} (hsame : r'.project = r.project ∧ r'.kinds = r.kinds ∧ r'.got = r.got)
    (hbase : r'.base = some log.latest) (hhere : r'.position = some log.latest)
    (hwaits : ∀ waiter ∈ r'.waiter, waiter.project = r'.project ∧ waiter.kinds = r'.kinds) :
    r'.Told history where
  begun := by rw [hbase, hhere]
  unbegun hnone := by simp [hbase] at hnone
  waits := hwaits
  told _ base hbase' here hhere' := by
    obtain rfl : log.latest = base := Option.some_inj.1 (hbase.symm.trans hbase')
    obtain rfl : log.latest = here := Option.some_inj.1 (hhere.symm.trans hhere')
    refine ⟨le_rfl, ?_, .inl rfl⟩
    rw [hsame.2.2, hr.unbegun hnone, between_self]

theorem Told.ask (hr : r.Told history) (h : log.Sums history) (hidle : r.waiter = none)
    (now wait : ℕ) : (r.ask log now wait).Told history := by
  have hpos : r.position = r.since := by simp [position, hidle]
  have hbegun := hr.begun
  rw [hpos] at hbegun
  unfold Reader.ask EventLog.eventsAfter
  dsimp only
  cases hsince : r.since with
  | none =>
    have hbase : r.base = none := by simpa [hsince] using hbegun
    split
    · next page hreply =>
      have hcursor : page.cursor = log.latest := by
        split at hreply
        · cases hreply
          rfl
        · cases hreply
      refine hr.begin hbase ⟨rfl, rfl, rfl⟩ (congrArg some hcursor) ?_ ?_
      · simpa [position, hidle] using hcursor
      · simp [hidle]
    · next waiter hreply =>
      obtain rfl : _ = waiter := by
        split at hreply
        · cases hreply
        · exact Reply.held.inj hreply
      exact hr.begin hbase ⟨rfl, rfl, rfl⟩ (by simp [hbase]) rfl (by simp)
  | some here =>
    obtain ⟨base, hbase⟩ : ∃ base, r.base = some base :=
      Option.isSome_iff_exists.1 (by simpa [hsince] using hbegun)
    split
    · next page hreply =>
      obtain rfl : _ = page := by
        split at hreply
        · exact Reply.now.inj hreply
        · cases hreply
      exact hr.receive h (hpos.trans hsince)
    · next waiter hreply =>
      obtain rfl : _ = waiter := by
        split at hreply
        · cases hreply
        · exact Reply.held.inj hreply
      refine ⟨rfl, fun hnone => by simp at hnone, by simp, fun hgap base' hbase' here' hhere' => ?_⟩
      obtain rfl : base = base' := by simpa [hbase] using hbase'
      obtain rfl : here = here' := by simpa [position] using hhere'
      exact hr.told hgap base hbase here (hpos.trans hsince)

theorem Told.tick (hr : r.Told history) (h : log.Sums history) (now : ℕ) :
    (r.tick log now).Told history := by
  unfold Reader.tick
  split
  · next page hpage =>
    obtain ⟨waiter, hwaiter, hanswer⟩ := Option.bind_eq_some_iff.1 hpage
    obtain ⟨hproject, hkinds⟩ := hr.waits waiter hwaiter
    obtain rfl : log.page r.project (some waiter.since) r.kinds = page := by
      unfold EventLog.answerEventWaiter at hanswer
      dsimp only at hanswer
      split at hanswer
      · cases hanswer
      · rw [← hproject, ← hkinds]
        exact Option.some_inj.1 hanswer
    exact hr.receive h (by simp [position, hwaiter])
  · exact hr

end Reader

namespace Feed

/-- The log is that of the history, and every reader was told what it was after. -/
structure Faithful (s : Feed) : Prop where
  sums : s.log.Sums s.history
  told : ∀ reader, (s.readers reader).Told s.history

theorem Faithful.next {s : Feed} (h : Faithful s) {e : Event} (he : machine.Enabled s e) :
    Faithful (machine.next s e) := by
  cases e with
  | record draft time =>
    exact ⟨h.sums.recordAt draft time, fun reader => (h.told reader).record h.sums draft time⟩
  | ask reader now wait =>
    refine ⟨h.sums, fun reader' => ?_⟩
    by_cases hreader : reader' = reader
    · subst hreader
      simpa [machine, Feed.next] using (h.told reader').ask h.sums he now wait
    · simpa [machine, Feed.next, Function.update_of_ne hreader] using h.told reader'
  | tick now => exact ⟨h.sums, fun reader => (h.told reader).tick h.sums now⟩

theorem faithful_first (epoch : ℕ) (readers : ℕ → ProjectRoot × List EventKind × Option EventSeq) :
    Faithful (first epoch readers) :=
  ⟨EventLog.sums_withEpoch epoch, fun _ => Reader.told_new _ _ _⟩

/-- **The event feed is exact.**  After any records and reads: a page read from a cursor without a gap
is all events ever recorded about the project or the whole service, of the kinds asked for, after the
cursor and in order; a gap is reported exactly when the cursor is of another log or past the newest
event, or such an event after it was dropped; a reader that passes on each page's cursor and was told of
no gap has every such event from where it began to where it stands, once and in order; and times never
go back. -/
theorem event_feed_exact {epoch : ℕ} {readers : ℕ → ProjectRoot × List EventKind × Option EventSeq}
    {s : Feed} (hs : machine.Reaches (first epoch readers) s) :
    (∀ project since kinds, (s.log.page project (some since) kinds).gap = false →
      (s.log.page project (some since) kinds).events = s.history.filter fun event =>
        event.isRelevant project kinds && since.seq < event.seq.seq) ∧
    (∀ project since kinds, (s.log.page project (some since) kinds).gap ↔
      since.epoch ≠ s.log.epoch ∨ s.log.recorded < since.seq ∨
        ∃ event ∈ s.history, event ∉ s.log.ring ∧ event.project.all (· = project) ∧
          since.seq < event.seq.seq) ∧
    (∀ reader, (s.readers reader).gap = false → ∀ base ∈ (s.readers reader).base,
      ∀ here ∈ (s.readers reader).position,
      (s.readers reader).got = s.history.filter fun event =>
        event.isRelevant (s.readers reader).project (s.readers reader).kinds &&
          base.seq < event.seq.seq && event.seq.seq ≤ here.seq) ∧
    s.history.Pairwise (fun event later => event.seq.seq < later.seq.seq ∧ event.time ≤ later.time) := by
  have h : Faithful s := hs.invariant (fun _ _ h he => h.next he) (faithful_first epoch readers)
  refine ⟨fun project since kinds hgap => h.sums.page_events hgap,
    fun project since kinds => h.sums.page_gap project since kinds,
    fun reader hgap base hbase here hhere => ?_, h.sums.numbered.and h.sums.times⟩
  rw [((h.told reader).told hgap base hbase here hhere).2.1, between, EventLog.after,
    List.filter_filter]
  exact List.filter_congr fun event _ => Bool.and_comm _ _

/-- A crash is recorded, a reader gets it and waits for more; then the service itself says something,
at a clock gone back, and the wait is answered. -/
def crashFeed : Feed :=
  machine.play (first 7 fun _ => (.top [115], [.crashed, .notice], some ⟨7, 0⟩))
    [.record ⟨some (.top [115]), none, .crashed, "exit 1", none⟩ 5, .ask 0 1 10, .ask 0 2 10,
     .record ⟨none, none, .notice, "low on disk", none⟩ 3, .tick 4]

theorem event_feed_exact_waited :
    (crashFeed.readers 0).got = crashFeed.history.filter fun event =>
      event.isRelevant (crashFeed.readers 0).project (crashFeed.readers 0).kinds &&
        0 < event.seq.seq && event.seq.seq ≤ 2 :=
  (event_feed_exact (Machine.reaches_play (by decide))).2.2.1 0 (by decide) ⟨7, 0⟩ (by decide)
    ⟨7, 2⟩ (by decide)

end Feed

end Muster.Events
