import Mathlib.Data.List.Basic
import Mathlib.Logic.Function.Basic
import Muster.Service.Occupancy
import Muster.Supervisor.Domain

/-!
# EventLog — the service's log of what happened

The log is a bounded ring of the newest events of every project, each numbered by how many were ever
recorded under the log's epoch; beside it stands, by project, the newest number dropped.  What it is
for is told by the list of all events ever recorded: a page read from a cursor either is exactly what
that list holds after the cursor, or it says that something was missed.
-/

namespace Muster.Events

open Config (ProjectRoot)
open Supervisor (ProcessName)

inductive EventKind where
  | started | ready | readyTimeout | exited | crashed | restarting | stopped | blocked | notice
  | idleStopped
deriving DecidableEq, Repr

/-- A position in one service's log: the epoch that names the log, and how many events it had. -/
structure EventSeq where
  epoch : ℕ
  seq : ℕ
deriving DecidableEq, Repr

/-- Names a later event of the same log; never of another log. -/
def EventSeq.isAfter (a b : EventSeq) : Bool := a.epoch = b.epoch && b.seq < a.seq

/-- What an event is about, before the log numbers it. -/
structure EventDraft where
  project : Option ProjectRoot
  process : Option ProcessName
  kind : EventKind
  detail : String
  cursor : Option ℕ
deriving DecidableEq, Repr

structure StackEvent where
  seq : EventSeq
  time : ℕ
  project : Option ProjectRoot
  process : Option ProcessName
  kind : EventKind
  detail : String
  cursor : Option ℕ
deriving DecidableEq, Repr

def EventDraft.intoEvent (draft : EventDraft) (seq : EventSeq) (time : ℕ) : StackEvent where
  seq
  time
  project := draft.project
  process := draft.process
  kind := draft.kind
  detail := draft.detail
  cursor := draft.cursor

/-- The event concerns `project` or the whole service, and is one of `kinds`, or any when there are
none. -/
def StackEvent.isRelevant (project : ProjectRoot) (kinds : List EventKind) (event : StackEvent) : Bool :=
  event.project.all (· = project) && (kinds.isEmpty || event.kind ∈ kinds)

/-- Events after a cursor, and the cursor to go on from. -/
structure EventPage where
  events : List StackEvent
  cursor : EventSeq
  gap : Bool
deriving DecidableEq, Repr

def maxEvents : ℕ := 1024

def eventsWithoutSince : ℕ := 20

structure EventLog where
  epoch : ℕ
  ring : List StackEvent
  recorded : ℕ
  dropped : Option ProjectRoot → Option ℕ

namespace EventLog

def withEpoch (epoch : ℕ) : EventLog where
  epoch
  ring := []
  recorded := 0
  dropped _ := none

variable (log : EventLog)

def latest : EventSeq := ⟨log.epoch, log.recorded⟩

def newEvent (draft : EventDraft) (time : ℕ) : StackEvent :=
  let time := match log.ring.getLast? with
    | some newest => max time newest.time
    | none => time
  draft.intoEvent ⟨log.epoch, log.recorded + 1⟩ time

def makeRoom : EventLog :=
  if log.ring.length = maxEvents then
    match log.ring with
    | oldest :: ring =>
      { log with ring, dropped := Function.update log.dropped oldest.project (some oldest.seq.seq) }
    | [] => log
  else log

def recordAt (draft : EventDraft) (time : ℕ) : EventLog :=
  { log.makeRoom with
    ring := log.makeRoom.ring ++ [log.newEvent draft time]
    recorded := log.recorded + 1 }

/-- An event of the project or the whole service after `since` was dropped. -/
def missed (project : ProjectRoot) (since : EventSeq) : Bool :=
  ([some project, none].filterMap log.dropped).any (since.seq < ·)

def page (project : ProjectRoot) (since : Option EventSeq) (kinds : List EventKind) : EventPage :=
  let relevant := log.ring.filter (·.isRelevant project kinds)
  let (events, gap) := match since with
    | some since =>
      if since.epoch ≠ log.epoch ∨ log.recorded < since.seq then (relevant, true)
      else (relevant.filter (since.seq < ·.seq.seq), log.missed project since)
    | none => ((relevant.reverse.take eventsWithoutSince).reverse, false)
  ⟨events, log.latest, gap⟩

/-! ### What was ever recorded -/

def newestOf (events : List StackEvent) (project : Option ProjectRoot) : Option ℕ :=
  ((events.filter (·.project = project)).getLast?).map (·.seq.seq)

/-- The log holds the end of `history`, and sums up the rest by the newest number of each project. -/
def Holds (log : EventLog) (history : List StackEvent) : Prop :=
  ∃ gone, history = gone ++ log.ring ∧ log.dropped = newestOf gone

/-- The log is that of `history`, all events recorded under its epoch. -/
structure Sums (log : EventLog) (history : List StackEvent) : Prop where
  recorded : log.recorded = history.length
  epoch : ∀ event ∈ history, event.seq.epoch = log.epoch
  bounded : ∀ event ∈ history, event.seq.seq ≤ history.length
  numbered : history.Pairwise (·.seq.seq < ·.seq.seq)
  times : history.Pairwise (·.time ≤ ·.time)
  newest : history.getLast? = log.ring.getLast?
  holds : Holds log history

theorem sums_withEpoch (epoch : ℕ) : Sums (withEpoch epoch) [] where
  recorded := rfl
  epoch := nofun
  bounded := nofun
  numbered := .nil
  times := .nil
  newest := rfl
  holds := ⟨[], rfl, rfl⟩

variable {log} {history : List StackEvent} {event : StackEvent} {project : ProjectRoot}
  {since : EventSeq} {kinds : List EventKind}

theorem Holds.makeRoom (h : Holds log history) : Holds log.makeRoom history := by
  unfold EventLog.makeRoom
  split
  · split
    · next oldest ring hring =>
      obtain ⟨gone, hsplit, hdropped⟩ := h
      refine ⟨gone ++ [oldest], by simp [hsplit, hring], funext fun key => ?_⟩
      by_cases hkey : oldest.project = key
      · simp [newestOf, hkey]
      · simp [newestOf, hkey, hdropped, Function.update_of_ne (Ne.symm hkey)]
    · exact h
  · exact h

theorem makeRoom_epoch : log.makeRoom.epoch = log.epoch := by
  unfold EventLog.makeRoom
  split
  · split <;> rfl
  · rfl

theorem time_le_newEvent (h : Sums log history) {draft : EventDraft} {time : ℕ}
    (hevent : event ∈ history) : event.time ≤ (log.newEvent draft time).time := by
  obtain ⟨newest, hnewest⟩ : ∃ newest, history.getLast? = some newest :=
    Option.ne_none_iff_exists'.1 fun hnone => by simp_all
  have hle : event.time ≤ newest.time := by
    obtain ⟨before, rfl⟩ := List.getLast?_eq_some_iff.1 hnewest
    obtain hevent | hevent := List.mem_append.1 hevent
    · exact (List.pairwise_append.1 h.times).2.2 event hevent newest (by simp)
    · rw [List.mem_singleton.1 hevent]
  rw [h.newest] at hnewest
  simp only [newEvent, hnewest, EventDraft.intoEvent]
  exact hle.trans (le_max_right _ _)

theorem Sums.recordAt (h : Sums log history) (draft : EventDraft) (time : ℕ) :
    Sums (log.recordAt draft time) (history ++ [log.newEvent draft time]) where
  recorded := by simp [EventLog.recordAt, h.recorded]
  epoch event hevent := by
    show event.seq.epoch = log.makeRoom.epoch
    rw [makeRoom_epoch]
    obtain hevent | hevent := List.mem_append.1 hevent
    · exact h.epoch event hevent
    · rw [List.mem_singleton.1 hevent]
      rfl
  bounded event hevent := by
    rw [List.length_append, List.length_singleton]
    obtain hevent | hevent := List.mem_append.1 hevent
    · exact (h.bounded event hevent).trans (Nat.le_succ _)
    · rw [List.mem_singleton.1 hevent, ← h.recorded]
      exact le_rfl
  numbered := by
    refine List.pairwise_append.2 ⟨h.numbered, List.pairwise_singleton _ _, fun event hevent new hnew => ?_⟩
    rw [List.mem_singleton.1 hnew]
    have hle := h.bounded event hevent
    rw [← h.recorded] at hle
    exact Nat.lt_succ_of_le hle
  times := by
    refine List.pairwise_append.2 ⟨h.times, List.pairwise_singleton _ _, fun event hevent new hnew => ?_⟩
    rw [List.mem_singleton.1 hnew]
    exact time_le_newEvent h hevent
  newest := by simp [EventLog.recordAt]
  holds := by
    obtain ⟨gone, hsplit, hdropped⟩ := h.holds.makeRoom
    exact ⟨gone, by rw [hsplit, List.append_assoc]; rfl, hdropped⟩

/-! ### Pages -/

theorem exists_newestOf_iff {events : List StackEvent} (h : events.Pairwise (·.seq.seq < ·.seq.seq))
    (project : Option ProjectRoot) {n : ℕ} :
    (∃ newest, newestOf events project = some newest ∧ n < newest) ↔
      ∃ event ∈ events, event.project = project ∧ n < event.seq.seq := by
  have hsorted := h.filter (·.project = project)
  have hmem : ∀ event, event ∈ events ∧ event.project = project ↔
      event ∈ events.filter (·.project = project) := fun event => by simp
  simp only [← and_assoc, hmem, newestOf]
  generalize events.filter (·.project = project) = l at hsorted
  rcases l.eq_nil_or_concat with rfl | ⟨before, newest, rfl⟩
  · simp
  · rw [List.concat_eq_append] at hsorted ⊢
    simp only [List.getLast?_append, List.getLast?_singleton, Option.some_or, Option.map_some,
      Option.some_inj, exists_eq_left']
    refine ⟨fun hlt => ⟨newest, by simp, hlt⟩, fun ⟨event, hevent, hlt⟩ => ?_⟩
    obtain hevent | hevent := List.mem_append.1 hevent
    · exact hlt.trans ((List.pairwise_append.1 hsorted).2.2 event hevent newest (by simp))
    · rwa [← List.mem_singleton.1 hevent]

theorem missed_iff {gone : List StackEvent} (hdropped : log.dropped = newestOf gone)
    (hnumbered : gone.Pairwise (·.seq.seq < ·.seq.seq)) : log.missed project since ↔
      ∃ event ∈ gone, event.project.all (· = project) ∧ since.seq < event.seq.seq := by
  have hnewest := fun key => exists_newestOf_iff hnumbered key (n := since.seq)
  have habout : ∀ event : StackEvent, event.project.all (· = project) ↔
      event.project = some project ∨ event.project = none := fun event => by
    cases event.project <;> simp
  have hmissed : log.missed project since ↔
      ∃ key, (key = some project ∨ key = none) ∧ ∃ n, newestOf gone key = some n ∧ since.seq < n := by
    rw [missed, List.any_filterMap, hdropped]
    simp only [List.any_cons, List.any_nil, Bool.or_false, Bool.or_eq_true, exists_eq_or_imp,
      exists_eq_left]
    cases newestOf gone (some project) <;> cases newestOf gone none <;> simp
  simp only [hmissed, hnewest, habout]
  constructor
  · rintro ⟨key, hkey, event, hevent, rfl, hlt⟩
    exact ⟨event, hevent, hkey, hlt⟩
  · rintro ⟨event, hevent, hkey, hlt⟩
    exact ⟨event.project, hkey, event, hevent, rfl, hlt⟩

/-- The events about the project or the whole service after a cursor that the log no longer holds. -/
def Dropped (log : EventLog) (history : List StackEvent) (project : ProjectRoot) (since : EventSeq) :
    Prop :=
  ∃ event ∈ history, event ∉ log.ring ∧ event.project.all (· = project) ∧ since.seq < event.seq.seq

theorem Sums.missed_iff (h : Sums log history) :
    log.missed project since ↔ Dropped log history project since := by
  obtain ⟨gone, rfl, hdropped⟩ := h.holds
  obtain ⟨hgone, -, hbefore⟩ := List.pairwise_append.1 h.numbered
  have hout : ∀ event ∈ gone, event ∉ log.ring := fun event hevent hin =>
    absurd (hbefore event hevent event hin) (lt_irrefl _)
  rw [EventLog.missed_iff hdropped hgone]
  constructor
  · rintro ⟨event, hevent, habout, hlt⟩
    exact ⟨event, List.mem_append_left _ hevent, hout event hevent, habout, hlt⟩
  · rintro ⟨event, hevent, hnot, habout, hlt⟩
    exact ⟨event, (List.mem_append.1 hevent).resolve_right hnot, habout, hlt⟩

/-- A gap is reported exactly when the cursor is of another log or past the newest event, or something
after it was dropped. -/
theorem Sums.page_gap (h : Sums log history) (project : ProjectRoot) (since : EventSeq)
    (kinds : List EventKind) : (log.page project (some since) kinds).gap ↔
      since.epoch ≠ log.epoch ∨ log.recorded < since.seq ∨ Dropped log history project since := by
  rw [← or_assoc, ← h.missed_iff]
  unfold page
  by_cases hother : since.epoch ≠ log.epoch ∨ log.recorded < since.seq
  · simp only [hother, true_or, if_true]
  · simp only [hother, false_or, if_false]

/-- The events of `history` a reader of `project` and `kinds` is after. -/
def after (history : List StackEvent) (project : ProjectRoot) (kinds : List EventKind) (since : ℕ) :
    List StackEvent :=
  history.filter fun event => event.isRelevant project kinds && since < event.seq.seq

/-- A page without a gap is all that was ever recorded after the cursor. -/
theorem Sums.page_events (h : Sums log history)
    (hgap : (log.page project (some since) kinds).gap = false) :
    (log.page project (some since) kinds).events = after history project kinds since.seq := by
  have hnot : ¬ (since.epoch ≠ log.epoch ∨ log.recorded < since.seq ∨
      Dropped log history project since) := fun hsome =>
    Bool.false_ne_true (hgap.symm.trans ((h.page_gap project since kinds).2 hsome))
  obtain ⟨hepoch, hdropped⟩ := not_or.1 (mt or_assoc.1 hnot)
  have hkept : log.ring.filter (fun event => event.isRelevant project kinds &&
      since.seq < event.seq.seq) = after history project kinds since.seq := by
    obtain ⟨gone, rfl, hsummed⟩ := h.holds
    obtain ⟨hgone, -, -⟩ := List.pairwise_append.1 h.numbered
    rw [← h.missed_iff, EventLog.missed_iff hsummed hgone] at hdropped
    have hnil : gone.filter (fun event => event.isRelevant project kinds &&
        since.seq < event.seq.seq) = [] := List.filter_eq_nil_iff.2 fun event hevent hsome => by
      simp only [StackEvent.isRelevant, Bool.and_eq_true, decide_eq_true_eq] at hsome
      exact hdropped ⟨event, hevent, hsome.1.1, hsome.2⟩
    rw [after, List.filter_append, hnil, List.nil_append]
  unfold page
  simp only [if_neg hepoch, List.filter_filter]
  rw [← hkept]
  exact List.filter_congr fun event _ => Bool.and_comm _ _

theorem mem_ring_of_page {since : Option EventSeq}
    (h : event ∈ (log.page project since kinds).events) : event ∈ log.ring := by
  unfold page at h
  cases since with
  | none =>
    have h := List.mem_of_mem_take (List.mem_reverse.1 h)
    exact (List.mem_filter.1 (List.mem_reverse.1 h)).1
  | some since =>
    dsimp only at h
    split at h
    · exact (List.mem_filter.1 h).1
    · exact (List.mem_filter.1 (List.mem_filter.1 h).1).1

theorem lt_of_page (hepoch : since.epoch = log.epoch) (hle : since.seq ≤ log.recorded)
    (h : event ∈ (log.page project (some since) kinds).events) : since.seq < event.seq.seq := by
  have hown : ¬ (since.epoch ≠ log.epoch ∨ log.recorded < since.seq) := by
    simp [hepoch, hle]
  unfold page at h
  simp only [if_neg hown] at h
  simpa using (List.mem_filter.1 h).2

end EventLog

end Muster.Events
