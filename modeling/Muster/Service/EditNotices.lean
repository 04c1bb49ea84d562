import Mathlib.Data.List.MinMax
import Muster.Lib.Machine

/-!
# EditNotices — a registered project's agent edits on their way to the event log

Writers append edits to the stored log, which keeps the newest; the service looks from time to time and
raises what is past its mark as notices.  The mark is kept in memory and handed to the recorder, which stores
it when it can; a service that takes over knows only what is stored.  New ids are one past the largest of the
whole table, so what other projects store and delete moves them.
-/

namespace Muster.Service

structure RecordedEdit where
  id : ℕ
  time : ℕ
  process : Option String
  message : String
deriving DecidableEq, Repr

def editLogRetention : ℕ := 50

structure EditNotices where
  /-- The project's edits in the order of their ids, and the ids of the other projects' edits. -/
  edits : List RecordedEdit
  others : List ℕ
  /-- The newest edit this service raised. -/
  raised : Option ℕ
  /-- The newest edit stored as raised. -/
  stored : Option ℕ
  /-- Marks on their way to the store, oldest first. -/
  pending : List ℕ
  notices : List RecordedEdit
deriving DecidableEq, Repr

inductive EditEvent where
  /-- A writer commits an edit, which the log keeps when an agent made it. -/
  | edited (logged : Bool) (time : ℕ) (process : Option String) (message : String)
  /-- Other projects' edits are stored and deleted. -/
  | elsewhere (others : List ℕ)
  | looked
  /-- The recorder stores its oldest mark, or gives it up. -/
  | landed
  | gaveUp
  /-- Another service takes over. -/
  | restarted

namespace EditNotices

def new : EditNotices := ⟨[], [], none, none, [], []⟩

variable (s : EditNotices)

def nextId : ℕ := (s.edits.map RecordedEdit.id ++ s.others).foldr max 0 + 1

def recordEdit (logged : Bool) (time : ℕ) (process : Option String) (message : String) : EditNotices :=
  if logged then
    let edits := s.edits ++ [⟨s.nextId, time, process, message⟩]
    { s with edits := edits.drop (edits.length - editLogRetention) }
  else s

def mark : Option ℕ := s.raised.or s.stored

def raiseEdits : EditNotices :=
  let fresh := s.edits.filter fun edit => s.mark.all (· < edit.id)
  match s.edits.getLast? with
  | some newest =>
    { s with
      notices := s.notices ++ fresh
      pending := if s.mark = some newest.id then s.pending else s.pending ++ [newest.id]
      raised := some newest.id }
  | none => { s with notices := s.notices ++ fresh, raised := none }

def next : EditEvent → EditNotices
  | .edited logged time process message => s.recordEdit logged time process message
  | .elsewhere others => { s with others := others }
  | .looked => s.raiseEdits
  | .landed =>
    match s.pending with
    | [] => s
    | mark :: pending => { s with stored := some (max (s.stored.getD mark) mark), pending := pending }
  | .gaveUp => { s with pending := s.pending.tail }
  | .restarted => { s with raised := none, pending := [] }

def machine : Machine EditNotices EditEvent := ⟨fun _ _ => True, next⟩

/-- The recorder stores every mark, also before a service ends. -/
def Recorded : EditEvent → Prop
  | .gaveUp => False
  | .restarted => s.pending = []
  | _ => True

/-! ### The notices -/

variable {s}

/-- The stored mark and those on their way to the store, in the order they were made. -/
def marks (s : EditNotices) : List ℕ := s.stored.toList ++ s.pending

structure Inv (s : EditNotices) : Prop where
  ascending : s.edits.Pairwise fun a b => a.id < b.id
  ordered : s.notices.Pairwise fun a b => a.id < b.id
  past : ∀ notice ∈ s.notices, ∃ mark, s.mark = some mark ∧ notice.id ≤ mark
  caught : ∀ mark, s.mark = some mark →
    (∃ edit ∈ s.edits, mark ≤ edit.id) ∧ ∀ edit ∈ s.edits, edit.id ≤ mark → edit ∈ s.notices
  rising : s.marks.Pairwise (· < ·)
  newest : s.marks.getLast? = s.mark
  own : s.raised = none → s.pending = []

/-- What neither writes nor raises an edit keeps the mark, and the invariant with it. -/
theorem Inv.of_mark {t : EditNotices} (h : s.Inv) (hedits : t.edits = s.edits)
    (hnotices : t.notices = s.notices) (hmark : t.mark = s.mark)
    (hrising : t.marks.Pairwise (· < ·)) (hnewest : t.marks.getLast? = s.mark)
    (hown : t.raised = none → t.pending = []) : t.Inv where
  ascending := hedits ▸ h.ascending
  ordered := hnotices ▸ h.ordered
  past := by rw [hnotices, hmark]; exact h.past
  caught := by rw [hnotices, hmark, hedits]; exact h.caught
  rising := hrising
  newest := hnewest.trans hmark.symm
  own := hown

theorem le_last {α : Type} (key : α → ℕ) {items : List α} (h : items.Pairwise fun a b => key a < key b)
    {last : α} (hlast : items.getLast? = some last) : ∀ item ∈ items, key item ≤ key last := by
  obtain ⟨init, rfl⟩ := List.getLast?_eq_some_iff.1 hlast
  intro item hitem
  rcases List.mem_append.1 hitem with hold | hnew
  · exact Nat.le_of_lt ((List.pairwise_append.1 h).2.2 item hold last (by simp))
  · exact Nat.le_of_eq (congrArg key (List.mem_singleton.1 hnew))

theorem lt_nextId {edit : RecordedEdit} (hedit : edit ∈ s.edits) : edit.id < s.nextId :=
  Nat.lt_succ_of_le (List.le_max_of_le' 0
    (List.mem_append_left _ (List.mem_map_of_mem hedit)) (Nat.le_refl _))

theorem Inv.recordEdit (h : s.Inv) (logged : Bool) (time : ℕ) (process : Option String) (message : String) :
    (s.recordEdit logged time process message).Inv := by
  unfold EditNotices.recordEdit
  split
  · set edit : RecordedEdit := ⟨s.nextId, time, process, message⟩
    set dropped := (s.edits ++ [edit]).length - editLogRetention with hdropped
    have hall : (s.edits ++ [edit]).Pairwise fun a b => a.id < b.id := by
      refine List.pairwise_append.2 ⟨h.ascending, by simp, fun a ha b hb => ?_⟩
      obtain rfl : b = edit := by simpa using hb
      exact lt_nextId ha
    -- the retention never drops the newest
    have hkept : edit ∈ (s.edits ++ [edit]).drop dropped := by
      have hlast : dropped ≤ s.edits.length := by
        rw [hdropped, List.length_append, List.length_singleton]
        unfold editLogRetention
        omega
      rw [List.drop_append_of_le_length hlast]
      simp
    refine { h with ascending := hall.sublist (List.drop_sublist _ _), caught := fun mark hmark => ?_ }
    obtain ⟨⟨other, hother, hle⟩, hraised⟩ := h.caught mark hmark
    have hpast : mark < s.nextId := Nat.lt_of_le_of_lt hle (lt_nextId hother)
    refine ⟨⟨edit, hkept, Nat.le_of_lt hpast⟩, fun e he heid => ?_⟩
    rcases List.mem_append.1 (List.mem_of_mem_drop he) with hold | hnew
    · exact hraised e hold heid
    · obtain rfl : e = edit := by simpa using hnew
      exact absurd heid (Nat.not_le_of_lt hpast)
  · exact h

theorem Inv.landed (h : s.Inv) : (s.next .landed).Inv := by
  cases hpending : s.pending with
  | nil => simpa only [EditNotices.next, hpending] using h
  | cons head pending =>
    have hrising := h.rising
    have hnewest := h.newest
    rw [marks, hpending] at hrising hnewest
    have hlater : max (s.stored.getD head) head = head := by
      cases hstored : s.stored with
      | none => exact Nat.max_self head
      | some stored =>
        have hlt := (List.pairwise_append.1 hrising).2.2 stored (by simp [hstored]) head (by simp)
        exact Nat.max_eq_right (Nat.le_of_lt hlt)
    have hlast : (head :: pending).getLast? = s.mark := by
      rw [← hnewest, List.getLast?_append_of_ne_nil _ (List.cons_ne_nil _ _)]
    obtain ⟨own, hown⟩ := Option.ne_none_iff_exists'.1
      (show s.raised ≠ none from fun hnone => by simp [h.own hnone] at hpending)
    simp only [EditNotices.next, hpending, hlater]
    exact h.of_mark rfl rfl (by simp [mark, hown]) (List.pairwise_append.1 hrising).2.1 hlast
      fun hnone => by simp [hown] at hnone

theorem Inv.raised_all (h : s.Inv) {edit : RecordedEdit} (hedit : edit ∈ s.edits) :
    edit ∈ s.notices ++ s.edits.filter fun edit => s.mark.all (· < edit.id) := by
  cases hm : s.mark with
  | none => exact List.mem_append_right _ (by simpa using hedit)
  | some mark =>
    rcases Nat.lt_or_ge mark edit.id with hlt | hle
    · exact List.mem_append_right _ (List.mem_filter.2 ⟨hedit, by simpa using hlt⟩)
    · exact List.mem_append_left _ ((h.caught mark hm).2 edit hedit hle)

theorem Inv.raiseEdits (h : s.Inv) : s.raiseEdits.Inv := by
  cases hlast : s.edits.getLast? with
  | none =>
    obtain hnil : s.edits = [] := List.getLast?_eq_none_iff.1 hlast
    have hmark : s.mark = none := by
      cases hm : s.mark with
      | none => rfl
      | some mark => simpa [hnil] using (h.caught mark hm).1
    have hraised : s.raised = none ∧ s.stored = none := by simpa [mark] using hmark
    simp only [EditNotices.raiseEdits, hnil, List.filter_nil, List.append_nil]
    exact h.of_mark hnil.symm rfl (by simp [mark, hraised]) h.rising h.newest fun _ => h.own hraised.1
  | some newest =>
    have hle := le_last RecordedEdit.id h.ascending hlast
    have hbefore : ∀ mark, s.mark = some mark → mark ≤ newest.id := by
      intro mark hmark
      obtain ⟨edit, hedit, hmarkle⟩ := (h.caught mark hmark).1
      exact Nat.le_trans hmarkle (hle edit hedit)
    have hmarks : (if s.mark = some newest.id then s.marks else s.marks ++ [newest.id]) =
        s.raiseEdits.marks := by
      simp only [EditNotices.raiseEdits, hlast, marks]
      split <;> simp
    rw [EditNotices.raiseEdits, hlast] at hmarks ⊢
    constructor
    case ascending => exact h.ascending
    case ordered =>
      refine List.pairwise_append.2 ⟨h.ordered, h.ascending.sublist List.filter_sublist, ?_⟩
      intro notice hnotice edit hedit
      obtain ⟨mark, hmark, hnoticed⟩ := h.past notice hnotice
      have hafter : mark < edit.id := by simpa [hmark] using (List.mem_filter.1 hedit).2
      exact Nat.lt_of_le_of_lt hnoticed hafter
    case past =>
      intro notice hnotice
      refine ⟨newest.id, rfl, ?_⟩
      rcases List.mem_append.1 hnotice with hold | hfresh
      · obtain ⟨mark, hmark, hnoticed⟩ := h.past notice hold
        exact Nat.le_trans hnoticed (hbefore mark hmark)
      · exact hle notice (List.mem_filter.1 hfresh).1
    case caught =>
      rintro mark hmark
      obtain rfl := Option.some.inj hmark
      exact ⟨⟨newest, List.mem_of_getLast? hlast, Nat.le_refl _⟩, fun edit hedit _ => h.raised_all hedit⟩
    case rising =>
      refine hmarks ▸ ?_
      split
      · exact h.rising
      · next hne =>
        refine List.pairwise_append.2 ⟨h.rising, by simp, fun earlier hearlier mark hmark => ?_⟩
        obtain rfl := List.mem_singleton.1 hmark
        obtain ⟨last, hlast⟩ := Option.ne_none_iff_exists'.1
          (mt List.getLast?_eq_none_iff.1 (List.ne_nil_of_mem hearlier))
        have hup := le_last (fun n => n) h.rising hlast earlier hearlier
        rw [h.newest] at hlast
        have hbound := hbefore last hlast
        have hother : last ≠ newest.id := fun heq => hne (heq ▸ hlast)
        omega
    case own => exact fun hnone => by cases hnone
    case newest =>
      refine hmarks ▸ ?_
      split
      · next hsame => exact h.newest.trans hsame
      · exact List.getLast?_concat

theorem Inv.next (h : s.Inv) {e : EditEvent} (he : s.Recorded e) : (s.next e).Inv := by
  cases e with
  | edited logged time process message => exact h.recordEdit logged time process message
  | elsewhere others => exact h.of_mark rfl rfl rfl h.rising h.newest h.own
  | looked => exact h.raiseEdits
  | landed => exact h.landed
  | gaveUp => exact absurd he id
  | restarted =>
    -- with nothing on its way, the stored mark is the service's own
    have hnone : s.pending = [] := he
    have hstored : s.stored = s.mark := by
      have hnewest := h.newest
      rw [marks, hnone, List.append_nil] at hnewest
      cases hs : s.stored <;> simpa [hs] using hnewest
    have hmarks : EditNotices.marks { s with raised := none, pending := [] } = s.marks := by
      simp [marks, hnone]
    exact h.of_mark rfl rfl hstored (hmarks ▸ h.rising) (hmarks ▸ h.newest) fun _ => rfl

/-- **Every edit kept is raised, and none twice.**  While the recorder stores every mark, the last ones before
a service ends, the notices come in the order the edits were recorded, each once, over any number of
services; and a look leaves no edit of the log unraised. -/
theorem edits_raised_once (hr : (machine.restrict Recorded).Reaches new s) :
    s.notices.Pairwise (fun a b => a.id < b.id) ∧ ∀ edit ∈ s.edits, edit ∈ s.raiseEdits.notices := by
  have hinv := hr.invariant_restrict (P := Inv) (fun _ _ hs _ he => hs.next he)
    ⟨.nil, .nil, by simp [new], by simp [new, mark], .nil, rfl, fun _ => rfl⟩
  refine ⟨hinv.ordered, fun edit hedit => ?_⟩
  have hraised := hinv.raised_all hedit
  unfold EditNotices.raiseEdits
  dsimp only
  split <;> exact hraised

instance decidableRecorded (s : EditNotices) : DecidablePred s.Recorded
  | .gaveUp => .isFalse id
  | .restarted => inferInstanceAs (Decidable (_ = _))
  | .edited .. | .elsewhere _ | .looked | .landed => .isTrue trivial

instance decidableMachine : ∀ s e, Decidable (machine.Enabled s e) := fun _ _ => .isTrue trivial

/-- One service raises an edit and ends; the next raises the one stored meanwhile. -/
def handedOver : List EditEvent :=
  [.edited true 5 (some "web") "set web", .looked, .elsewhere [9], .landed, .restarted,
    .edited true 7 none "removed db", .elsewhere [], .looked]

theorem edits_raised_once_handedOver :
    ((machine.play new handedOver).notices.map RecordedEdit.id = [1, 10]) ∧
    (machine.play new handedOver).notices.Pairwise fun a b => a.id < b.id :=
  ⟨by decide, (edits_raised_once (Machine.reaches_play_restrict (by decide))).1⟩

end EditNotices

end Muster.Service
