import Muster.Lib.NumberedRows
import Muster.Store.Coordination

/-!
# EntryPages — listing notes and key-values page after page

Notes and key-values stand in one table each, over all projects, told apart by project and key.  A row's
number is its place in write order: a new row takes the number one past the largest in its table, and a
rewrite keeps it.  A page is the first rows of a project past a position; the listing goes on from the
number of the last row of a page.

Rows keep their numbers, so a row that stays is returned once.  Numbers are used again, though, once the
largest ones are deleted: a row created then may get a number the listing has already passed.
-/

namespace Muster.Store

abbrev EntryRow (ρ : Type) := Numbered (ℕ × String) ρ

abbrev EntryRows (ρ : Type) := NumberedRows (ℕ × String) ρ

structure Note where
  body : String
  author : Author
  updatedAt : EpochSeconds
deriving DecidableEq, Repr

structure NoteHeader where
  author : Author
  updatedAt : EpochSeconds
deriving DecidableEq, Repr

def Note.header (note : Note) : NoteHeader := ⟨note.author, note.updatedAt⟩

structure KeyValue where
  value : String
  author : Author
  updatedAt : EpochSeconds
deriving DecidableEq, Repr

/-- How many entries a page has at most. -/
structure PageSize where
  size : ℕ
  positive : 0 < size

/-- One page of entries, and the last one's position when more follow. -/
structure EntryPage (τ : Type) where
  entries : List τ
  next : Option ℕ
deriving DecidableEq, Repr

/-- The first `limit` of `rows`, read one past the limit so whether more follow is known. -/
def EntryPage.of {τ : Type} (rows : List (ℕ × τ)) (limit : ℕ) : EntryPage τ where
  entries := (rows.take limit).map (·.2)
  next := ((rows.take limit).getLast?.map (·.1)).filter fun _ => limit < rows.length

def pageStart : ℕ := 0

variable {ρ τ : Type}

namespace EntryRows

variable {t : EntryRows ρ} {project : ℕ} {key : String}

def forget (t : EntryRows ρ) (project : ℕ) : EntryRows ρ :=
  t.deleteWhere fun row => row.key.1 = project

def past (t : EntryRows ρ) (project after : ℕ) : List (EntryRow ρ) :=
  t.table.rows.filter fun row => row.key.1 = project && after < row.number

/-- One page of a project's entries after a position, each shown by its key and what `map` makes of it. -/
def page (t : EntryRows ρ) (map : ρ → τ) (project : ℕ) (after : Option ℕ) (limit : ℕ) :
    EntryPage (String × τ) :=
  .of (((past t project (after.getD pageStart)).take (limit + 1)).map
    fun row => (row.number, row.key.2, map row.entry)) limit

def scratchpadPage (t : EntryRows Note) (project : ℕ) (after : Option ℕ) (limit : ℕ) :
    EntryPage (String × NoteHeader) := page t Note.header project after limit

def valuePage (t : EntryRows KeyValue) (project : ℕ) (after : Option ℕ) (limit : ℕ) :
    EntryPage (String × KeyValue) := page t id project after limit

end EntryRows

/-! ### A listing among other calls -/

/-- A call on the store: a write, a deletion, a project that goes, or the next page of the listing. -/
inductive EntryEvent (ρ : Type) where
  | put (project : ℕ) (key : String) (entry : ρ)
  | delete (project : ℕ) (key : String)
  | forget (project : ℕ)
  | page (limit : PageSize)

def EntryEvent.deletes (project : ℕ) (key : String) : EntryEvent ρ → Bool
  | .delete project' key' => (project', key') = (project, key)
  | .forget project' => project' = project
  | _ => false

/-- The table, where the listing goes on, what it has returned, and whether it is at its end. -/
structure Listing (ρ τ : Type) where
  rows : EntryRows ρ
  after : Option ℕ := none
  returned : List (String × τ) := []
  ended : Bool := false

section Listing

variable (map : ρ → τ) (project : ℕ)

namespace Listing

def page (l : Listing ρ τ) (limit : PageSize) : EntryPage (String × τ) :=
  EntryRows.page l.rows map project l.after limit.size

/-- Takes a call.  The page after the last one is not read. -/
def take (l : Listing ρ τ) : EntryEvent ρ → Listing ρ τ
  | .put project key entry => { l with rows := l.rows.put (project, key) entry }
  | .delete project key => { l with rows := l.rows.delete (project, key) }
  | .forget project => { l with rows := EntryRows.forget l.rows project }
  | .page limit =>
    if l.ended then l
    else
      { l with
        after := (l.page map project limit).next
        returned := l.returned ++ (l.page map project limit).entries
        ended := (l.page map project limit).next.isNone }

def run (l : Listing ρ τ) (events : List (EntryEvent ρ)) : Listing ρ τ :=
  events.foldl (take map project) l

def times (l : Listing ρ τ) (key : String) : ℕ := (l.returned.map (·.1)).count key

/-- The entry of a key stands in the table, under the number `position`. -/
def Stands (l : Listing ρ τ) (key : String) (position : ℕ) : Prop :=
  ∃ row, l.rows.table.find (project, key) = some row ∧ row.number = position

end Listing

end Listing

/-! ### What a page holds -/

theorem mem_take_iff {α : Type} {f : α → ℕ} {xs : List α} (h : (xs.map f).Pairwise (· < ·)) {n : ℕ}
    {last : α} (hlast : (xs.take n).getLast? = some last) {x : α} (hx : x ∈ xs) :
    x ∈ xs.take n ↔ f x ≤ f last := by
  obtain ⟨init, hinit⟩ := List.getLast?_eq_some_iff.1 hlast
  rw [← List.take_append_drop n xs, hinit, List.append_assoc, List.singleton_append, List.map_append,
    List.map_cons, List.pairwise_append, List.pairwise_cons] at h
  obtain ⟨-, ⟨hafter, -⟩, hbefore⟩ := h
  constructor
  · intro hmem
    rw [hinit] at hmem
    rcases List.mem_append.1 hmem with hmem | hmem
    · exact Nat.le_of_lt (hbefore _ (List.mem_map_of_mem hmem) _ List.mem_cons_self)
    · rw [List.mem_singleton.1 hmem]
  · intro hle
    rw [← List.take_append_drop n xs] at hx
    rcases List.mem_append.1 hx with hmem | hmem
    · exact hmem
    · exact absurd (hafter _ (List.mem_map_of_mem hmem)) (Nat.not_lt.2 hle)

namespace EntryRows

variable {t : EntryRows ρ} {map : ρ → τ} {project : ℕ} {key : String} {row : EntryRow ρ}
  {after : Option ℕ} {limit : ℕ}

theorem page_entries (after : Option ℕ) (limit : ℕ) : (page t map project after limit).entries =
    ((past t project (after.getD pageStart)).take limit).map fun row => (row.key.2, map row.entry) := by
  rw [page, EntryPage.of]
  dsimp only
  rw [← List.map_take, List.take_take, List.map_map, Nat.min_eq_left (Nat.le_succ limit)]
  rfl

theorem page_next (after : Option ℕ) (limit : ℕ) : (page t map project after limit).next =
    if limit < (past t project (after.getD pageStart)).length then
      ((past t project (after.getD pageStart)).take limit).getLast?.map Numbered.number
    else none := by
  rw [page, EntryPage.of]
  dsimp only
  rw [← List.map_take, List.take_take, Nat.min_eq_left (Nat.le_succ limit), List.getLast?_map,
    Option.map_map, List.length_map, List.length_take]
  have hlength : limit < min (limit + 1) (past t project (after.getD pageStart)).length ↔
      limit < (past t project (after.getD pageStart)).length := by omega
  simp only [hlength]
  cases ((past t project (after.getD pageStart)).take limit).getLast? with
  | none => simp
  | some last =>
    by_cases hmore : limit < (past t project (after.getD pageStart)).length <;> simp [hmore]

def pageKeys (t : EntryRows ρ) (map : ρ → τ) (project : ℕ) (after : Option ℕ) (limit : ℕ) : List String :=
  (page t map project after limit).entries.map (·.1)

theorem pageKeys_eq (after : Option ℕ) (limit : ℕ) : pageKeys t map project after limit =
    ((past t project (after.getD pageStart)).take limit).map (·.key.2) := by
  rw [pageKeys, page_entries, List.map_map]
  rfl

theorem mem_past {after : ℕ} :
    row ∈ past t project after ↔ row ∈ t.table.rows ∧ row.key.1 = project ∧ after < row.number := by
  rw [past, List.mem_filter, Bool.and_eq_true, decide_eq_true_iff, decide_eq_true_iff]

theorem mem_pageKeys (h : t.table.find (project, key) = some row) :
    key ∈ pageKeys t map project after limit ↔
      row ∈ (past t project (after.getD pageStart)).take limit := by
  obtain ⟨hrow, hid⟩ := Table.find_eq_some.1 h
  rw [pageKeys_eq, List.mem_map]
  constructor
  · rintro ⟨other, hother, hkey⟩
    obtain ⟨hmem, hproject, -⟩ := mem_past.1 (List.mem_of_mem_take hother)
    have hsame : other.key = row.key := by
      rw [hid, ← hproject, ← hkey]
    rwa [← List.inj_on_of_nodup_map t.table.keyed hmem hrow hsame]
  · exact fun hmem => ⟨row, hmem, congrArg Prod.snd hid⟩

theorem find_of_mem_pageKeys (h : key ∈ pageKeys t map project after limit) :
    ∃ row, t.table.find (project, key) = some row := by
  rw [pageKeys_eq] at h
  obtain ⟨row, hrow, rfl⟩ := List.mem_map.1 h
  obtain ⟨hmem, hproject, -⟩ := mem_past.1 (List.mem_of_mem_take hrow)
  exact ⟨row, Table.find_eq_some.2 ⟨hmem, by rw [← hproject]⟩⟩

theorem nodup_pageKeys (after : Option ℕ) (limit : ℕ) : (pageKeys t map project after limit).Nodup := by
  have hsub : ((past t project (after.getD pageStart)).take limit).Sublist t.table.rows :=
    (List.take_sublist _ _).trans List.filter_sublist
  have hids : (((past t project (after.getD pageStart)).take limit).map (·.key)).Nodup :=
    t.table.keyed.sublist (hsub.map _)
  have heq : ((past t project (after.getD pageStart)).take limit).map (·.key) =
      (pageKeys t map project after limit).map fun key => (project, key) := by
    rw [pageKeys_eq, List.map_map]
    refine List.map_congr_left fun row hrow => ?_
    obtain ⟨-, hproject, -⟩ := mem_past.1 (List.mem_of_mem_take hrow)
    rw [Function.comp, ← hproject]
  rw [heq] at hids
  exact hids.of_map

theorem ascending_past (t : EntryRows ρ) (project after : ℕ) :
    ((past t project after).map Numbered.number).Pairwise (· < ·) :=
  t.ascending.sublist (List.filter_sublist.map _)

/-- **What a page returns.**  The entries of the project past the position it starts after, up to where
the next page starts, when there is one. -/
theorem mem_pageKeys_iff (hlimit : 0 < limit) (h : t.table.find (project, key) = some row) :
    key ∈ pageKeys t map project after limit ↔ after.getD pageStart < row.number ∧
      ∀ next, (page t map project after limit).next = some next → row.number ≤ next := by
  obtain ⟨hrow, hid⟩ := Table.find_eq_some.1 h
  have hproject : row.key.1 = project := congrArg Prod.fst hid
  rw [mem_pageKeys h, page_next]
  by_cases hpast : row ∈ past t project (after.getD pageStart)
  · have hlt : after.getD pageStart < row.number := (mem_past.1 hpast).2.2
    by_cases hmore : limit < (past t project (after.getD pageStart)).length
    · rw [if_pos hmore]
      obtain ⟨last, hlast⟩ : ∃ last,
          ((past t project (after.getD pageStart)).take limit).getLast? = some last := by
        rw [← Option.isSome_iff_exists, List.getLast?_isSome, ← List.length_pos_iff, List.length_take]
        omega
      rw [mem_take_iff (ascending_past t project _) hlast hpast, hlast]
      simp [hlt]
    · rw [if_neg hmore, List.take_of_length_le (Nat.not_lt.1 hmore)]
      simp [hpast, hlt]
  · have hnot : ¬ after.getD pageStart < row.number := fun hlt =>
      hpast (mem_past.2 ⟨hrow, hproject, hlt⟩)
    exact ⟨fun hmem => absurd (List.mem_of_mem_take hmem) hpast, fun hmem => absurd hmem.1 hnot⟩

theorem lt_of_page_next {next : ℕ}
    (h : (page t map project after limit).next = some next) : after.getD pageStart < next := by
  rw [page_next] at h
  split at h
  · obtain ⟨last, hlast, rfl⟩ := Option.map_eq_some_iff.1 h
    exact (mem_past.1 (List.mem_of_mem_take (List.mem_of_getLast? hlast))).2.2
  · exact absurd h (Option.some_ne_none next).symm

end EntryRows

/-! ### What a listing returns -/

namespace Listing

variable {map : ρ → τ} {project : ℕ} {l : Listing ρ τ} {key : String} {position : ℕ}

@[simp] theorem run_nil : run map project l [] = l := rfl

theorem run_append (events events' : List (EntryEvent ρ)) :
    run map project l (events ++ events') = run map project (run map project l events) events' :=
  List.foldl_append

theorem run_cons (e : EntryEvent ρ) (events : List (EntryEvent ρ)) :
    run map project l (e :: events) = run map project (take map project l e) events := rfl

theorem times_page {limit : PageSize} (h : l.ended = false) :
    (take map project l (.page limit)).times key =
      l.times key + (EntryRows.pageKeys l.rows map project l.after limit.size).count key := by
  rw [take, if_neg (by rw [h]; exact Bool.false_ne_true), times]
  dsimp only
  rw [List.map_append, List.count_append]
  rfl

theorem Stands.take (h : l.Stands project key position) {e : EntryEvent ρ}
    (he : e.deletes project key = false) : (take map project l e).Stands project key position := by
  obtain ⟨row, hrow, hposition⟩ := h
  obtain ⟨-, hid⟩ := Table.find_eq_some.1 hrow
  cases e with
  | put project' key' entry =>
    by_cases hsame : (project, key) = (project', key')
    · cases hsame
      exact ⟨_, NumberedRows.find_put_of_some hrow entry, hposition⟩
    · exact ⟨row, (NumberedRows.find_put_of_ne hsame entry).trans hrow, hposition⟩
  | delete project' key' =>
    have hne : ¬ (project', key') = (project, key) := of_decide_eq_false he
    refine ⟨row, ?_, hposition⟩
    show (l.rows.table.deleteWhere _).find (project, key) = some row
    rw [Table.find_deleteWhere, hrow]
    simp [hid, Ne.symm hne]
  | forget project' =>
    have hne : ¬ project' = project := of_decide_eq_false he
    have hproject : row.key.1 = project := congrArg Prod.fst hid
    refine ⟨row, ?_, hposition⟩
    show (l.rows.table.deleteWhere _).find (project, key) = some row
    rw [Table.find_deleteWhere, hrow]
    simp [hproject, Ne.symm hne]
  | page limit =>
    refine ⟨row, ?_, hposition⟩
    rw [Listing.take]
    split <;> exact hrow

variable (map) in
theorem Stands.run {events : List (EntryEvent ρ)} (h : l.Stands project key position)
    (he : ∀ e ∈ events, e.deletes project key = false) :
    (run map project l events).Stands project key position := by
  induction events generalizing l with
  | nil => exact h
  | cons e events ih =>
    exact ih (h.take (he e List.mem_cons_self)) fun e' he' => he e' (List.mem_cons_of_mem _ he')

/-- The listing is past a position, or at its end. -/
abbrev Passed (l : Listing ρ τ) (position : ℕ) : Prop :=
  l.ended = true ∨ position ≤ l.after.getD pageStart

theorem Passed.take (h : l.Passed position) (e : EntryEvent ρ) : (take map project l e).Passed position := by
  cases e with
  | put | delete | forget => exact h
  | page limit =>
    rw [Listing.take]
    split
    · exact h
    · next hgoing =>
      cases hpage : (l.page map project limit).next with
      | none => exact .inl rfl
      | some next =>
        have hlt : l.after.getD pageStart < next := EntryRows.lt_of_page_next hpage
        exact .inr (Nat.le_trans (h.resolve_left hgoing) (Nat.le_of_lt hlt))

theorem Passed.run (h : l.Passed position) (events : List (EntryEvent ρ)) :
    (run map project l events).Passed position := by
  induction events generalizing l with
  | nil => exact h
  | cons e events ih => exact ih (h.take e)

/-- What is kept about an entry: it stands, and with the once it is still to be returned, unless the listing
is past it, it is returned `total` times. -/
structure Tracked (project : ℕ) (key : String) (position total : ℕ) (l : Listing ρ τ) : Prop where
  stands : l.Stands project key position
  times : l.times key + (if l.Passed position then 0 else 1) = total

theorem Tracked.take {total : ℕ} (h : Tracked project key position total l) {e : EntryEvent ρ}
    (he : e.deletes project key = false) :
    Tracked project key position total (take map project l e) := by
  refine ⟨h.stands.take he, ?_⟩
  cases e with
  | put | delete | forget => exact h.times
  | page limit =>
    cases hended : l.ended with
    | true =>
      have hsame : Listing.take map project l (.page limit) = l := if_pos hended
      rw [hsame]
      exact h.times
    | false =>
      obtain ⟨row, hrow, rfl⟩ := h.stands
      have hkeys : key ∈ EntryRows.pageKeys l.rows map project l.after limit.size ↔ _ :=
        EntryRows.mem_pageKeys_iff limit.positive hrow
      have hbefore := h.times
      have hnext : ∀ next, (EntryRows.page l.rows map project l.after limit.size).next = some next →
          l.after.getD pageStart < next := fun next => EntryRows.lt_of_page_next
      have htake : Listing.take map project l (.page limit) =
          { l with
            after := (EntryRows.page l.rows map project l.after limit.size).next
            returned := l.returned ++ (EntryRows.page l.rows map project l.after limit.size).entries
            ended := (EntryRows.page l.rows map project l.after limit.size).next.isNone } :=
        if_neg (Bool.eq_false_iff.1 hended)
      rw [times_page hended, ← hbefore, (EntryRows.nodup_pageKeys _ _).count, htake]
      simp only [hkeys, Passed, hended]
      cases hpage : (EntryRows.page l.rows map project l.after limit.size).next with
      | none =>
        by_cases hpassed : row.number ≤ l.after.getD pageStart
        · simp [hpassed, Nat.not_lt.2 hpassed]
        · simp [hpassed, Nat.lt_of_not_le hpassed]
      | some next =>
        have hlt := hnext next hpage
        by_cases hpassed : row.number ≤ l.after.getD pageStart
        · simp [hpassed, Nat.not_lt.2 hpassed, Nat.le_trans hpassed (Nat.le_of_lt hlt)]
        · by_cases hreached : row.number ≤ next <;> simp [hpassed, Nat.lt_of_not_le hpassed, hreached]

variable (map) in
theorem Tracked.run {total : ℕ} {events : List (EntryEvent ρ)} (h : Tracked project key position total l)
    (he : ∀ e ∈ events, e.deletes project key = false) :
    Tracked project key position total (run map project l events) := by
  induction events generalizing l with
  | nil => exact h
  | cons e events ih =>
    exact ih (h.take (he e List.mem_cons_self)) fun e' he' => he e' (List.mem_cons_of_mem _ he')

theorem ended_run (h : l.ended = true) (events : List (EntryEvent ρ)) :
    (run map project l events).ended = true := by
  induction events generalizing l with
  | nil => exact h
  | cons e events ih =>
    refine ih ?_
    cases e with
    | put | delete | forget => exact h
    | page limit =>
      rw [Listing.take, if_pos h]
      exact h

/-- A listing that goes on from a position is not at its end, and the position is that of a row. -/
theorem going_of_after (h : ∀ position, l.after = some position → l.ended = false ∧ 0 < position)
    (events : List (EntryEvent ρ)) (hafter : (run map project l events).after = some position) :
    (run map project l events).ended = false ∧ 0 < position := by
  induction events generalizing l with
  | nil => exact h position hafter
  | cons e events ih =>
    refine ih (l := take map project l e) (fun position hafter => ?_) hafter
    cases e with
    | put | delete | forget => exact h position hafter
    | page limit =>
      rw [Listing.take] at hafter ⊢
      split at hafter
      · next hend => rw [if_pos hend]; exact h position hafter
      · next hend =>
        rw [if_neg hend]
        refine ⟨?_, Nat.zero_lt_of_lt (EntryRows.lt_of_page_next hafter)⟩
        show ((l.page map project limit).next).isNone = false
        rw [show (l.page map project limit).next = some position from hafter]
        rfl

def start (rows : EntryRows ρ) : Listing ρ τ := { rows }

variable {rows : EntryRows ρ} {events : List (EntryEvent ρ)}

theorem times_of_stands (hkey : (rows.table.find (project, key)).isSome)
    (hevents : ∀ e ∈ events, e.deletes project key = false)
    (hended : (run map project (start rows) events).ended = true) :
    (run map project (start rows) events).times key = 1 := by
  obtain ⟨row, hrow⟩ := Option.isSome_iff_exists.1 hkey
  have hpositive := rows.positive row (Table.find_eq_some.1 hrow).1
  have htracked : Tracked project key row.number 1 (start rows : Listing ρ τ) := by
    refine ⟨⟨row, hrow, rfl⟩, ?_⟩
    rw [if_neg]
    · rfl
    · rintro (hended | hle)
      · exact Bool.false_ne_true hended
      · exact absurd hpositive (Nat.not_lt.2 hle)
  have htimes := (htracked.run map hevents).times
  rwa [if_pos (.inl hended)] at htimes

/-- An entry created and kept is returned once, unless the listing is past the number it is given. -/
theorem times_of_created {entry : ρ} (hnew : l.rows.table.find (project, key) = none)
    (hevents : ∀ e ∈ events, e.deletes project key = false)
    (hended : (run map project l (.put project key entry :: events)).ended = true) :
    (run map project l (.put project key entry :: events)).times key =
      l.times key + if l.Passed l.rows.nextNumber then 0 else 1 := by
  have htracked : Tracked project key l.rows.nextNumber
      (l.times key + if l.Passed l.rows.nextNumber then 0 else 1)
      (take map project l (.put project key entry)) :=
    ⟨⟨_, NumberedRows.find_put_of_none hnew entry, rfl⟩, rfl⟩
  have htimes := (htracked.run map hevents).times
  rw [run_cons] at hended
  rwa [if_pos (.inl hended)] at htimes

def nextKeys (map : ρ → τ) (project : ℕ) (l : Listing ρ τ) (limit : PageSize) : List String :=
  (l.page map project limit).entries.map (·.1)

theorem deleted_of_again {limit limit' : PageSize} (hgoing : l.ended = false)
    (hgoing' : (run map project l (.page limit :: events)).ended = false)
    (hkey : key ∈ l.nextKeys map project limit)
    (hagain : key ∈ (run map project l (.page limit :: events)).nextKeys map project limit') :
    ∃ e ∈ events, e.deletes project key = true := by
  by_contra hnone
  have hevents : ∀ e ∈ events, e.deletes project key = false := fun e he =>
    Bool.eq_false_iff.2 fun hdeletes => hnone ⟨e, he, hdeletes⟩
  obtain ⟨row, hrow⟩ := EntryRows.find_of_mem_pageKeys hkey
  obtain ⟨hlt, hle⟩ := (EntryRows.mem_pageKeys_iff limit.positive hrow).1 hkey
  have hpassed : (take map project l (.page limit)).Passed row.number := by
    rw [take, if_neg (Bool.eq_false_iff.1 hgoing)]
    cases hpage : (l.page map project limit).next with
    | none => exact .inl rfl
    | some next => exact .inr (hle next hpage)
  have hstands : (take map project l (.page limit)).Stands project key row.number :=
    Stands.take ⟨row, hrow, rfl⟩ rfl
  obtain ⟨row', hrow', hposition⟩ := hstands.run map hevents
  have hpassed' := (hpassed.run events).resolve_left (Bool.eq_false_iff.1 hgoing')
  have hlt' := ((EntryRows.mem_pageKeys_iff limit'.positive hrow').1 hagain).1
  rw [hposition] at hlt'
  exact absurd hlt' (Nat.not_lt.2 hpassed')

/-- **A listing misses nothing, as long as no number it is past is used again.**  An entry that stands from
the first page to the last is returned once.  One created after a page was read and then kept is, exactly
if at its creation a row stood at or past the position the listing goes on from.  No page returns a key
twice, and a key that two pages return was deleted in between. -/
theorem pages_miss_nothing (map : ρ → τ) (project : ℕ) (rows : EntryRows ρ) (events : List (EntryEvent ρ))
    (hended : (run map project (start rows) events).ended = true) :
    (∀ key, (rows.table.find (project, key)).isSome → (∀ e ∈ events, e.deletes project key = false) →
      (run map project (start rows) events).times key = 1) ∧
    (∀ before key entry rest position, events = before ++ .put project key entry :: rest →
      (run map project (start rows) before).after = some position →
      (run map project (start rows) before).rows.table.find (project, key) = none →
      (∀ e ∈ rest, e.deletes project key = false) →
      ((run map project (start rows) events).times key =
          (run map project (start rows) before).times key + 1 ↔
        ∃ row ∈ (run map project (start rows) before).rows.table.rows, position ≤ row.number)) ∧
    (∀ before limit, ((run map project (start rows) before).nextKeys map project limit).Nodup) ∧
    ∀ before limit between limit' rest key,
      events = before ++ .page limit :: (between ++ .page limit' :: rest) →
      (run map project (start rows) (before ++ .page limit :: between)).ended = false →
      key ∈ (run map project (start rows) before).nextKeys map project limit →
      key ∈ (run map project (start rows) (before ++ .page limit :: between)).nextKeys map project limit' →
      ∃ e ∈ between, e.deletes project key = true := by
  refine ⟨fun key hkey hevents => times_of_stands hkey hevents hended, ?_,
    fun before limit => EntryRows.nodup_pageKeys _ _, ?_⟩
  · rintro before key entry rest position rfl hafter hnew hrest
    obtain ⟨hgoing, hpositive⟩ := going_of_after (l := start rows) (fun _ h => nomatch h) before hafter
    rw [run_append] at hended ⊢
    rw [times_of_created hnew hrest hended, ← NumberedRows.lt_nextNumber_iff hpositive]
    by_cases hle : (run map project (start rows) before).rows.nextNumber ≤ position
    · simp [hgoing, hafter, hle]
    · simp [hgoing, hafter, hle, Nat.lt_of_not_le hle]
  · rintro before limit between limit' rest key rfl hgoing hkey hagain
    rw [run_append] at hgoing hagain
    refine deleted_of_again ?_ hgoing hkey hagain
    refine Bool.eq_false_iff.2 fun hend => ?_
    exact Bool.eq_false_iff.1 hgoing (ended_run hend _)

/-- Two entries of one project, and a key-value of another. -/
def threeValues : EntryRows KeyValue where
  table := ⟨[⟨1, (0, "a"), ⟨"1", "me", 0⟩⟩, ⟨2, (1, "x"), ⟨"2", "me", 0⟩⟩, ⟨3, (0, "b"), ⟨"3", "me", 0⟩⟩],
    by decide⟩
  ascending := by decide
  positive := by decide

/-- A listing of one entry a page, in which an entry is created after the first page. -/
theorem pages_miss_nothing_of_three :
    let one : PageSize := ⟨1, by decide⟩
    let before : List (EntryEvent KeyValue) := [.page one, .delete 0 "a"]
    let rest : List (EntryEvent KeyValue) := [.page one, .page one]
    let all := before ++ .put 0 "c" ⟨"4", "me", 1⟩ :: rest
    (run id 0 (start threeValues) all).times "b" = 1 ∧
      (run id 0 (start threeValues) all).times "c" =
        (run id 0 (start threeValues) before).times "c" + 1 := by
  intro one before rest all
  have h := pages_miss_nothing id 0 threeValues all (by decide)
  exact ⟨h.1 "b" (by decide) (by decide),
    (h.2.1 before "c" ⟨"4", "me", 1⟩ rest 1 rfl (by decide) (by decide) (by decide)).2
      ⟨_, List.mem_cons_self, by decide⟩⟩

/-- **A number used again is missed.**  After the first page both entries are deleted; the one created then
gets the number the listing is already past.  It stands at the listing's end and was never returned. -/
theorem pages_miss_created :
    let one : PageSize := ⟨1, by decide⟩
    let rows : EntryRows KeyValue := ⟨⟨[⟨1, (0, "a"), ⟨"1", "me", 0⟩⟩, ⟨2, (0, "b"), ⟨"2", "me", 0⟩⟩],
      by decide⟩, by decide, by decide⟩
    let before : List (EntryEvent KeyValue) := [.page one, .delete 0 "b", .delete 0 "a"]
    let all := before ++ [.put 0 "c" ⟨"3", "me", 1⟩, .page one]
    (run id 0 (start rows) before).after = some 1 ∧
      (run id 0 (start rows) before).rows.table.find (0, "c") = none ∧
      (run id 0 (start rows) all).ended = true ∧
      ((run id 0 (start rows) all).rows.table.find (0, "c")).isSome = true ∧
      (run id 0 (start rows) all).times "c" = 0 := by
  decide

end Listing

end Muster.Store
