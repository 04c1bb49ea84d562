import Mathlib.Data.List.MinMax
import Mathlib.Data.Prod.Lex
import Muster.Service.Occupancy

/-!
# Reports — the shell table over whole runs

Whatever is reported, restored and removed, the table answers a report or a removal with each project
whose count went from one to none, then each whose count went from none to one.  What it knows of a
shell is the newest of its reports, so the order reports arrive in does not matter, nor how often.
-/

namespace Muster.Service

open Config (ProjectRoot)

/-! ### Stamps -/

def ReportStamp.key (stamp : ReportStamp) : ℕ ×ₗ ℕ ×ₗ ℕ :=
  toLex (stamp.load.started, toLex (stamp.load.pid, stamp.seq))

theorem ReportStamp.supersedes_iff (stamp earlier : ReportStamp) :
    stamp.supersedes earlier ↔ earlier.key < stamp.key := by
  simp [supersedes, key, Prod.Lex.lt_iff]

theorem ReportStamp.key_inj {a b : ReportStamp} (h : a.key = b.key) : a = b := by
  obtain ⟨⟨started, pid⟩, seq⟩ := a
  obtain ⟨⟨started', pid'⟩, seq'⟩ := b
  simpa [key, and_assoc] using h

/-! ### The newest of some -/

section Newest

variable {α β : Type*} [LinearOrder β] {f : α → β}

theorem argmax_congr {l l' : List α} (hmem : ∀ a, a ∈ l ↔ a ∈ l')
    (hinj : ∀ a ∈ l, ∀ b ∈ l, f a = f b → a = b) : l.argmax f = l'.argmax f := by
  classical
  have hnewest : ∀ {l : List α}, (∀ a ∈ l, ∀ b ∈ l, f a = f b → a = b) → ∀ m,
      m ∈ l.argmax f ↔ m ∈ l ∧ ∀ a ∈ l, f a ≤ f m := by
    intro l hinj m
    rw [List.mem_argmax_iff]
    refine ⟨fun h => ⟨h.1, h.2.1⟩, fun h => ⟨h.1, h.2, fun a ha hle => ?_⟩⟩
    rw [hinj a ha m h.1 (le_antisymm (h.2 a ha) hle)]
  ext m
  have hinj' : ∀ a ∈ l', ∀ b ∈ l', f a = f b → a = b := fun a ha b hb =>
    hinj a ((hmem a).2 ha) b ((hmem b).2 hb)
  rw [← Option.mem_def, ← Option.mem_def, hnewest hinj, hnewest hinj']
  simp only [hmem]

theorem argmax_append_congr {l l' : List α} (o : Option α) (h : l.argmax f = l'.argmax f) :
    (o.toList ++ l).argmax f = (o.toList ++ l').argmax f := by
  cases o with
  | none => exact h
  | some a =>
    show (a :: l).argmax f = (a :: l').argmax f
    rw [List.argmax_cons, List.argmax_cons, h]

theorem argmax_toList_concat (l : List α) (a : α) :
    ((l.argmax f).toList ++ [a]).argmax f = (l ++ [a]).argmax f := by
  have hself : (l.argmax f).toList.argmax f = l.argmax f := by cases l.argmax f <;> rfl
  rw [List.argmax_concat, List.argmax_concat, hself]

end Newest

namespace Occupancy

variable (table : Occupancy)

/-! ### What a report does to its shell -/

theorem lookup_report (record : ShellRecord) (shell : ShellId) :
    (table.report record).1.shells.lookup shell =
      if record.shell = shell then
        ((table.shells.lookup shell).toList ++ [Seen.of record]).argmax (·.stamp.key)
      else table.shells.lookup shell := by
  by_cases hshell : record.shell = shell
  · subst hshell
    have hput : (table.put record).1.shells.lookup record.shell = some (Seen.of record) :=
      AList.lookup_insert _
    rw [if_pos rfl, List.argmax_concat]
    unfold report isNewer
    cases hseen : table.shells.lookup record.shell with
    | none => simpa using hput
    | some seen =>
      have hnewer := record.stamp.supersedes_iff seen.stamp
      by_cases hlt : seen.stamp.key < record.stamp.key
      · rw [if_pos (hnewer.2 hlt), hput]
        exact (if_pos hlt).symm
      · rw [if_neg (mt hnewer.1 hlt), hseen]
        exact (if_neg hlt).symm
  · rw [if_neg hshell]
    unfold report
    split
    · exact AList.lookup_insert_ne (Ne.symm hshell)
    · rfl

def reportAll (records : List ShellRecord) : Occupancy :=
  records.foldl (fun table record => (table.report record).1) table

/-- What is known of a shell is the newest of what was and what was reported. -/
theorem lookup_reportAll (records : List ShellRecord) (shell : ShellId) :
    (table.reportAll records).shells.lookup shell =
      ((table.shells.lookup shell).toList ++
        (records.filter (·.shell = shell)).map Seen.of).argmax (·.stamp.key) := by
  induction records using List.reverseRecOn with
  | nil => cases h : table.shells.lookup shell <;> simp [reportAll, h]
  | append_singleton records record ih =>
    have hlast : table.reportAll (records ++ [record]) =
        ((table.reportAll records).report record).1 := by simp [reportAll]
    rw [hlast, lookup_report]
    by_cases hshell : record.shell = shell
    · rw [if_pos hshell, ih, argmax_toList_concat]
      simp [hshell]
    · rw [if_neg hshell, ih]
      simp [hshell]

structure Same (table table' : Occupancy) : Prop where
  shells : ∀ shell, table.shells.lookup shell = table'.shells.lookup shell
  counts : table.counts = table'.counts

theorem same_of_lookup {table table' : Occupancy}
    (h : ∀ shell, table.shells.lookup shell = table'.shells.lookup shell) : Same table table' := by
  refine ⟨h, funext fun root => ?_⟩
  have hperm : table.shells.entries.Perm table'.shells.entries :=
    List.lookup_ext table.shells.nodupKeys table'.shells.nodupKeys fun shell seen => by
      have := h shell
      simp only [AList.lookup] at this
      rw [this]
  rw [table.exact, table'.exact, census, census, hperm.countP_eq]

/-- The order of reports does not matter, nor how often each is made. -/
theorem same_reportAll {records records' : List ShellRecord}
    (hmem : ∀ record, record ∈ records ↔ record ∈ records')
    (hstamps : ∀ record ∈ records, ∀ record' ∈ records, record.shell = record'.shell →
      record.stamp = record'.stamp → record = record') :
    Same (table.reportAll records) (table.reportAll records') := by
  refine same_of_lookup fun shell => ?_
  rw [lookup_reportAll, lookup_reportAll]
  refine argmax_append_congr _ (argmax_congr (fun seen => ?_) fun seen hseen seen' hseen' hkey => ?_)
  · simp [hmem]
  · obtain ⟨record, hrecord, rfl⟩ := List.mem_map.1 hseen
    obtain ⟨record', hrecord', rfl⟩ := List.mem_map.1 hseen'
    obtain ⟨hrecord, hshell⟩ := List.mem_filter.1 hrecord
    obtain ⟨hrecord', hshell'⟩ := List.mem_filter.1 hrecord'
    have hshells : record.shell = record'.shell := by
      simp only [decide_eq_true_eq] at hshell hshell'
      rw [hshell, hshell']
    rw [hstamps record hrecord record' hrecord' hshells (ReportStamp.key_inj hkey)]

/-! ### What a report or a removal answers -/

/-- Leaves before entries, and no project twice. -/
def Ordered (changes : List OccupancyChange) : Prop :=
  ∃ gone come : List ProjectRoot, changes = gone.map .left ++ come.map .entered ∧ (gone ++ come).Nodup

/-- Each project whose count went from one to none, then each whose count went from none to one. -/
structure Answers (before after : Occupancy) (changes : List OccupancyChange) : Prop where
  left : ∀ root, .left root ∈ changes ↔ before.occupants root = 1 ∧ after.occupants root = 0
  entered : ∀ root, .entered root ∈ changes ↔ before.occupants root = 0 ∧ after.occupants root = 1
  ordered : Ordered changes

theorem Edges.answers {before after : Occupancy} {changes : List OccupancyChange}
    (h : Edges before after changes)
    (hstep : ∀ root, before.occupants root ≤ after.occupants root + 1 ∧
      after.occupants root ≤ before.occupants root + 1)
    (hordered : Ordered changes) : Answers before after changes where
  left root := by
    rw [h.left root]
    have := hstep root
    omega
  entered root := by
    rw [h.entered root]
    have := hstep root
    omega
  ordered := hordered

theorem recount_ordered {counts : Tally ProjectRoot} {before after : List ProjectRoot}
    (hb : before.Nodup) (ha : after.Nodup) : Ordered (recount counts before after).2 :=
  ⟨_, _, rfl, Tally.nodup_move hb ha counts⟩

theorem share_le_one {β : Type} (p : β → Bool) (b : Option β) : share p b ≤ 1 := by
  unfold share
  split <;> omega

theorem put_answers (record : ShellRecord) :
    Answers table (table.put record).1 (table.put record).2 := by
  refine (table.put_edges record).answers (fun root => ?_)
    (recount_ordered (nodup_projectsOf _ _) (Seen.of record).nodup)
  rw [occupants_eq, occupants_eq, census_erase (s := table.shells) (k := record.shell)]
  show _ ≤ census _ (table.shells.insert record.shell (Seen.of record)) + 1 ∧
    census _ (table.shells.insert record.shell (Seen.of record)) ≤ _
  rw [census_insert]
  have hwas := share_le_one (Seen.countsIn root) (table.shells.lookup record.shell)
  have his := share_le_one (Seen.countsIn root) (some (Seen.of record))
  omega

theorem report_answers (record : ShellRecord) :
    Answers table (table.report record).1 (table.report record).2 := by
  unfold report
  split
  · exact table.put_answers record
  · exact (Edges.refl table).answers (fun root => by omega) ⟨[], [], rfl, List.nodup_nil⟩

theorem remove_answers (shell : ShellId) :
    Answers table (table.remove shell).1 (table.remove shell).2 := by
  refine (table.remove_edges shell).answers (fun root => ?_)
    (recount_ordered (nodup_projectsOf _ _) List.nodup_nil)
  rw [occupants_eq, occupants_eq, census_erase (s := table.shells) (k := shell)]
  have hwas := share_le_one (Seen.countsIn root) (table.shells.lookup shell)
  show _ ≤ census _ (table.shells.erase shell) + 1 ∧ census _ (table.shells.erase shell) ≤ _
  omega

/-! ### Whole runs -/

inductive Op where
  | report (record : ShellRecord)
  | restore (record : ShellRecord)
  | remove (shell : ShellId)

def apply : Op → Occupancy
  | .report record => (table.report record).1
  | .restore record => table.restore record
  | .remove shell => (table.remove shell).1

def applyAll (ops : List Op) : Occupancy := ops.foldl apply table

/-- **Counts are exact and order-free.**  After any reports, restores and removals: the count kept of a
project is the number of known shells that count in it, and no zero is kept; the next report or removal
answers with exactly the projects whose count goes from one to none and from none to one; and from
there reports whose stamps tell a shell's reports apart lead to the same table in any order and however
often each is made. -/
theorem occupancy_exact (ops : List Op) :
    let table := new.applyAll ops
    (∀ root, table.occupants root = (table.shellsIn root).length ∧ table.counts root ≠ some 0) ∧
    (∀ record, Answers table (table.report record).1 (table.report record).2) ∧
    (∀ shell, Answers table (table.remove shell).1 (table.remove shell).2) ∧
    ∀ records records' : List ShellRecord, (∀ record, record ∈ records ↔ record ∈ records') →
      (∀ record ∈ records, ∀ record' ∈ records, record.shell = record'.shell →
        record.stamp = record'.stamp → record = record') →
      Same (table.reportAll records) (table.reportAll records') := by
  intro table
  refine ⟨fun root => ⟨?_, fun hzero => ?_⟩, table.report_answers, table.remove_answers,
    fun _ _ hmem hstamps => table.same_reportAll hmem hstamps⟩
  · rw [occupants_eq, census, shellsIn, List.length_insertionSort, List.length_map,
      List.countP_eq_length_filter]
  · rw [table.exact, Tally.entry] at hzero
    split at hzero
    · cases hzero
    · next hne => exact hne (by simpa using hzero)

theorem occupancy_exact_reordered :
    let shop : ProjectRoot := .top [115]
    let first : ShellRecord := ⟨⟨1, 1⟩, ⟨⟨1, 1⟩, 1⟩, shop.path, 1, some shop, []⟩
    let second : ShellRecord := ⟨⟨1, 1⟩, ⟨⟨1, 1⟩, 2⟩, shop.path, 1, none, [shop]⟩
    Same (new.reportAll [first, second]) (new.reportAll [second, first, second]) :=
  (occupancy_exact []).2.2.2 _ _ (by simp [or_comm]) (by decide)

end Occupancy

end Muster.Service
