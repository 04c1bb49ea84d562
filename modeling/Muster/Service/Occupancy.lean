import Mathlib.Data.List.Dedup
import Mathlib.Data.List.Sort
import Muster.Config.Spec
import Muster.Lib.Tally

/-!
# Occupancy — which live shell is in which project

The table keeps each shell's newest report and, beside it, how many shells count in each project.
Reporting and removing a shell answer with the projects that gained their first shell or lost their
last; these changes are the only entries and leaves there are.
-/

namespace Muster.Service

open Config (PathBuf ProjectRoot)

/-- An interactive shell: its pid, and when that process started. -/
structure ShellId where
  pid : ℕ
  start : ℕ
deriving DecidableEq, Repr

def ShellId.le (a b : ShellId) : Prop := a.pid < b.pid ∨ a.pid = b.pid ∧ a.start ≤ b.start

instance : DecidableRel ShellId.le := fun a b =>
  inferInstanceAs (Decidable (a.pid < b.pid ∨ a.pid = b.pid ∧ a.start ≤ b.start))

/-- Which loading of the hook made a report. -/
structure LoadId where
  started : ℕ
  pid : ℕ
deriving DecidableEq, Repr

/-- Where a report stands among its shell's: the load, then the prompt within it. -/
structure ReportStamp where
  load : LoadId
  seq : ℕ
deriving DecidableEq, Repr

def ReportStamp.supersedes (stamp earlier : ReportStamp) : Bool :=
  earlier.load.started < stamp.load.started ||
    earlier.load.started = stamp.load.started && (earlier.load.pid < stamp.load.pid ||
      earlier.load.pid = stamp.load.pid && earlier.seq < stamp.seq)

/-- A shell's report: its folder, the project that is in, and those it holds though it is in one nested
inside them. -/
structure ShellRecord where
  shell : ShellId
  stamp : ReportStamp
  folder : PathBuf
  /-- When the shell was first seen in the folder. -/
  arrived : ℕ
  project : Option ProjectRoot
  held : List ProjectRoot
deriving DecidableEq, Repr

/-- What the table knows of one shell: its newest report and the projects that counts it in. -/
structure Seen where
  stamp : ReportStamp
  projects : List ProjectRoot
  nodup : projects.Nodup

def ShellRecord.projects (record : ShellRecord) : List ProjectRoot :=
  (record.project.toList ++ record.held).dedup

def Seen.of (record : ShellRecord) : Seen where
  stamp := record.stamp
  projects := record.projects
  nodup := List.nodup_dedup _

@[simp] def Seen.countsIn (root : ProjectRoot) (seen : Seen) : Bool := root ∈ seen.projects

/-- A project gained its first shell or lost its last. -/
inductive OccupancyChange where
  | entered (root : ProjectRoot)
  | left (root : ProjectRoot)
deriving DecidableEq, Repr

abbrev Shells := AList fun _ : ShellId => Seen

def projectsOf (shells : Shells) (shell : ShellId) : List ProjectRoot :=
  match shells.lookup shell with
  | some seen => seen.projects
  | none => []

/-- Moves one shell from counting in `before` to counting in `after`: each project left with no
shell, then each that gained its first. -/
def recount (counts : Tally ProjectRoot) (before after : List ProjectRoot) :
    Tally ProjectRoot × List OccupancyChange :=
  let (counts, gone, come) := counts.move before after
  (counts, gone.map .left ++ come.map .entered)

def Exact (shells : Shells) (counts : Tally ProjectRoot) : Prop :=
  ∀ root, counts root = Tally.entry (census (Seen.countsIn root) shells)

section Recount

variable {shells : Shells} {counts : Tally ProjectRoot} {after : List ProjectRoot}

theorem nodup_projectsOf (shells : Shells) (shell : ShellId) : (projectsOf shells shell).Nodup := by
  unfold projectsOf
  split
  · next seen _ => exact seen.nodup
  · exact List.nodup_nil

theorem share_lookup (shell : ShellId) (root : ProjectRoot) :
    share (Seen.countsIn root) (shells.lookup shell) =
      if root ∈ projectsOf shells shell then 1 else 0 := by
  unfold projectsOf share
  cases shells.lookup shell <;> simp

theorem census_pos {shell : ShellId} {root : ProjectRoot} (h : root ∈ projectsOf shells shell) :
    0 < census (Seen.countsIn root) shells := by
  have hle := share_le_census (p := Seen.countsIn root) (s := shells) (k := shell)
  rwa [share_lookup, if_pos h] at hle

theorem recount_apply (h : Exact shells counts) (shell : ShellId)
    (hafter : after.Nodup) (root : ProjectRoot) :
    (recount counts (projectsOf shells shell) after).1 root =
      Tally.entry (census (Seen.countsIn root) (shells.erase shell) +
        if root ∈ after then 1 else 0) := by
  have hcensus := census_erase (p := Seen.countsIn root) (s := shells) (k := shell)
  rw [share_lookup] at hcensus
  show (counts.move (projectsOf shells shell) after).1 root = _
  rw [Tally.move_apply (nodup_projectsOf shells shell) hafter h fun _ => census_pos, hcensus,
    Nat.add_sub_cancel]

theorem Exact.insert (h : Exact shells counts) (shell : ShellId) (seen : Seen) :
    Exact (shells.insert shell seen)
      (recount counts (projectsOf shells shell) seen.projects).1 := fun root => by
  rw [recount_apply h shell seen.nodup, census_insert]
  simp [share]

theorem Exact.erase (h : Exact shells counts) (shell : ShellId) :
    Exact (shells.erase shell) (recount counts (projectsOf shells shell) []).1 := fun root => by
  rw [recount_apply h shell List.nodup_nil]
  simp

theorem mem_recount (h : Exact shells counts) (shell : ShellId)
    (hafter : after.Nodup) (root : ProjectRoot) : let was := census (Seen.countsIn root) shells
    let is := ((recount counts (projectsOf shells shell) after).1 root).getD 0
    (.left root ∈ (recount counts (projectsOf shells shell) after).2 ↔ was ≠ 0 ∧ is = 0) ∧
      (.entered root ∈ (recount counts (projectsOf shells shell) after).2 ↔ was = 0 ∧ is ≠ 0) := by
  have hcensus := census_erase (p := Seen.countsIn root) (s := shells) (k := shell)
  rw [share_lookup] at hcensus
  have hgone := Tally.mem_gone (a := root) (nodup_projectsOf shells shell) after h
  have hcome := Tally.mem_come (a := root) (nodup_projectsOf shells shell) hafter h
  simp only [recount_apply h shell hafter, Tally.entry_getD]
  simp only [recount, List.mem_append, List.mem_map, reduceCtorEq, and_false, exists_false,
    OccupancyChange.left.injEq, OccupancyChange.entered.injEq, exists_eq_right, or_false, false_or,
    hgone, hcome]
  by_cases hin : root ∈ projectsOf shells shell <;> by_cases hout : root ∈ after <;>
    simp only [hin, hout, if_true, if_false] at hcensus ⊢ <;> simp <;> omega

end Recount

structure Occupancy where
  shells : Shells
  counts : Tally ProjectRoot
  exact : Exact shells counts

namespace Occupancy

def new : Occupancy where
  shells := ∅
  counts _ := none
  exact _ := rfl

variable (table : Occupancy)

def knows (shell : ShellId) : Bool := (table.shells.lookup shell).isSome

def len : ℕ := table.shells.entries.length

def occupants (root : ProjectRoot) : ℕ := (table.counts root).getD 0

def shellsIn (root : ProjectRoot) : List ShellId :=
  ((table.shells.entries.filter (·.2.countsIn root)).map (·.1)).insertionSort ShellId.le

def isNewer (record : ShellRecord) : Bool :=
  match table.shells.lookup record.shell with
  | some seen => record.stamp.supersedes seen.stamp
  | none => true

def put (record : ShellRecord) : Occupancy × List OccupancyChange :=
  let seen := Seen.of record
  let before := projectsOf table.shells record.shell
  ({ shells := table.shells.insert record.shell seen
     counts := (recount table.counts before seen.projects).1
     exact := table.exact.insert record.shell seen },
    (recount table.counts before seen.projects).2)

/-- A report not newer than the shell's last is ignored. -/
def report (record : ShellRecord) : Occupancy × List OccupancyChange :=
  if table.isNewer record then table.put record else (table, [])

/-- Takes a record as known state: nothing enters or leaves. -/
def restore (record : ShellRecord) : Occupancy :=
  if table.isNewer record then (table.put record).1 else table

/-- Forgets a shell: the leave of each project it was the last shell of. -/
def remove (shell : ShellId) : Occupancy × List OccupancyChange :=
  let before := projectsOf table.shells shell
  ({ shells := table.shells.erase shell
     counts := (recount table.counts before []).1
     exact := table.exact.erase shell },
    (recount table.counts before []).2)

theorem occupants_eq (root : ProjectRoot) :
    table.occupants root = census (Seen.countsIn root) table.shells := by
  rw [occupants, table.exact, Tally.entry_getD]

theorem shellsIn_eq_nil {root : ProjectRoot} : table.shellsIn root = [] ↔ table.occupants root = 0 := by
  rw [occupants_eq, census, shellsIn, ← List.length_eq_zero_iff, List.length_insertionSort,
    List.length_map, List.countP_eq_length_filter]

/-- The changes are exactly the projects that gained their first shell or lost their last. -/
structure Edges (before after : Occupancy) (changes : List OccupancyChange) : Prop where
  left : ∀ root, .left root ∈ changes ↔ before.occupants root ≠ 0 ∧ after.occupants root = 0
  entered : ∀ root, .entered root ∈ changes ↔ before.occupants root = 0 ∧ after.occupants root ≠ 0

theorem Edges.refl : Edges table table [] := by
  constructor <;> simp

theorem put_edges (record : ShellRecord) : Edges table (table.put record).1 (table.put record).2 where
  left root := by
    rw [occupants_eq table]
    exact (mem_recount table.exact record.shell (Seen.of record).nodup root).1
  entered root := by
    rw [occupants_eq table]
    exact (mem_recount table.exact record.shell (Seen.of record).nodup root).2

theorem report_edges (record : ShellRecord) :
    Edges table (table.report record).1 (table.report record).2 := by
  unfold report
  split
  · exact table.put_edges record
  · exact Edges.refl table

theorem remove_edges (shell : ShellId) :
    Edges table (table.remove shell).1 (table.remove shell).2 where
  left root := by
    rw [occupants_eq table]
    exact (mem_recount table.exact shell List.nodup_nil root).1
  entered root := by
    rw [occupants_eq table]
    exact (mem_recount table.exact shell List.nodup_nil root).2

theorem occupants_remove_le (shell : ShellId) (root : ProjectRoot) :
    (table.remove shell).1.occupants root ≤ table.occupants root := by
  rw [occupants_eq, occupants_eq, census_erase (s := table.shells) (k := shell)]
  exact Nat.le_add_right _ _

end Occupancy

end Muster.Service
