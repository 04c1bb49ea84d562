import Mathlib.Data.List.Destutter
import Mathlib.Data.List.Lex
import Mathlib.Data.List.Sort
import Mathlib.Order.WithBot
import Muster.Service.Occupancy

/-!
# ShellRecord — what a shell still holds

A report is filed as it follows the shell's last one.  A project registered around the shell nests it in a
new project without it leaving the one it was in; it holds that one for as long as its project stays nested
inside.  The list of what is held is made from the one before at every report; over a whole history it is
exactly the projects the shell never left that way (`held_over_history`).
-/

namespace Muster.Service

open Config (Component ProjectRoot)

/-- Components in the order paths compare them: a parent component before every name. -/
def rankOf : Component → WithBot (List ℕ)
  | .parentDir => ⊥
  | .normal name => some (name.map UInt8.toNat)

def rank (root : ProjectRoot) : List (WithBot (List ℕ)) := root.path.rest.map rankOf

namespace ShellRecord

/-- Whether the report's project was registered while the shell was already inside it, and the last report
named none or one it is nested in. -/
def registeredSince (report previous : ShellRecord) (around : Bool) : Bool :=
  match report.project with
  | none => false
  | some project => (around || project.contains previous.folder) &&
      previous.project.all fun before => before ≠ project && before.contains project.path

def nestedIn (report : ShellRecord) (root : ProjectRoot) : Bool :=
  report.project.any fun project => project ≠ root && root.contains project.path

/-- The report as it follows the shell's last one. -/
def following (report : ShellRecord) : Option ShellRecord → Bool → ShellRecord
  | none, _ => report
  | some previous, around =>
    let held := previous.held ++
      if report.registeredSince previous around then previous.project.toList else []
    let held := held.filter report.nestedIn
    { report with held := (held.insertionSort (rank · ≤ rank ·)).destutter (· ≠ ·) }

end ShellRecord

/-- The reports of a shell as they are filed, each following the one before. -/
def filed (reports : ℕ → ShellRecord) (around : ℕ → Bool) : ℕ → ShellRecord
  | 0 => reports 0
  | n + 1 => (reports (n + 1)).following (some (filed reports around n)) (around (n + 1))

theorem rankOf_injective : Function.Injective rankOf := by
  have hnames : Function.Injective (List.map UInt8.toNat) :=
    List.map_injective_iff.2 fun _ _ => UInt8.toNat_inj.1
  intro a b h
  cases a with
  | parentDir =>
    cases b with
    | parentDir => rfl
    | normal name => exact absurd h WithBot.bot_ne_coe
  | normal name =>
    cases b with
    | parentDir => exact absurd h WithBot.coe_ne_bot
    | normal name' => rw [hnames (WithBot.coe_injective h)]

theorem rank_injective : Function.Injective rank := by
  intro a b h
  obtain ⟨⟨start, rest⟩, habsolute⟩ := a
  obtain ⟨⟨start', rest'⟩, habsolute'⟩ := b
  obtain rfl : rest = rest' := List.map_injective_iff.2 rankOf_injective h
  obtain rfl : start = start' := habsolute.trans habsolute'.symm
  rfl

instance : Std.Antisymm fun a b => rank a ≤ rank b :=
  ⟨fun _ _ hle hge => rank_injective (le_antisymm hle hge)⟩

instance : IsTrans ProjectRoot fun a b => rank a ≤ rank b := ⟨fun _ _ _ => le_trans⟩

instance : Std.Total fun a b : ProjectRoot => rank a ≤ rank b := ⟨fun _ _ => le_total _ _⟩

theorem mem_sorted {roots : List ProjectRoot} {root : ProjectRoot} :
    root ∈ (roots.insertionSort (rank · ≤ rank ·)).destutter (· ≠ ·) ↔ root ∈ roots := by
  rw [(List.pairwise_insertionSort _ roots).destutter_eq_dedup, List.mem_dedup, List.mem_insertionSort]

theorem sorted_increasing (roots : List ProjectRoot) :
    ((roots.insertionSort (rank · ≤ rank ·)).destutter (· ≠ ·)).Pairwise (rank · < rank ·) := by
  have hsorted := List.pairwise_insertionSort (rank · ≤ rank ·) roots
  rw [hsorted.destutter_eq_dedup]
  refine ((hsorted.sublist (List.dedup_sublist _)).and (List.nodup_dedup _)).imp ?_
  rintro a b ⟨hle, hne⟩
  exact lt_of_le_of_ne hle fun heq => hne (rank_injective heq)

namespace ShellRecord

variable {report previous : ShellRecord} {around : Bool}

@[simp] theorem following_project (previous : Option ShellRecord) :
    (report.following previous around).project = report.project := by
  cases previous <;> rfl

@[simp] theorem following_folder (previous : Option ShellRecord) :
    (report.following previous around).folder = report.folder := by
  cases previous <;> rfl

theorem nestedIn_iff {root : ProjectRoot} : report.nestedIn root = true ↔
    ∃ project, report.project = some project ∧ project ≠ root ∧ root.contains project.path = true := by
  rw [nestedIn, Option.any_eq_true]
  simp only [Bool.and_eq_true, decide_eq_true_eq]

/-- What a report holds: what the last one held and the project it named, if this one's was registered around
the shell, as far as its project is nested inside. -/
theorem mem_held_following {root : ProjectRoot} : root ∈ (report.following (some previous) around).held ↔
    (root ∈ previous.held ∨ report.registeredSince previous around = true ∧ previous.project = some root) ∧
      report.nestedIn root = true := by
  refine mem_sorted.trans ?_
  rw [List.mem_filter, List.mem_append]
  refine and_congr_left fun _ => or_congr_right ?_
  split
  · next hsince => rw [Option.mem_toList, and_iff_right hsince]
  · next hsince => exact iff_of_false List.not_mem_nil fun h => hsince h.1

end ShellRecord

section History

variable {reports : ℕ → ShellRecord} {around : ℕ → Bool}

@[simp] theorem filed_project (n : ℕ) : (filed reports around n).project = (reports n).project := by
  cases n with
  | zero => rfl
  | succ n => exact ShellRecord.following_project _

@[simp] theorem filed_folder (n : ℕ) : (filed reports around n).folder = (reports n).folder := by
  cases n with
  | zero => rfl
  | succ n => exact ShellRecord.following_folder _

/-- The project the report after the `k`-th names was registered while the shell was already inside it:
around it, or since the `k`-th report, made from a folder inside it. -/
def RegisteredAround (reports : ℕ → ShellRecord) (around : ℕ → Bool) (k : ℕ) : Prop :=
  ∃ project, (reports (k + 1)).project = some project ∧
    (around (k + 1) = true ∨ project.contains (reports k).folder = true)

def ProperlyInside (reports : ℕ → ShellRecord) (root : ProjectRoot) (n : ℕ) : Prop :=
  ∃ project, (reports n).project = some project ∧ project ≠ root ∧ root.contains project.path = true

/-- A report that names a project inside the last one's was registered around the shell as the code has it
exactly when it was around it or since. -/
theorem registeredSince_iff {k : ℕ} {root : ProjectRoot} (hroot : (reports k).project = some root)
    (hinside : ProperlyInside reports root (k + 1)) :
    (reports (k + 1)).registeredSince (filed reports around k) (around (k + 1)) = true ↔
      RegisteredAround reports around k := by
  obtain ⟨project, hproject, hne, hcontains⟩ := hinside
  have hbefore : ((filed reports around k).project.all fun before =>
      before ≠ project && before.contains project.path) = true := by
    rw [filed_project, hroot, Option.all_some, hcontains, Bool.and_true, decide_eq_true_eq]
    exact hne.symm
  rw [ShellRecord.registeredSince, RegisteredAround, hproject]
  dsimp only
  rw [hbefore, Bool.and_true, Bool.or_eq_true, filed_folder]
  exact ⟨fun h => ⟨project, rfl, h⟩, fun ⟨_, heq, h⟩ => Option.some.inj heq ▸ h⟩

theorem mem_held_succ {n : ℕ} {root : ProjectRoot} : root ∈ (filed reports around (n + 1)).held ↔
    (root ∈ (filed reports around n).held ∨
      (reports n).project = some root ∧ RegisteredAround reports around n) ∧
        ProperlyInside reports root (n + 1) := by
  rw [filed, ShellRecord.mem_held_following, ShellRecord.nestedIn_iff, filed_project]
  refine and_congr_left fun hinside => or_congr_right ?_
  rw [and_comm]
  exact and_congr_right fun hroot => registeredSince_iff hroot hinside

/-- Over any history of a shell's reports the held projects are strictly increasing, each properly contains
the report's project, and `root` is held exactly when some report nested the shell in a project registered
around it while the one before named `root`, and every report since names a project properly inside it. -/
theorem held_over_history (hfirst : (reports 0).held = []) (n : ℕ) :
    (filed reports around n).held.Pairwise (rank · < rank ·) ∧
    (∀ root ∈ (filed reports around n).held, ProperlyInside reports root n) ∧
    ∀ root, root ∈ (filed reports around n).held ↔
      ∃ k < n, (reports k).project = some root ∧ RegisteredAround reports around k ∧
        ∀ j, k < j → j ≤ n → ProperlyInside reports root j := by
  have hheld : ∀ root, root ∈ (filed reports around n).held ↔
      ∃ k < n, (reports k).project = some root ∧ RegisteredAround reports around k ∧
        ∀ j, k < j → j ≤ n → ProperlyInside reports root j := by
    intro root
    induction n with
    | zero =>
      rw [filed, hfirst]
      exact iff_of_false List.not_mem_nil fun ⟨k, hk, _⟩ => absurd hk (Nat.not_lt_zero k)
    | succ n ih =>
      rw [mem_held_succ, ih]
      constructor
      · rintro ⟨⟨k, hk, hroot, hregistered, hsince⟩ | ⟨hroot, hregistered⟩, hinside⟩
        · refine ⟨k, Nat.lt_succ_of_lt hk, hroot, hregistered, fun j hj hle => ?_⟩
          rcases Nat.lt_or_eq_of_le hle with hlt | rfl
          · exact hsince j hj (Nat.le_of_lt_succ hlt)
          · exact hinside
        · refine ⟨n, Nat.lt_succ_self n, hroot, hregistered, fun j hj hle => ?_⟩
          rwa [Nat.le_antisymm hle hj]
      · rintro ⟨k, hk, hroot, hregistered, hsince⟩
        refine ⟨?_, hsince (n + 1) hk (Nat.le_refl _)⟩
        rcases Nat.lt_or_eq_of_le (Nat.le_of_lt_succ hk) with hlt | rfl
        · exact .inl ⟨k, hlt, hroot, hregistered, fun j hj hle => hsince j hj (Nat.le_succ_of_le hle)⟩
        · exact .inr ⟨hroot, hregistered⟩
  refine ⟨?_, fun root hroot => ?_, hheld⟩
  · cases n with
    | zero =>
      rw [filed, hfirst]
      exact .nil
    | succ n => exact sorted_increasing _
  · obtain ⟨k, hk, -, -, hsince⟩ := (hheld root).1 hroot
    exact hsince n hk (Nat.le_refl n)

end History

/-- A shell in "/s/a" when that folder becomes a project inside "/s". -/
theorem held_over_history_of_nested :
    let shop : ProjectRoot := ⟨⟨.root, [.normal [115]]⟩, rfl⟩
    let admin : ProjectRoot := ⟨⟨.root, [.normal [115], .normal [97]]⟩, rfl⟩
    let at_ (seq : ℕ) (project : ProjectRoot) : ShellRecord :=
      ⟨⟨100, 1⟩, ⟨⟨1, 1⟩, seq⟩, admin.path, 1, some project, []⟩
    let reports (n : ℕ) := at_ n (if n = 0 then shop else admin)
    shop ∈ (filed reports (fun _ => false) 1).held ∧ (filed reports (fun _ => false) 1).held = [shop] := by
  intro shop admin at_ reports
  have hinside : ∀ j, 0 < j → j ≤ 1 → ProperlyInside reports shop j := by
    intro j hj hle
    obtain rfl : j = 1 := by omega
    exact ⟨admin, rfl, by decide, by decide⟩
  exact ⟨((held_over_history rfl 1).2.2 shop).2 ⟨0, by decide, rfl, ⟨admin, rfl, .inr (by decide)⟩, hinside⟩,
    by decide⟩

end Muster.Service
