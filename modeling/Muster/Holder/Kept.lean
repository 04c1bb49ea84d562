import Mathlib.Algebra.GroupWithZero.Nat
import Mathlib.Algebra.Order.BigOperators.Group.List
import Mathlib.Algebra.Order.Group.Nat
import Muster.Lib.Newest

/-!
# Kept — the newest lines a log read returns

A read offers its lines to a filter, oldest first; what passes is kept, and the oldest of it dropped
past a cap on lines and one on bytes.  An errors-only read puts a separator before each group of error
lines; it takes bytes, but is no line and never leads.
-/

namespace Muster.Holder

def errorContextLines : ℕ := 12

def groupSeparator : String := "--"

/-- One entry a read keeps: a line, or a separator before an error group. -/
structure KeptLine where
  text : String
  /-- Where the line, or the group a separator opens, begins in the output. -/
  start : ℕ
  separator : Bool
deriving DecidableEq, Repr

def KeptLine.bytes (entry : KeptLine) : ℕ := entry.text.utf8ByteSize + 1

def checkedSub (a b : ℕ) : Option ℕ := if b ≤ a then some (a - b) else none

structure Kept where
  lines : List KeptLine
  separators : ℕ
  bytes : ℕ
  omitted : ℕ
  lineCap : ℕ
  byteCap : ℕ
  /-- Whether a line dropped from now on counts as omitted. -/
  counting : Bool
  /-- Entries at the front added while not counting. -/
  uncounted : ℕ
deriving DecidableEq, Repr

namespace Kept

def new (lineCap byteCap : ℕ) : Kept := ⟨[], 0, 0, 0, lineCap, byteCap, true, 0⟩

def countFromNow (kept : Kept) (counting : Bool) : Kept := { kept with counting }

def separatorsAfter (separators : ℕ) (entry : KeptLine) : Option ℕ :=
  if entry.separator then checkedSub separators 1 else some separators

/-- Drops the oldest entry, counting it as omitted unless it was added while not counting or is a
separator. -/
def dropOldest (kept : Kept) : Option Kept :=
  match kept.lines with
  | [] => some kept
  | entry :: lines => do
    let bytes ← checkedSub kept.bytes entry.bytes
    let separators ← separatorsAfter kept.separators entry
    let kept := { kept with lines, bytes, separators }
    if kept.uncounted > 0 then some { kept with uncounted := kept.uncounted - 1 }
    else if !entry.separator then some { kept with omitted := kept.omitted + 1 }
    else some kept

def overCaps (kept : Kept) : Option Bool :=
  if kept.lines.isEmpty then some false
  else do
    let lines ← checkedSub kept.lines.length kept.separators
    some (lines > kept.lineCap || kept.bytes > kept.byteCap)

def dropGroup (kept : Kept) : Option Kept := do
  let kept ← kept.dropOldest
  if (kept.lines.head?.map KeptLine.separator).getD false then kept.dropOldest else some kept

theorem lines_dropOldest {kept kept' : Kept} (h : kept.dropOldest = some kept') :
    kept'.lines = kept.lines.tail := by
  unfold dropOldest at h
  split at h
  · rename_i hlines
    cases h
    rw [hlines, List.tail_nil]
  · rename_i entry lines hlines
    simp only [Option.bind_eq_bind, Option.bind_eq_some_iff] at h
    obtain ⟨bytes, -, separators, -, h⟩ := h
    rw [hlines, List.tail_cons]
    split at h
    · cases h; rfl
    split at h <;> cases h <;> rfl

theorem length_dropGroup_lt {kept kept' : Kept} (hne : kept.lines ≠ [])
    (h : kept.dropGroup = some kept') : kept'.lines.length < kept.lines.length := by
  have hpos : 0 < kept.lines.length := List.length_pos_iff.2 hne
  simp only [dropGroup, Option.bind_eq_bind, Option.bind_eq_some_iff] at h
  obtain ⟨first, hfirst, h⟩ := h
  have hlength : first.lines.length = kept.lines.length - 1 := by
    rw [lines_dropOldest hfirst, List.length_tail]
  split at h
  · rw [lines_dropOldest h, List.length_tail]
    omega
  · cases h
    omega

def enforceCaps (kept : Kept) : Option Kept :=
  match _hover : kept.overCaps with
  | none => none
  | some false => some kept
  | some true =>
    match _hdrop : kept.dropGroup with
    | none => none
    | some kept' => kept'.enforceCaps
termination_by kept.lines.length
decreasing_by
  refine length_dropGroup_lt (fun hnil => ?_) _hdrop
  rw [overCaps, hnil] at _hover
  cases _hover

def add (kept : Kept) (entry : KeptLine) : Option Kept :=
  let kept := { kept with bytes := kept.bytes + entry.bytes, lines := kept.lines ++ [entry] }
  let kept := if !kept.counting then { kept with uncounted := kept.uncounted + 1 } else kept
  kept.enforceCaps

def push (kept : Kept) (line : String) (start : ℕ) : Option Kept := kept.add ⟨line, start, false⟩

def separate (kept : Kept) (start : ℕ) : Option Kept :=
  if !kept.lines.isEmpty then
    { kept with separators := kept.separators + 1 }.add ⟨groupSeparator, start, true⟩
  else some kept

end Kept

inductive LineFilter where
  | all
  | grep (isMatch : String → Bool)
  | errorsOnly

/-- A filter applied line by line, with what errors-only needs to remember. -/
structure FilterState where
  /-- Continuation lines the current error group may still take. -/
  context : ℕ
  previousKept : Bool
deriving DecidableEq, Repr

namespace FilterState

def new : FilterState := ⟨0, false⟩

variable (isErrorLine isContinuation : String → Bool) (filter : LineFilter)

/-- Whether a line is kept, and the continuation lines its group may take after it. -/
def judge (state : FilterState) (text : String) : Bool × ℕ :=
  match filter with
  | .all => (true, state.context)
  | .grep isMatch => (isMatch text, state.context)
  | .errorsOnly =>
    if isErrorLine text then (true, errorContextLines)
    else if state.context > 0 && isContinuation text then (true, state.context - 1)
    else (false, 0)

/-- Whether a line opens an error group that does not adjoin the one before. -/
def opens (state : FilterState) (text : String) : Bool :=
  match filter with
  | .errorsOnly => isErrorLine text && !state.previousKept
  | _ => false

def next (state : FilterState) (text : String) : FilterState :=
  ⟨(state.judge isErrorLine isContinuation filter text).2,
    (state.judge isErrorLine isContinuation filter text).1⟩

def offer (state : FilterState) (text : String) (start : ℕ) (kept : Kept) :
    Option (FilterState × Kept) := do
  let kept ← (if state.opens isErrorLine filter text then kept.separate start else some kept)
  let kept ← (if (state.judge isErrorLine isContinuation filter text).1 then kept.push text start
    else some kept)
  some (state.next isErrorLine isContinuation filter text, kept)

end FilterState

/-- A line offered, and whether lines count as omitted from it on. -/
structure Offer where
  text : String
  start : ℕ
  counting : Bool
deriving DecidableEq, Repr

section Read

variable (isErrorLine isContinuation : String → Bool) (filter : LineFilter)

def offerAll : FilterState → Kept → List Offer → Option (FilterState × Kept)
  | state, kept, [] => some (state, kept)
  | state, kept, offer :: offers => do
    let (state, kept) ← state.offer isErrorLine isContinuation filter offer.text offer.start
      (kept.countFromNow offer.counting)
    offerAll state kept offers

/-! ### What is offered, uncapped -/

/-- An entry, and whether it was offered while counting. -/
abbrev Entry := KeptLine × Bool

def Offer.line (offer : Offer) : Entry := (⟨offer.text, offer.start, false⟩, offer.counting)

def Offer.separator (offer : Offer) : Entry := (⟨groupSeparator, offer.start, true⟩, offer.counting)

/-- The entries a line makes: a separator before it where it opens a group, and itself where it
passes. -/
def FilterState.entries (state : FilterState) (offer : Offer) : List Entry :=
  (if state.opens isErrorLine filter offer.text then [offer.separator] else []) ++
    (if (state.judge isErrorLine isContinuation filter offer.text).1 then [offer.line] else [])

def passed : FilterState → List Offer → List Entry
  | _, [] => []
  | state, offer :: offers =>
    state.entries isErrorLine isContinuation filter offer ++
      passed (state.next isErrorLine isContinuation filter offer.text) offers

end Read

/-- Whether entries are within a cap on lines and one on bytes. -/
def withinCaps (lineCap byteCap : ℕ) (lines : List KeptLine) : Bool :=
  lines.countP (!·.separator) ≤ lineCap && (lines.map KeptLine.bytes).sum ≤ byteCap

def countedLine (entry : Entry) : Bool := entry.2 && !entry.1.separator

theorem withinCaps_nil (lineCap byteCap : ℕ) : withinCaps lineCap byteCap [] = true := by
  simp [withinCaps]

theorem withinCaps_of_isPrefix {lineCap byteCap : ℕ} (part lines : List KeptLine)
    (hpart : part <+: lines) (h : withinCaps lineCap byteCap lines = true) :
    withinCaps lineCap byteCap part = true := by
  obtain ⟨rest, rfl⟩ := hpart
  simp only [withinCaps, List.countP_append, List.map_append, List.sum_append, Bool.and_eq_true,
    decide_eq_true_eq] at h ⊢
  omega

/-! ### The counters -/

/-- Once counting is on, it stays on. -/
def Counted (entries : List Entry) : Prop :=
  entries.Pairwise fun earlier later => earlier.2 = true → later.2 = true

namespace Kept

def holding (lineCap byteCap : ℕ) (counting : Bool) (dropped held : List Entry) : Kept :=
  { lines := held.map Prod.fst
    separators := (held.map Prod.fst).countP KeptLine.separator
    bytes := ((held.map Prod.fst).map KeptLine.bytes).sum
    omitted := dropped.countP countedLine
    lineCap, byteCap, counting
    uncounted := held.countP (!·.2) }

variable (lineCap byteCap : ℕ) (counting : Bool)

theorem dropOldest_holding (dropped : List Entry) {held : List Entry} {entry : Entry}
    (h : Counted (entry :: held)) :
    (holding lineCap byteCap counting dropped (entry :: held)).dropOldest =
      some (holding lineCap byteCap counting (dropped ++ [entry]) held) := by
  obtain ⟨hlater, -⟩ := List.pairwise_cons.1 h
  obtain ⟨line, counted⟩ := entry
  have hbytes : checkedSub (line.bytes + ((held.map Prod.fst).map KeptLine.bytes).sum) line.bytes =
      some ((held.map Prod.fst).map KeptLine.bytes).sum := by
    rw [checkedSub, if_pos (Nat.le_add_right ..), Nat.add_sub_cancel_left]
  have hseparators : separatorsAfter ((line :: held.map Prod.fst).countP KeptLine.separator) line =
      some ((held.map Prod.fst).countP KeptLine.separator) := by
    rw [separatorsAfter, List.countP_cons]
    split <;> simp [checkedSub]
  unfold dropOldest
  simp only [holding, List.map_cons, List.sum_cons, hbytes, hseparators, Option.bind_eq_bind,
    Option.bind_some]
  cases counted with
  | false =>
    have hmore : List.countP (!·.2) ((line, false) :: held) = held.countP (!·.2) + 1 := by
      simp
    have hsame : (dropped ++ [(line, false)]).countP countedLine = dropped.countP countedLine := by
      simp [List.countP_append, countedLine]
    rw [hmore, hsame, if_pos (Nat.succ_pos _)]
    rfl
  | true =>
    have hnone : held.countP (!·.2) = 0 := by
      rw [List.countP_eq_zero]
      intro later hmem
      rw [hlater later hmem rfl]
      decide
    have hmore : List.countP (!·.2) ((line, true) :: held) = 0 := by
      rw [List.countP_cons, hnone]
      rfl
    rw [hmore, hnone, if_neg (Nat.lt_irrefl 0), List.countP_append]
    cases hseparator : line.separator <;> simp [countedLine, hseparator]

theorem checkedSub_separators (lines : List KeptLine) :
    checkedSub lines.length (lines.countP KeptLine.separator) =
      some (lines.countP (!·.separator)) := by
  have hlength := List.length_eq_countP_add_countP KeptLine.separator (l := lines)
  have hcount : lines.countP (fun line => decide ¬ line.separator = true) =
      lines.countP (!·.separator) := by
    congr 1
    funext line
    cases line.separator <;> rfl
  rw [hcount] at hlength
  rw [checkedSub, if_pos (by omega), hlength, Nat.add_sub_cancel_left]

theorem overCaps_holding (dropped held : List Entry) :
    (holding lineCap byteCap counting dropped held).overCaps =
      some (!withinCaps lineCap byteCap (held.map Prod.fst)) := by
  have hsub := checkedSub_separators (held.map Prod.fst)
  cases held with
  | nil =>
    rw [List.map_nil, withinCaps_nil]
    rfl
  | cons entry held =>
    have hsome : (holding lineCap byteCap counting dropped (entry :: held)).lines.isEmpty = false :=
      rfl
    rw [overCaps, hsome, if_neg Bool.false_ne_true, withinCaps, Bool.not_and]
    simp only [holding, hsub, Option.bind_eq_bind, Option.bind_some]
    simp only [← not_le, decide_not]

theorem dropGroup_holding (dropped : List Entry) {held : List Entry} {entry : Entry}
    (h : Counted (entry :: held)) :
    ∃ gone left, gone ++ left = entry :: held ∧ left.length ≤ held.length ∧
      left.map Prod.fst = dropMarker KeptLine.separator (held.map Prod.fst) ∧
      (holding lineCap byteCap counting dropped (entry :: held)).dropGroup =
        some (holding lineCap byteCap counting (dropped ++ gone) left) := by
  have hrest : Counted held := (List.pairwise_cons.1 h).2
  unfold dropGroup
  rw [dropOldest_holding lineCap byteCap counting dropped h]
  cases held with
  | nil => exact ⟨[entry], [], rfl, le_rfl, rfl, rfl⟩
  | cons next held =>
    rw [List.map_cons, dropMarker]
    cases hseparator : next.1.separator with
    | true =>
      refine ⟨[entry, next], held, rfl, Nat.le_succ _, rfl, ?_⟩
      have htwo : dropped ++ [entry, next] = (dropped ++ [entry]) ++ [next] := by
        rw [List.append_assoc]
        rfl
      rw [htwo, ← dropOldest_holding lineCap byteCap counting _ hrest]
      simp only [holding, List.map_cons, Option.bind_eq_bind, Option.bind_some, List.head?_cons,
        Option.map_some, Option.getD_some, hseparator, if_true]
    | false =>
      refine ⟨[entry], next :: held, rfl, le_rfl, rfl, ?_⟩
      simp only [holding, List.map_cons, Option.bind_eq_bind, Option.bind_some, List.head?_cons,
        Option.map_some, Option.getD_some, hseparator, Bool.false_eq_true, if_false]

theorem enforceCaps_of_within {kept : Kept} (h : kept.overCaps = some false) :
    kept.enforceCaps = some kept := by
  rw [enforceCaps]
  split <;> rename_i hover <;> rw [h] at hover <;> cases hover

theorem enforceCaps_of_over {kept kept' : Kept} (h : kept.overCaps = some true)
    (hdrop : kept.dropGroup = some kept') : kept.enforceCaps = kept'.enforceCaps := by
  rw [enforceCaps]
  split <;> rename_i hover <;> rw [h] at hover <;> cases hover
  split <;> rename_i hgroup <;> rw [hdrop] at hgroup <;> cases hgroup
  rfl

/-- The loop over the caps drops what trimming drops, each entry accounted for. -/
theorem enforceCaps_holding (dropped held : List Entry) (h : Counted held) :
    ∃ gone left, gone ++ left = held ∧
      left.map Prod.fst = trim KeptLine.separator (withinCaps lineCap byteCap) (held.map Prod.fst) ∧
      (holding lineCap byteCap counting dropped held).enforceCaps =
        some (holding lineCap byteCap counting (dropped ++ gone) left) := by
  induction hn : held.length using Nat.strong_induction_on generalizing dropped held with
  | _ n ih =>
    subst hn
    have hover := overCaps_holding lineCap byteCap counting dropped held
    cases hwithin : withinCaps lineCap byteCap (held.map Prod.fst) with
    | true =>
      rw [hwithin] at hover
      refine ⟨[], held, rfl, (trim_of_within hwithin).symm, ?_⟩
      rw [List.append_nil]
      exact enforceCaps_of_within hover
    | false =>
      cases held with
      | nil =>
        rw [List.map_nil, withinCaps_nil] at hwithin
        cases hwithin
      | cons entry held =>
        rw [hwithin] at hover
        obtain ⟨gone, left, heq, hlength, hleft, hgroup⟩ :=
          dropGroup_holding lineCap byteCap counting dropped h
        have hcounted : Counted left := by
          rw [← heq] at h
          exact (List.pairwise_append.1 h).2.1
        obtain ⟨more, last, hmore, hlast, hloop⟩ :=
          ih left.length (Nat.lt_succ_of_le hlength) (dropped ++ gone) left hcounted rfl
        refine ⟨gone ++ more, last, ?_, ?_, ?_⟩
        · rw [List.append_assoc, hmore, heq]
        · rw [hlast, hleft, List.map_cons, trim_cons_of_over hwithin]
        · rw [enforceCaps_of_over hover hgroup, hloop, List.append_assoc]

/-! ### The entries kept -/

/-- What is kept of `entries`: an end of them, the longest that fits, and the rest dropped. -/
structure Keeps (entries : List Entry) (kept : Kept) (dropped held : List Entry) : Prop where
  split : dropped ++ held = entries
  state : kept = holding lineCap byteCap counting dropped held
  newest : Newest KeptLine.separator (withinCaps lineCap byteCap) (entries.map Prod.fst)
    (held.map Prod.fst)

variable {lineCap byteCap counting} {entries dropped held : List Entry} {kept : Kept}

theorem Keeps.countFromNow (h : Keeps lineCap byteCap counting entries kept dropped held)
    (now : Bool) : Keeps lineCap byteCap now entries (kept.countFromNow now) dropped held := by
  refine ⟨h.split, ?_, h.newest⟩
  rw [h.state]
  rfl

theorem add_holding (dropped held : List Entry) (line : KeptLine) :
    ({ holding lineCap byteCap counting dropped held with
        separators := (held.map Prod.fst).countP KeptLine.separator +
          if line.separator then 1 else 0 } : Kept).add line =
      (holding lineCap byteCap counting dropped (held ++ [(line, counting)])).enforceCaps := by
  unfold add
  cases counting <;>
    simp [holding, List.countP_append, List.countP_cons, List.sum_append]

theorem Keeps.add (h : Keeps lineCap byteCap counting entries kept dropped held) {line : KeptLine}
    (hcounted : Counted (entries ++ [(line, counting)]))
    (hspaced : Spaced KeptLine.separator ((entries ++ [(line, counting)]).map Prod.fst))
    (hpreceded : ¬ (held.map Prod.fst = [] ∧ line.separator = true)) :
    ∃ kept' dropped' held',
      ({ kept with separators := kept.separators + if line.separator then 1 else 0 } : Kept).add line =
        some kept' ∧
      Keeps lineCap byteCap counting (entries ++ [(line, counting)]) kept' dropped' held' := by
  have hheld : Counted (held ++ [(line, counting)]) := by
    rw [← h.split, List.append_assoc] at hcounted
    exact (List.pairwise_append.1 hcounted).2.1
  obtain ⟨gone, left, hsplit, hleft, hloop⟩ :=
    enforceCaps_holding lineCap byteCap counting dropped (held ++ [(line, counting)]) hheld
  refine ⟨_, dropped ++ gone, left, ?_, ?_, rfl, ?_⟩
  · rw [h.state, ← hloop]
    exact add_holding dropped held line
  · rw [List.append_assoc, hsplit, ← List.append_assoc, h.split]
  · rw [List.map_append] at hspaced ⊢
    have hnewest := h.newest.concat (withinCaps_nil ..) withinCaps_of_isPrefix hspaced
    rw [if_neg hpreceded] at hnewest
    rw [hleft, List.map_append]
    exact hnewest

theorem Keeps.push {offer : Offer} (h : Keeps lineCap byteCap offer.counting entries kept dropped held)
    (hcounted : Counted (entries ++ [offer.line]))
    (hspaced : Spaced KeptLine.separator ((entries ++ [offer.line]).map Prod.fst)) :
    ∃ kept' dropped' held', kept.push offer.text offer.start = some kept' ∧
      Keeps lineCap byteCap offer.counting (entries ++ [offer.line]) kept' dropped' held' :=
  h.add hcounted hspaced fun hboth => Bool.false_ne_true hboth.2

theorem Keeps.separate {offer : Offer}
    (h : Keeps lineCap byteCap offer.counting entries kept dropped held)
    (hcounted : Counted (entries ++ [offer.separator]))
    (hspaced : Spaced KeptLine.separator ((entries ++ [offer.separator]).map Prod.fst)) :
    ∃ kept' dropped' held', kept.separate offer.start = some kept' ∧
      Keeps lineCap byteCap offer.counting (entries ++ [offer.separator]) kept' dropped' held' := by
  have hlines : kept.lines = held.map Prod.fst := by
    rw [h.state]
    rfl
  unfold Kept.separate
  by_cases hempty : held.map Prod.fst = []
  · have hnil : held = [] := List.map_eq_nil_iff.1 hempty
    refine ⟨kept, dropped ++ [offer.separator], [], ?_, ?_, ?_, ?_⟩
    · rw [hlines, hempty]
      rfl
    · rw [List.append_nil, ← h.split, hnil, List.append_nil]
    · rw [h.state, hnil]
      simp [holding, List.countP_append, countedLine, Offer.separator]
    · rw [List.map_append] at hspaced ⊢
      have hnewest := h.newest.concat (withinCaps_nil ..) withinCaps_of_isPrefix hspaced
      rw [if_pos ⟨hempty, rfl⟩] at hnewest
      exact hnewest
  · have hsome : (!kept.lines.isEmpty) = true := by
      rw [hlines, List.isEmpty_eq_false_iff.2 hempty]
      rfl
    rw [if_pos hsome]
    exact h.add hcounted hspaced fun hboth => hempty hboth.1

end Kept

/-! ### The read -/

section Read

variable (isErrorLine isContinuation : String → Bool) (filter : LineFilter)
variable {lineCap byteCap : ℕ} {state : FilterState} {offers : List Offer}

open Kept

theorem FilterState.judge_of_opens {text : String}
    (h : state.opens isErrorLine filter text = true) :
    (state.judge isErrorLine isContinuation filter text).1 = true := by
  cases filter with
  | all | grep => cases h
  | errorsOnly =>
    rw [opens, Bool.and_eq_true] at h
    simp only [judge, h.1, if_true]

theorem FilterState.keeps_offer {offer : Offer} {earlier dropped held : List Entry} {kept : Kept}
    (h : Keeps lineCap byteCap offer.counting earlier kept dropped held)
    (hcounted : Counted (earlier ++ state.entries isErrorLine isContinuation filter offer))
    (hspaced : Spaced KeptLine.separator
      ((earlier ++ state.entries isErrorLine isContinuation filter offer).map Prod.fst)) :
    ∃ kept' dropped' held',
      state.offer isErrorLine isContinuation filter offer.text offer.start kept =
        some (state.next isErrorLine isContinuation filter offer.text, kept') ∧
      Keeps lineCap byteCap offer.counting
        (earlier ++ state.entries isErrorLine isContinuation filter offer) kept' dropped' held' := by
  unfold FilterState.offer
  cases hopens : state.opens isErrorLine filter offer.text with
  | true =>
    have hjudge := judge_of_opens isErrorLine isContinuation filter hopens
    have hentries : state.entries isErrorLine isContinuation filter offer =
        [offer.separator] ++ [offer.line] := by
      rw [entries, hopens, hjudge]
      rfl
    rw [hentries, ← List.append_assoc] at hcounted hspaced ⊢
    obtain ⟨kept₁, dropped₁, held₁, hseparate, h₁⟩ := h.separate (List.pairwise_append.1 hcounted).1
      (by rw [List.map_append] at hspaced; exact hspaced.left_of_append)
    obtain ⟨kept₂, dropped₂, held₂, hpush, h₂⟩ := h₁.push hcounted hspaced
    refine ⟨kept₂, dropped₂, held₂, ?_, h₂⟩
    simp only [if_true, hjudge, hseparate, hpush, Option.bind_eq_bind, Option.bind_some]
  | false =>
    cases hjudge : (state.judge isErrorLine isContinuation filter offer.text).1 with
    | true =>
      have hentries : state.entries isErrorLine isContinuation filter offer = [offer.line] := by
        rw [entries, hopens, hjudge]
        rfl
      rw [hentries] at hcounted hspaced ⊢
      obtain ⟨kept₁, dropped₁, held₁, hpush, h₁⟩ := h.push hcounted hspaced
      refine ⟨kept₁, dropped₁, held₁, ?_, h₁⟩
      simp only [Bool.false_eq_true, if_false, if_true, hpush, Option.bind_eq_bind, Option.bind_some]
    | false =>
      have hentries : state.entries isErrorLine isContinuation filter offer = [] := by
        rw [entries, hopens, hjudge]
        rfl
      rw [hentries, List.append_nil]
      exact ⟨kept, dropped, held, rfl, h⟩

theorem FilterState.mem_entries {offer : Offer} {entry : Entry}
    (h : entry ∈ state.entries isErrorLine isContinuation filter offer) :
    entry.2 = offer.counting := by
  rw [entries, List.mem_append] at h
  obtain h | h := h <;> split at h <;> simp at h <;> rw [h] <;> rfl

theorem mem_passed {entry : Entry}
    (h : entry ∈ passed isErrorLine isContinuation filter state offers) :
    ∃ offer ∈ offers, entry.2 = offer.counting := by
  induction offers generalizing state with
  | nil => cases h
  | cons offer offers ih =>
    rw [passed, List.mem_append] at h
    obtain h | h := h
    · exact ⟨offer, List.mem_cons_self, FilterState.mem_entries _ _ _ h⟩
    · obtain ⟨later, hlater, heq⟩ := ih h
      exact ⟨later, List.mem_cons_of_mem _ hlater, heq⟩

theorem counted_passed
    (h : offers.Pairwise fun earlier later => earlier.counting = true → later.counting = true) :
    Counted (passed isErrorLine isContinuation filter state offers) := by
  induction offers generalizing state with
  | nil => exact .nil
  | cons offer offers ih =>
    obtain ⟨hfirst, hrest⟩ := List.pairwise_cons.1 h
    rw [passed]
    refine List.pairwise_append.2 ⟨?_, ih hrest, ?_⟩
    · refine List.pairwise_of_forall_mem_list fun a ha b hb hcounting => ?_
      rw [FilterState.mem_entries _ _ _ ha] at hcounting
      rw [FilterState.mem_entries _ _ _ hb, hcounting]
    · intro a ha b hb hcounting
      rw [FilterState.mem_entries _ _ _ ha] at hcounting
      obtain ⟨later, hlater, heq⟩ := mem_passed _ _ _ hb
      rw [heq, hfirst later hlater hcounting]

theorem spaced_passed (state : FilterState) (offers : List Offer) :
    Spaced KeptLine.separator
      ((passed isErrorLine isContinuation filter state offers).map Prod.fst) := by
  induction offers generalizing state with
  | nil => exact .nil
  | cons offer offers ih =>
    have hline : Spaced KeptLine.separator (offer.line.1 ::
        (passed isErrorLine isContinuation filter
          (state.next isErrorLine isContinuation filter offer.text) offers).map Prod.fst) :=
      (ih _).cons rfl
    rw [passed, FilterState.entries]
    cases hopens : state.opens isErrorLine filter offer.text with
    | true =>
      rw [FilterState.judge_of_opens isErrorLine isContinuation filter hopens]
      exact List.isChain_cons_cons.2 ⟨fun hboth => Bool.false_ne_true hboth.2, hline⟩
    | false =>
      cases (state.judge isErrorLine isContinuation filter offer.text).1 with
      | true => exact hline
      | false => exact ih _

/-- Lines offered one after the other leave the longest end of what passed. -/
theorem keeps_offerAll {counting : Bool} {earlier dropped held : List Entry} {kept : Kept}
    (h : Keeps lineCap byteCap counting earlier kept dropped held)
    (hcounted : Counted (earlier ++ passed isErrorLine isContinuation filter state offers))
    (hspaced : Spaced KeptLine.separator
      ((earlier ++ passed isErrorLine isContinuation filter state offers).map Prod.fst)) :
    ∃ state' kept' counting' dropped' held',
      offerAll isErrorLine isContinuation filter state kept offers = some (state', kept') ∧
      Keeps lineCap byteCap counting'
        (earlier ++ passed isErrorLine isContinuation filter state offers) kept' dropped' held' := by
  induction offers generalizing state counting earlier dropped held kept with
  | nil =>
    rw [passed, List.append_nil]
    exact ⟨state, kept, counting, dropped, held, rfl, h⟩
  | cons offer offers ih =>
    rw [passed, ← List.append_assoc] at hcounted hspaced ⊢
    obtain ⟨kept₁, dropped₁, held₁, hoffer, h₁⟩ := FilterState.keeps_offer isErrorLine isContinuation
      filter (h.countFromNow offer.counting) (List.pairwise_append.1 hcounted).1
      (by rw [List.map_append] at hspaced; exact hspaced.left_of_append)
    obtain ⟨state₂, kept₂, counting₂, dropped₂, held₂, hall, h₂⟩ := ih h₁ hcounted hspaced
    refine ⟨state₂, kept₂, counting₂, dropped₂, held₂, ?_, h₂⟩
    rw [offerAll, hoffer]
    exact hall

/-- **Capping keeps the newest.**  Whatever the caps and the lines, no counter goes below zero; what
is kept is the longest end of everything that passed which leads with no separator and is within the
caps; the counters say what is held, and the omitted are the lines counted and not kept. -/
theorem capping_keeps_newest (lineCap byteCap : ℕ) {offers : List Offer}
    (hcounting : offers.Pairwise fun earlier later =>
      earlier.counting = true → later.counting = true) :
    ∃ state kept,
      offerAll isErrorLine isContinuation filter .new (.new lineCap byteCap) offers =
        some (state, kept) ∧
      Newest KeptLine.separator (withinCaps lineCap byteCap)
        ((passed isErrorLine isContinuation filter .new offers).map Prod.fst) kept.lines ∧
      kept.bytes = (kept.lines.map KeptLine.bytes).sum ∧
      kept.separators = kept.lines.countP KeptLine.separator ∧
      kept.omitted = ((passed isErrorLine isContinuation filter .new offers).take
        ((passed isErrorLine isContinuation filter .new offers).length - kept.lines.length)).countP
          countedLine := by
  have hnew : Keeps lineCap byteCap true [] (.new lineCap byteCap) [] [] :=
    ⟨rfl, rfl, List.suffix_refl _, withinCaps_nil .., (fun _ h => nomatch h), fun _ h _ _ => h⟩
  obtain ⟨state, kept, counting, dropped, held, hall, hkeeps⟩ :=
    keeps_offerAll isErrorLine isContinuation filter hnew (counted_passed _ _ _ hcounting)
      (spaced_passed _ _ _ .new offers)
  refine ⟨state, kept, hall, ?_⟩
  rw [List.nil_append] at hkeeps
  have hlines : kept.lines = held.map Prod.fst := by
    rw [hkeeps.state]
    rfl
  rw [hlines, ← hkeeps.split, List.length_map, List.length_append, Nat.add_sub_cancel,
    List.take_left, hkeeps.split]
  refine ⟨hkeeps.newest, ?_⟩
  rw [hkeeps.state]
  exact ⟨rfl, rfl, rfl⟩

end Read

/-- Two errors apart, and room for five bytes: the older one goes, and the separator with it. -/
theorem capping_keeps_newest_of_errors :
    ∃ state kept,
      offerAll (· == "E") (fun _ => false) .errorsOnly .new (.new 5 5)
        [⟨"E", 0, false⟩, ⟨"ok", 2, true⟩, ⟨"E", 5, true⟩] = some (state, kept) ∧
      Newest KeptLine.separator (withinCaps 5 5)
        ((passed (· == "E") (fun _ => false) .errorsOnly .new
          [⟨"E", 0, false⟩, ⟨"ok", 2, true⟩, ⟨"E", 5, true⟩]).map Prod.fst) kept.lines ∧
      kept.bytes = (kept.lines.map KeptLine.bytes).sum ∧
      kept.separators = kept.lines.countP KeptLine.separator ∧
      kept.omitted = ((passed (· == "E") (fun _ => false) .errorsOnly .new
        [⟨"E", 0, false⟩, ⟨"ok", 2, true⟩, ⟨"E", 5, true⟩]).take
        ((passed (· == "E") (fun _ => false) .errorsOnly .new
          [⟨"E", 0, false⟩, ⟨"ok", 2, true⟩, ⟨"E", 5, true⟩]).length - kept.lines.length)).countP
          countedLine :=
  capping_keeps_newest (· == "E") (fun _ => false) .errorsOnly 5 5 (by decide)

end Muster.Holder
