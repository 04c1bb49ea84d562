import Mathlib.Data.List.Basic
import Mathlib.Data.UInt

/-!
# ByteQueue — a queue to one consumer thread, bounded by the bytes it holds

One producer pushes and clears; one consumer thread takes items in order and then releases their
bytes.  The consumer moves between any two steps of the producer's operations: `races` says what it
does during each operation still to come, which no operation looks at beyond playing it.
-/

namespace Muster.Holder

/-- What the consumer does next: take the oldest item, or release the bytes of the one it took. -/
inductive Move where
  | take | release
deriving DecidableEq, Repr

structure ByteQueue (T : Type) where
  items : List (T × UInt64)
  /-- Bytes queued and not yet released. -/
  queued : UInt64
  /-- Bytes the queue holds before it refuses more. -/
  cap : UInt64
  /-- The weight of the item the consumer took and has not released. -/
  hand : Option UInt64
  taken : List T
  /-- For each of the producer's operations to come, the consumer's moves before each of its
  steps. -/
  races : List (List (List Move))
deriving DecidableEq, Repr

def wordSize : ℕ := 2 ^ 64

def saturatingAdd (a b : UInt64) : ℕ := min (a.toNat + b.toNat) (wordSize - 1)

namespace ByteQueue

variable {T : Type}

def new (cap : UInt64) (races : List (List (List Move))) : ByteQueue T := ⟨[], 0, cap, none, [], races⟩

def move (q : ByteQueue T) : Move → ByteQueue T
  | .take =>
    match q.hand, q.items with
    | none, (item, bytes) :: rest =>
      { q with items := rest, hand := some bytes, taken := q.taken ++ [item] }
    | _, _ => q
  | .release =>
    match q.hand with
    | some bytes => { q with queued := q.queued - bytes, hand := none }
    | none => q

def moves (q : ByteQueue T) (ms : List Move) : ByteQueue T := ms.foldl move q

/-- The consumer's moves during the operation that begins now. -/
def race (q : ByteQueue T) : List (List Move) := q.races.headD []

def begun (q : ByteQueue T) : ByteQueue T := { q with races := q.races.tail }

/-- Sends a reserved item.  The queue keeps a receiver of its own, so a send never fails. -/
def enqueue (q : ByteQueue T) (item : T) (bytes : UInt64) : ByteQueue T :=
  { q with items := q.items ++ [(item, bytes)] }

def forcePush (q : ByteQueue T) (item : T) (bytes : UInt64) : ByteQueue T :=
  let reserved := { q.begun.moves (q.race.headD []) with
    queued := (q.begun.moves (q.race.headD [])).queued + bytes }
  (reserved.moves (q.race.tail.headD [])).enqueue item bytes

def tryPush (q : ByteQueue T) (item : T) (bytes : UInt64) : ByteQueue T × Bool :=
  let queued := (q.begun.moves (q.race.headD [])).queued
  if queued ≠ 0 ∧ q.cap.toNat < saturatingAdd queued bytes then (q.begun.moves (q.race.headD []), false)
  else (q.forcePush item bytes, true)

/-- Takes back what is queued until nothing is left, the consumer taking items meanwhile. -/
def drain : ℕ → List (List Move) → ByteQueue T → List T × ByteQueue T
  | 0, _, q => ([], q)
  | fuel + 1, ms, q =>
    let q := q.moves (ms.headD [])
    match q.items with
    | [] => ([], q)
    | (item, bytes) :: rest =>
      let (items, q) := drain fuel ms.tail { q with items := rest, queued := q.queued - bytes }
      (item :: items, q)

/-- Discards everything queued that the consumer has not taken yet, and returns it, oldest first. -/
def clear (q : ByteQueue T) : List T × ByteQueue T := drain (q.items.length + 1) q.race q.begun

/-! ### What the consumer has taken or is going to -/

def seen (q : ByteQueue T) : List T := q.taken ++ q.items.map Prod.fst

variable {q : ByteQueue T} {item : T} {bytes : UInt64}

@[simp] theorem seen_move (m : Move) : (q.move m).seen = q.seen := by
  cases m with
  | take =>
    simp only [move, seen]
    split <;> simp_all
  | release =>
    simp only [move, seen]
    split <;> rfl

@[simp] theorem seen_moves : ∀ (ms : List Move) (q : ByteQueue T), (q.moves ms).seen = q.seen
  | [], _ => rfl
  | m :: ms, q => (seen_moves ms (q.move m)).trans (seen_move m)

theorem items_move (m : Move) : (q.move m).items ⊆ q.items := by
  cases m with
  | take =>
    simp only [move]
    split
    · next h => simp [h]
    · exact List.Subset.refl _
  | release =>
    simp only [move]
    split <;> exact List.Subset.refl _

theorem items_moves : ∀ (ms : List Move) (q : ByteQueue T), (q.moves ms).items ⊆ q.items
  | [], _ => List.Subset.refl _
  | m :: ms, q => List.Subset.trans (items_moves ms (q.move m)) (items_move m)

theorem length_items_moves (ms : List Move) (q : ByteQueue T) :
    (q.moves ms).items.length ≤ q.items.length := by
  induction ms generalizing q with
  | nil => exact Nat.le_refl _
  | cons m ms ih =>
    refine Nat.le_trans (ih (q.move m)) ?_
    cases m with
    | take =>
      rw [move]
      split
      · next hitems => exact hitems ▸ Nat.le_succ _
      · exact Nat.le_refl _
    | release =>
      rw [move]
      split <;> exact Nat.le_refl _

@[simp] theorem seen_begun : q.begun.seen = q.seen := rfl

theorem seen_enqueue : (q.enqueue item bytes).seen = q.seen ++ [item] := by
  simp [enqueue, seen]

theorem seen_forcePush : (q.forcePush item bytes).seen = q.seen ++ [item] := by
  have hreserved : ∀ (q : ByteQueue T) n, ({ q with queued := n } : ByteQueue T).seen = q.seen :=
    fun _ _ => rfl
  unfold forcePush
  dsimp only
  rw [seen_enqueue, seen_moves, hreserved, seen_moves, seen_begun]

theorem seen_tryPush : (q.tryPush item bytes).1.seen =
    if (q.tryPush item bytes).2 then q.seen ++ [item] else q.seen := by
  unfold tryPush
  dsimp only
  split
  · simp
  · simp [seen_forcePush]

theorem items_forcePush : ∀ i ∈ (q.forcePush item bytes).items, i ∈ q.items ∨ i = (item, bytes) := by
  intro i hi
  unfold forcePush enqueue at hi
  dsimp only at hi
  rcases List.mem_append.1 hi with hi | hi
  · have hi := items_moves _ _ hi
    exact .inl (items_moves (q.race.headD []) q.begun hi)
  · exact .inr (List.mem_singleton.1 hi)

theorem items_tryPush : ∀ i ∈ (q.tryPush item bytes).1.items, i ∈ q.items ∨ i = (item, bytes) := by
  unfold tryPush
  dsimp only
  split
  · exact fun i hi => .inl (items_moves _ q.begun hi)
  · exact items_forcePush

theorem items_drain : ∀ (fuel : ℕ) (ms : List (List Move)) (q : ByteQueue T),
    (drain fuel ms q).1 ⊆ q.items.map Prod.fst ∧ (drain fuel ms q).2.items ⊆ q.items
  | 0, _, q => ⟨List.nil_subset _, List.Subset.refl _⟩
  | fuel + 1, ms, q => by
    have hmoved := items_moves (ms.headD []) q
    unfold drain
    dsimp only
    split
    · exact ⟨List.nil_subset _, hmoved⟩
    · next item bytes rest hitems =>
      rw [hitems] at hmoved
      obtain ⟨htook, hleft⟩ := items_drain fuel ms.tail { q.moves (ms.headD []) with
        items := rest, queued := (q.moves (ms.headD [])).queued - bytes }
      have hrest : rest ⊆ q.items := List.Subset.trans (List.subset_cons_self ..) hmoved
      refine ⟨List.cons_subset.2 ⟨List.mem_map_of_mem (hmoved List.mem_cons_self), ?_⟩,
        List.Subset.trans hleft hrest⟩
      exact List.Subset.trans htook (List.map_subset _ hrest)

theorem seen_drain (fuel : ℕ) (ms : List (List Move)) (q : ByteQueue T) :
    (drain fuel ms q).2.seen.Sublist q.seen := by
  induction fuel generalizing ms q with
  | zero => exact .refl _
  | succ fuel ih =>
    rw [drain]
    split
    · exact seen_moves _ q ▸ .refl _
    · next item bytes rest hitems =>
      refine (ih _ _).trans ?_
      rw [← seen_moves (ms.headD []) q, seen, seen, hitems]
      exact (List.sublist_cons_self _ _).append_left _

theorem seen_clear : q.clear.2.seen.Sublist q.seen := seen_drain _ _ _

theorem items_clear : q.clear.1 ⊆ q.items.map Prod.fst ∧ q.clear.2.items ⊆ q.items :=
  items_drain _ _ q.begun

end ByteQueue

end Muster.Holder
