import Mathlib.Algebra.BigOperators.Group.List.Basic
import Mathlib.Algebra.GroupWithZero.Nat
import Muster.Holder.ByteQueue
import Muster.Lib.Machine

/-!
# QueueSteps — the byte queue, one atomic step at a time

The producer's operations and the consumer's iteration are cut at every atomic step: the load, the additions
and subtractions of the counter, and the sends and receives of the channel, which is a queue of its own.  The
counter is changed before the send and after the receive, so it stands for the channel and what is in a hand
(`outstanding`), modulo the width of a word.  The operations of `ByteQueue`, which the server's model uses,
are runs of these steps (`Shown`).
-/

namespace Muster.Holder.QueueSteps

inductive Side where
  | consumer | clear
deriving DecidableEq, Repr

variable {T : Type}

/-- Where the producer stands in its operation. -/
inductive Producer (T : Type) where
  | idle
  /-- A `try_push` that read the counter and found room; with what the channel held then. -/
  | admitted (item : T) (bytes read : UInt64) (found : List (T × UInt64))
  /-- A push that has added its bytes and not sent; with what the channel held when it was admitted. -/
  | reserved (item : T) (bytes : UInt64) (found : Option (List (T × UInt64)))
  /-- A `clear` between two items, with what it has so far. -/
  | clearing (got : List T)
  /-- A `clear` that received an item and has not subtracted its bytes. -/
  | discarding (got : List T) (item : T) (bytes : UInt64)
deriving DecidableEq, Repr

structure State (T : Type) where
  channel : List (T × UInt64)
  queued : UInt64
  producer : Producer T
  /-- What the consumer received and has not subtracted. -/
  hand : Option (T × UInt64)
  pushed : List T
  received : List (Side × T)
  taken : List T
  returned : List T
deriving DecidableEq, Repr

def State.new : State T := ⟨[], 0, .idle, none, [], [], [], []⟩

/-- The atomic steps: those that begin an operation, and the next one of the operation under way. -/
inductive Event (T : Type) where
  | tryPush (item : T) (bytes : UInt64)
  | forcePush (item : T) (bytes : UInt64)
  | reserve
  | send
  | clear
  | tryRecv
  | discard
  | recv
  | yield
deriving DecidableEq, Repr

/-- One atomic step; a step of an operation that is not under way does nothing. -/
def next (cap : UInt64) (s : State T) : Event T → State T
  | .tryPush item bytes =>
    match s.producer with
    | .idle =>
      if s.queued ≠ 0 ∧ cap.toNat < saturatingAdd s.queued bytes then s
      else { s with producer := .admitted item bytes s.queued s.channel }
    | _ => s
  | .forcePush item bytes =>
    match s.producer with
    | .idle => { s with queued := s.queued + bytes, producer := .reserved item bytes none }
    | _ => s
  | .reserve =>
    match s.producer with
    | .admitted item bytes _ found =>
      { s with queued := s.queued + bytes, producer := .reserved item bytes (some found) }
    | _ => s
  | .send =>
    match s.producer with
    -- the queue keeps a receiver of its own, so a send never fails
    | .reserved item bytes _ =>
      { s with channel := s.channel ++ [(item, bytes)], pushed := s.pushed ++ [item], producer := .idle }
    | _ => s
  | .clear =>
    match s.producer with
    | .idle => { s with producer := .clearing [] }
    | _ => s
  | .tryRecv =>
    match s.producer, s.channel with
    | .clearing got, [] => { s with producer := .idle, returned := s.returned ++ got }
    | .clearing got, (item, bytes) :: rest =>
      { s with
        channel := rest, received := s.received ++ [(.clear, item)], producer := .discarding got item bytes }
    | _, _ => s
  | .discard =>
    match s.producer with
    | .discarding got item bytes =>
      { s with queued := s.queued - bytes, producer := .clearing (got ++ [item]) }
    | _ => s
  | .recv =>
    match s.hand, s.channel with
    | none, (item, bytes) :: rest =>
      { s with channel := rest, received := s.received ++ [(.consumer, item)], hand := some (item, bytes) }
    | _, _ => s
  | .yield =>
    match s.hand with
    | some (item, bytes) => { s with queued := s.queued - bytes, hand := none, taken := s.taken ++ [item] }
    | none => s

def machine (cap : UInt64) : Machine (State T) (Event T) where
  Enabled _ _ := True
  next := next cap

instance (cap : UInt64) (s : State T) (e : Event T) : Decidable ((machine cap).Enabled s e) :=
  inferInstanceAs (Decidable True)

/-! ### What the counter stands for -/

def weigh (items : List (T × UInt64)) : ℕ := (items.map (·.2.toNat)).sum

/-- Bytes the producer's operation has added and not sent, or received and not subtracted. -/
def Producer.holding : Producer T → ℕ
  | .reserved _ bytes _ => bytes.toNat
  | .discarding _ _ bytes => bytes.toNat
  | _ => 0

def Producer.got : Producer T → List T
  | .clearing got => got
  | .discarding got item _ => got ++ [item]
  | _ => []

namespace State

def outstanding (s : State T) : ℕ :=
  weigh s.channel + s.producer.holding + (s.hand.map (·.2.toNat)).getD 0

def Quiet (s : State T) : Prop := s.producer = .idle ∧ s.hand = none

def receivedBy (s : State T) (side : Side) : List T := (s.received.filter (·.1 = side)).map Prod.snd

/-- Every item pushed was received, by one side, or is queued; each side has its items in push order. -/
structure Ledger (s : State T) : Prop where
  pushed : s.pushed = s.received.map Prod.snd ++ s.channel.map Prod.fst
  taken : s.taken ++ s.hand.toList.map Prod.fst = s.receivedBy .consumer
  returned : s.returned ++ s.producer.got = s.receivedBy .clear

end State

/-- What a step can do. -/
inductive Stepped (cap : UInt64) (s : State T) : State T → Prop where
  | stutter : Stepped cap s s
  | fits (item : T) (bytes : UInt64) (hidle : s.producer = .idle)
      (hroom : s.queued = 0 ∨ saturatingAdd s.queued bytes ≤ cap.toNat) :
      Stepped cap s { s with producer := .admitted item bytes s.queued s.channel }
  | force (item : T) (bytes : UInt64) (hidle : s.producer = .idle) :
      Stepped cap s { s with queued := s.queued + bytes, producer := .reserved item bytes none }
  | reserve {item : T} {bytes read : UInt64} {found : List (T × UInt64)}
      (h : s.producer = .admitted item bytes read found) :
      Stepped cap s { s with queued := s.queued + bytes, producer := .reserved item bytes (some found) }
  | send {item : T} {bytes : UInt64} {found : Option (List (T × UInt64))}
      (h : s.producer = .reserved item bytes found) :
      Stepped cap s { s with
        channel := s.channel ++ [(item, bytes)], pushed := s.pushed ++ [item], producer := .idle }
  | clear (hidle : s.producer = .idle) : Stepped cap s { s with producer := .clearing [] }
  | cleared {got : List T} (h : s.producer = .clearing got) (hchannel : s.channel = []) :
      Stepped cap s { s with producer := .idle, returned := s.returned ++ got }
  | tryRecv {got : List T} {item : T} {bytes : UInt64} {rest : List (T × UInt64)}
      (h : s.producer = .clearing got) (hchannel : s.channel = (item, bytes) :: rest) :
      Stepped cap s { s with
        channel := rest, received := s.received ++ [(.clear, item)], producer := .discarding got item bytes }
  | discard {got : List T} {item : T} {bytes : UInt64} (h : s.producer = .discarding got item bytes) :
      Stepped cap s { s with queued := s.queued - bytes, producer := .clearing (got ++ [item]) }
  | recv {item : T} {bytes : UInt64} {rest : List (T × UInt64)} (hhand : s.hand = none)
      (hchannel : s.channel = (item, bytes) :: rest) :
      Stepped cap s { s with
        channel := rest, received := s.received ++ [(.consumer, item)], hand := some (item, bytes) }
  | yield {item : T} {bytes : UInt64} (hhand : s.hand = some (item, bytes)) :
      Stepped cap s { s with queued := s.queued - bytes, hand := none, taken := s.taken ++ [item] }

theorem stepped (cap : UInt64) (s : State T) (e : Event T) : Stepped cap s (next cap s e) := by
  cases e with
  | tryPush item bytes =>
    rw [next]
    split
    · next hidle =>
      split
      · exact .stutter
      · next hroom =>
        refine .fits item bytes hidle ?_
        rw [not_and_or, not_not, Nat.not_lt] at hroom
        exact hroom
    · exact .stutter
  | forcePush item bytes =>
    rw [next]
    split
    · next hidle => exact .force item bytes hidle
    · exact .stutter
  | reserve =>
    rw [next]
    split
    · next h => exact .reserve h
    · exact .stutter
  | send =>
    rw [next]
    split
    · next h => exact .send h
    · exact .stutter
  | clear =>
    rw [next]
    split
    · next hidle => exact .clear hidle
    · exact .stutter
  | tryRecv =>
    rw [next]
    split
    · next h hchannel => exact .cleared h hchannel
    · next h hchannel => exact .tryRecv h hchannel
    · exact .stutter
  | discard =>
    rw [next]
    split
    · next h => exact .discard h
    · exact .stutter
  | recv =>
    rw [next]
    split
    · next hhand hchannel => exact .recv hhand hchannel
    · exact .stutter
  | yield =>
    rw [next]
    split
    · next hhand => exact .yield hhand
    · exact .stutter

/-! ### Every item once, in order -/

variable {cap : UInt64} {s t : State T}

theorem State.receivedBy_concat (s : State T) (side : Side) (item : T) (side' : Side) :
    { s with received := s.received ++ [(side, item)] }.receivedBy side' =
      s.receivedBy side' ++ if side = side' then [item] else [] := by
  rw [receivedBy, receivedBy, List.filter_append, List.map_append]
  by_cases h : side = side'
  · simp [h]
  · simp [h]

theorem Stepped.ledger (h : Stepped cap s t) (hs : s.Ledger) : t.Ledger := by
  obtain ⟨hpushed, htaken, hreturned⟩ := hs
  cases h with
  | stutter => exact ⟨hpushed, htaken, hreturned⟩
  | fits _ _ hidle _ | force _ _ hidle | clear hidle =>
    rw [hidle] at hreturned
    exact ⟨hpushed, htaken, hreturned⟩
  | reserve h =>
    rw [h] at hreturned
    exact ⟨hpushed, htaken, hreturned⟩
  | send h =>
    rw [h] at hreturned
    refine ⟨?_, htaken, hreturned⟩
    show s.pushed ++ _ = _
    rw [hpushed, List.map_append, List.append_assoc]
    rfl
  | cleared h hchannel =>
    rw [h] at hreturned
    exact ⟨hpushed, htaken, (List.append_nil _).trans hreturned⟩
  | @tryRecv got item bytes rest h hchannel =>
    rw [h] at hreturned
    refine ⟨?_, ?_, ?_⟩
    · show s.pushed = _
      rw [hpushed, hchannel, List.map_append, List.append_assoc]
      rfl
    · rw [htaken]
      exact ((State.receivedBy_concat s .clear item .consumer).trans (List.append_nil _)).symm
    · refine Eq.trans ?_ (State.receivedBy_concat s .clear item .clear).symm
      rw [← hreturned, List.append_assoc]
      rfl
  | discard h =>
    rw [h] at hreturned
    exact ⟨hpushed, htaken, hreturned⟩
  | @recv item bytes rest hhand hchannel =>
    rw [hhand, Option.toList_none, List.map_nil, List.append_nil] at htaken
    refine ⟨?_, ?_, ?_⟩
    · show s.pushed = _
      rw [hpushed, hchannel, List.map_append, List.append_assoc]
      rfl
    · refine Eq.trans ?_ (State.receivedBy_concat s .consumer item .consumer).symm
      rw [← htaken]
      rfl
    · rw [hreturned]
      exact ((State.receivedBy_concat s .consumer item .clear).trans (List.append_nil _)).symm
  | yield hhand =>
    rw [hhand] at htaken
    exact ⟨hpushed, (List.append_nil _).trans htaken, hreturned⟩

/-! ### The counter -/

/-- The counter is the weight of what is queued or in a hand, modulo a word. -/
def State.Counted (s : State T) : Prop := s.queued.toNat = s.outstanding % wordSize

theorem toNat_add_mod (a b : UInt64) {n : ℕ} (h : a.toNat = n % wordSize) :
    (a + b).toNat = (n + b.toNat) % wordSize := by
  rw [UInt64.toNat_add, h]
  unfold wordSize
  omega

theorem toNat_sub_mod (a b : UInt64) {n : ℕ} (h : a.toNat = (n + b.toNat) % wordSize) :
    (a - b).toNat = n % wordSize := by
  have hb := b.toNat_lt
  rw [UInt64.toNat_sub, h]
  unfold wordSize
  omega

theorem weigh_append (items more : List (T × UInt64)) : weigh (items ++ more) = weigh items + weigh more := by
  rw [weigh, List.map_append, List.sum_append]
  rfl

theorem weigh_cons (item : T) (bytes : UInt64) (rest : List (T × UInt64)) :
    weigh ((item, bytes) :: rest) = bytes.toNat + weigh rest := List.sum_cons

theorem State.Counted.of_eq (hs : s.Counted) (hqueued : t.queued = s.queued)
    (houtstanding : t.outstanding = s.outstanding) : t.Counted := by
  rw [Counted, hqueued, houtstanding]
  exact hs

theorem Stepped.counted (h : Stepped cap s t) (hs : s.Counted) : t.Counted := by
  cases h with
  | stutter => exact hs
  | fits _ _ hidle _ | clear hidle =>
    refine hs.of_eq rfl ?_
    rw [State.outstanding, State.outstanding, hidle]
    rfl
  | force item bytes hidle =>
    refine (toNat_add_mod _ bytes hs).trans (congrArg (· % wordSize) ?_)
    simp only [State.outstanding, hidle, Producer.holding]
    omega
  | reserve h =>
    refine (toNat_add_mod _ _ hs).trans (congrArg (· % wordSize) ?_)
    simp only [State.outstanding, h, Producer.holding]
    omega
  | send h =>
    refine hs.of_eq rfl ?_
    simp only [State.outstanding, h, Producer.holding, weigh_append, weigh_cons]
    rfl
  | cleared h hchannel =>
    refine hs.of_eq rfl ?_
    rw [State.outstanding, State.outstanding, h]
    rfl
  | tryRecv h hchannel =>
    refine hs.of_eq rfl ?_
    simp only [State.outstanding, h, hchannel, Producer.holding, weigh_cons]
    omega
  | discard h =>
    refine toNat_sub_mod _ _ (hs.trans (congrArg (· % wordSize) ?_))
    simp only [State.outstanding, h, Producer.holding]
    omega
  | recv hhand hchannel =>
    refine hs.of_eq rfl ?_
    simp only [State.outstanding, hhand, hchannel, weigh_cons, Option.map_some, Option.getD_some,
      Option.map_none, Option.getD_none]
    omega
  | yield hhand =>
    refine toNat_sub_mod _ _ (hs.trans (congrArg (· % wordSize) ?_))
    simp only [State.outstanding, hhand, Option.map_some, Option.getD_some, Option.map_none, Option.getD_none]
    omega

/-! ### While the weights fit in a word -/

/-- After the step the weights queued or in a hand add up to less than a word holds. -/
def Fits (cap : UInt64) (s : State T) (e : Event T) : Prop := (next cap s e).outstanding < wordSize

instance (cap : UInt64) (s : State T) (e : Event T) : Decidable (Fits cap s e) :=
  inferInstanceAs (Decidable (_ < _))

/-- The counter is exact, and a push that was admitted found nothing that weighs anything, or keeps the
counter within the cap. -/
structure State.Accounted (cap : UInt64) (s : State T) : Prop where
  counted : s.queued.toNat = s.outstanding
  admitted : ∀ item bytes read found, s.producer = .admitted item bytes read found →
    s.queued.toNat ≤ read.toNat ∧ weigh found ≤ read.toNat ∧
      (read = 0 ∨ saturatingAdd read bytes ≤ cap.toNat)
  reserved : ∀ item bytes found, s.producer = .reserved item bytes (some found) →
    weigh found = 0 ∨ s.queued.toNat ≤ cap.toNat

theorem Stepped.accounted (h : Stepped cap s t) (hs : s.Accounted cap) (hfits : t.outstanding < wordSize) :
    t.Accounted cap := by
  have hsfits : s.outstanding < wordSize := hs.counted ▸ s.queued.toNat_lt
  have hcounted : t.queued.toNat = t.outstanding := by
    have := h.counted (show s.Counted by rw [State.Counted, Nat.mod_eq_of_lt hsfits, hs.counted])
    rwa [State.Counted, Nat.mod_eq_of_lt hfits] at this
  cases h with
  | stutter => exact hs
  | fits item bytes hidle hroom =>
    refine ⟨hcounted, ?_, nofun⟩
    rintro _ _ _ _ ⟨⟩
    refine ⟨Nat.le_refl _, ?_, hroom⟩
    rw [hs.counted, State.outstanding]
    omega
  | force _ _ hidle => exact ⟨hcounted, nofun, nofun⟩
  | @reserve item bytes read found h =>
    obtain ⟨hread, hfound, hroom⟩ := hs.admitted _ _ _ _ h
    refine ⟨hcounted, nofun, ?_⟩
    rintro _ _ _ ⟨⟩
    rcases hroom with rfl | hroom
    · exact .inl (Nat.le_zero.1 hfound)
    -- only the consumer moved since the counter was read, and it only subtracts
    · refine .inr ?_
      have hadd : (s.queued + bytes).toNat ≤ saturatingAdd read bytes := by
        have hword := (s.queued + bytes).toNat_lt
        rw [UInt64.toNat_add] at hword ⊢
        unfold saturatingAdd wordSize
        omega
      exact Nat.le_trans hadd hroom
  | send h | clear hidle | cleared h hchannel | tryRecv h hchannel | discard h =>
    exact ⟨hcounted, nofun, nofun⟩
  | recv hhand hchannel => exact ⟨hcounted, hs.admitted, hs.reserved⟩
  | @yield item bytes hhand =>
    have hle : (s.queued - bytes).toNat ≤ s.queued.toNat := by
      refine hcounted.trans_le ?_
      rw [hs.counted, State.outstanding, State.outstanding, hhand]
      exact Nat.add_le_add_left (Nat.zero_le _) _
    refine ⟨hcounted, fun item' bytes' read found h => ?_, fun item' bytes' found h => ?_⟩
    · obtain ⟨hread, hrest⟩ := hs.admitted item' bytes' read found h
      exact ⟨Nat.le_trans hle hread, hrest⟩
    · exact (hs.reserved item' bytes' found h).imp_right (Nat.le_trans hle)

theorem State.accounted_new : (State.new : State T).Accounted cap := ⟨rfl, nofun, nofun⟩

theorem eq_zero_of_weigh {items : List (T × UInt64)} (h : weigh items = 0) : ∀ x ∈ items, x.2 = 0 := by
  intro x hx
  have hzero : x.2.toNat = 0 := List.sum_eq_zero_iff_forall_eq_nat.1 h _ (List.mem_map_of_mem hx)
  exact UInt64.toNat_inj.1 hzero

/-- However the steps of the producer and the consumer interleave, every item pushed is received once, by the
consumer or by `clear`, or is still queued, and each side has its items in push order.  While the weights
queued or in a hand fit in a word the counter is at least the weight of the channel, equals it when no
operation is in progress, is never taken below zero, and right after a successful `try_push` is within the
cap, unless nothing queued when it read the counter weighed anything. -/
theorem queue_accounts_for_every_item :
    (∀ s : State T, (machine cap).Reaches .new s → s.Ledger) ∧
    ∀ s : State T, ((machine cap).restrict (Fits cap)).Reaches .new s →
      weigh s.channel ≤ s.queued.toNat ∧
      (s.Quiet → s.queued.toNat = weigh s.channel) ∧
      (∀ item bytes, s.hand = some (item, bytes) → bytes ≤ s.queued) ∧
      (∀ got item bytes, s.producer = .discarding got item bytes → bytes ≤ s.queued) ∧
      ∀ item bytes found, s.producer = .reserved item bytes (some found) →
        (∀ x ∈ found, x.2 = 0) ∨ (next cap s .send).queued ≤ cap := by
  refine ⟨fun s hs => hs.invariant (fun a e ha _ => (stepped cap a e).ledger ha) ⟨rfl, rfl, rfl⟩,
    fun s hs => ?_⟩
  have hacc : s.Accounted cap :=
    hs.invariant_restrict (fun a e ha _ hfits => (stepped cap a e).accounted ha hfits) State.accounted_new
  have hcounted := hacc.counted
  refine ⟨?_, fun ⟨hidle, hhand⟩ => ?_, fun item bytes hhand => ?_, fun got item bytes h => ?_,
    fun item bytes found h => ?_⟩
  · rw [hcounted, State.outstanding]
    omega
  · rw [hcounted, State.outstanding, hidle, hhand]
    rfl
  · rw [UInt64.le_iff_toNat_le, hcounted, State.outstanding, hhand]
    exact Nat.le_add_left ..
  · rw [UInt64.le_iff_toNat_le, hcounted, State.outstanding, h, Producer.holding]
    omega
  · refine (hacc.reserved item bytes found h).imp eq_zero_of_weigh fun hle => ?_
    rw [next, h]
    exact UInt64.le_iff_toNat_le.2 hle

/-- Two ways past it: an item that weighs nothing is queued, and a larger one than the cap is pushed after
it; and two weights whose sum is more than a word holds. -/
theorem queue_counts_bytes_in_a_word :
    let crowded := (machine 10).play (State.new : State Char)
      [.tryPush 'a' 0, .reserve, .send, .tryPush 'b' 11, .reserve]
    let wrapped := (machine 10).play (State.new : State Char)
      [.forcePush 'a' (0 - 1), .send, .forcePush 'b' 1, .send]
    (crowded.producer = .reserved 'b' 11 (some [('a', 0)]) ∧ 10 < (next 10 crowded .send).queued) ∧
      wrapped.Quiet ∧ wrapped.queued = 0 ∧ weigh wrapped.channel = wordSize := by
  refine ⟨⟨rfl, by decide⟩, ⟨rfl, rfl⟩, by decide, by decide⟩

/-- The consumer takes the first of two items, `clear` the second. -/
theorem queue_accounts_for_every_item_of_two :
    let s := (machine 10).play (State.new : State Char)
      [.tryPush 'a' 4, .reserve, .send, .recv, .tryPush 'b' 6, .reserve, .yield, .send, .clear,
        .tryRecv, .discard, .tryRecv]
    s.Ledger ∧ s.taken = ['a'] ∧ s.returned = ['b'] ∧ s.queued.toNat = weigh s.channel := by
  intro s
  have hplays : ((machine 10).restrict (Fits 10)).Plays (State.new : State Char)
      [.tryPush 'a' 4, .reserve, .send, .recv, .tryPush 'b' 6, .reserve, .yield, .send, .clear,
        .tryRecv, .discard, .tryRecv] := by
    decide
  have hreached := Machine.reaches_play_restrict hplays
  exact ⟨queue_accounts_for_every_item.1 s hreached.of_restrict, rfl, rfl,
    (queue_accounts_for_every_item.2 s hreached).2.1 ⟨rfl, rfl⟩⟩

/-! ### The queue of the server's model -/

def State.view (cap : UInt64) (races : List (List (List Move))) (s : State T) : ByteQueue T where
  items := s.channel
  queued := s.queued
  cap
  hand := s.hand.map Prod.snd
  taken := s.taken ++ s.hand.toList.map Prod.fst
  races

/-- Some run from `s₀` ends where the producer stands at `producer`, `clear` has returned `returned` and the
queue is `q`. -/
def Shown (cap : UInt64) (s₀ : State T) (producer : Producer T) (returned : List T)
    (q : ByteQueue T) : Prop :=
  ∃ s, (machine cap).Reaches s₀ s ∧ s.producer = producer ∧ s.returned = returned ∧ s.view cap q.races = q

variable {s₀ : State T} {producer : Producer T} {returned : List T} {q : ByteQueue T} {item : T}
  {bytes : UInt64}

theorem Shown.move (h : Shown cap s₀ producer returned q) (m : Move) :
    Shown cap s₀ producer returned (q.move m) := by
  obtain ⟨s, hr, hproducer, hreturned, hview⟩ := h
  obtain ⟨items, queued, _, hand, taken, races⟩ := q
  cases hview
  cases m with
  | take =>
    refine ⟨next cap s .recv, hr.next (e := .recv) trivial, ?_⟩
    cases hhand : s.hand <;> cases hchannel : s.channel <;>
      simp [next, State.view, ByteQueue.move, hhand, hchannel, hproducer, hreturned]
  | release =>
    refine ⟨next cap s .yield, hr.next (e := .yield) trivial, ?_⟩
    cases hhand : s.hand <;> simp [next, State.view, ByteQueue.move, hhand, hproducer, hreturned]

theorem Shown.moves (h : Shown cap s₀ producer returned q) (ms : List Move) :
    Shown cap s₀ producer returned (q.moves ms) := by
  induction ms generalizing q with
  | nil => exact h
  | cons m ms ih => exact ih (h.move m)

theorem Shown.begun (h : Shown cap s₀ producer returned q) : Shown cap s₀ producer returned q.begun := by
  obtain ⟨s, hr, hproducer, hreturned, hview⟩ := h
  obtain ⟨items, queued, _, hand, taken, races⟩ := q
  cases hview
  exact ⟨s, hr, hproducer, hreturned, rfl⟩

theorem Shown.send {found : Option (List (T × UInt64))}
    (h : Shown cap s₀ (.reserved item bytes found) returned q) (ms : List Move) :
    Shown cap s₀ .idle returned ((q.moves ms).enqueue item bytes) := by
  obtain ⟨s, hr, hproducer, hreturned, hview⟩ := h.moves ms
  refine ⟨next cap s .send, hr.next (e := .send) trivial, ?_⟩
  rw [← hview]
  simp [next, State.view, ByteQueue.enqueue, hproducer, hreturned]

theorem Shown.forcePush (h : Shown cap s₀ .idle returned q) :
    Shown cap s₀ .idle returned (q.forcePush item bytes) := by
  obtain ⟨s, hr, hproducer, hreturned, hview⟩ := h.begun.moves (q.race.headD [])
  have hreserved : Shown cap s₀ (.reserved item bytes none) returned
      { q.begun.moves (q.race.headD []) with
        queued := (q.begun.moves (q.race.headD [])).queued + bytes } := by
    refine ⟨next cap s (.forcePush item bytes), hr.next (e := .forcePush item bytes) trivial, ?_⟩
    rw [← hview]
    simp [next, State.view, hproducer, hreturned]
  exact hreserved.send _

theorem Shown.tryPush (h : Shown cap s₀ .idle returned q) :
    Shown cap s₀ .idle returned (q.tryPush item bytes).1 := by
  have hcap : q.cap = cap := by
    obtain ⟨s, -, -, -, hview⟩ := h
    rw [← hview]
    rfl
  obtain ⟨s, hr, hproducer, hreturned, hview⟩ := h.begun.moves (q.race.headD [])
  have hqueued : (q.begun.moves (q.race.headD [])).queued = s.queued := by rw [← hview]; rfl
  unfold ByteQueue.tryPush
  dsimp only
  rw [hqueued, hcap]
  split
  · exact ⟨s, hr, hproducer, hreturned, hview⟩
  next hroom =>
    have hreserved : Shown cap s₀ (.reserved item bytes (some s.channel)) returned
        { q.begun.moves (q.race.headD []) with
          queued := (q.begun.moves (q.race.headD [])).queued + bytes } := by
      refine ⟨next cap (next cap s (.tryPush item bytes)) .reserve,
        (hr.next (e := .tryPush item bytes) trivial).next (e := .reserve) trivial, ?_⟩
      rw [← hview]
      simp [next, State.view, hproducer, hreturned, if_neg hroom]
    exact hreserved.send _

theorem Shown.drain (ms : List (List Move)) {got : List T} (fuel : ℕ) (hfuel : q.items.length < fuel)
    (h : Shown cap s₀ (.clearing got) returned q) :
    Shown cap s₀ .idle (returned ++ (got ++ (ByteQueue.drain fuel ms q).1))
      (ByteQueue.drain fuel ms q).2 := by
  induction fuel generalizing ms got q with
  | zero => exact absurd hfuel (Nat.not_lt_zero _)
  | succ fuel ih =>
    obtain ⟨s, hr, hproducer, hreturned, hview⟩ := h.moves (ms.headD [])
    have hr := hr.next (e := .tryRecv) trivial
    have hmoved := ByteQueue.length_items_moves (ms.headD []) q
    unfold ByteQueue.drain
    dsimp only
    split
    next hitems =>
      refine ⟨_, hr, ?_⟩
      have hchannel : s.channel = [] := by rw [← hitems, ← hview]; rfl
      rw [← hview]
      simp [machine, next, State.view, hproducer, hreturned, hchannel]
    next item bytes rest hitems =>
      have hchannel : s.channel = (item, bytes) :: rest := by rw [← hitems, ← hview]; rfl
      rw [hitems, List.length_cons] at hmoved
      have hdrained : Shown cap s₀ (.clearing (got ++ [item])) returned { q.moves (ms.headD []) with
          items := rest, queued := (q.moves (ms.headD [])).queued - bytes } := by
        refine ⟨_, hr.next (e := .discard) trivial, ?_⟩
        rw [← hview]
        simp [machine, next, State.view, hproducer, hreturned, hchannel]
      have hrest := ih ms.tail (Nat.lt_of_succ_lt_succ (Nat.lt_of_le_of_lt hmoved hfuel)) hdrained
      rwa [List.append_assoc] at hrest

theorem Shown.clear (h : Shown cap s₀ .idle returned q) :
    Shown cap s₀ .idle (returned ++ q.clear.1) q.clear.2 := by
  obtain ⟨s, hr, hproducer, hreturned, hview⟩ := h.begun
  have hcleared : Shown cap s₀ (.clearing []) returned q.begun := by
    refine ⟨next cap s .clear, hr.next (e := .clear) trivial, ?_⟩
    rw [← hview]
    simp [next, State.view, hproducer, hreturned]
  exact hcleared.drain q.race _ (Nat.lt_succ_self _)

end Muster.Holder.QueueSteps
