import Muster.Terminal.Reading
import Muster.Terminal.Rendering

/-!
# DetachScanner — the detach key in typed input

The scanner holds the bytes since an escape while they could still be the detach key, next to a parser fed
the same bytes.  Along any input the parser is the fresh one run over what is held (`Holding`), and each byte
is forwarded, held, or ends the input at the detach key.  Nothing depends on how the input is cut: a chunk is
taken byte by byte.
-/

namespace Muster.Workspace

open Muster.Log (Bytes)
open Muster.Terminal

def maxPending : ℕ := 32

/-- A key press: its key code and the modifier bits held with it. -/
abbrev KeyPress := ℕ × ℕ

/-! ### What the parser makes of a byte -/

/-- The first parameter of an xterm modifyOtherKeys key report. -/
def modifyOtherKeys : ℕ := 27
def noModifiers : ℕ := 1
def releaseEvent : ℕ := 3
def heldModifiers : ℕ := 0xffff - (64 + 128)

/-- The code and modifier field of a key report, in Kitty's form or xterm's. -/
def keyReport (params : Params) : Char → Option (ℕ × ℕ)
  | 'u' => do
    let code ← (← params.head?).head?
    let modifier := (params.drop 1).headD []
    if modifier[1]? = some releaseEvent then none else some (code, max (modifier.headD 0) noModifiers)
  | '~' =>
    match paramValues params with
    | [first, modifiers, code] => if first = modifyOtherKeys then some (code, modifiers) else none
    | _ => none
  | _ => none

def keyPress (params : Params) (action : Char) : Option KeyPress := do
  let (code, modifiers) ← keyReport params action
  if modifiers = 0 then none else some (code, (modifiers - 1) &&& heldModifiers)

/-- What the parser made of the last byte of a held sequence. -/
structure Parsed where
  /-- Whether the byte completed anything: a sequence, a control or text. -/
  completed : Bool := false
  press : Option KeyPress := none
deriving DecidableEq, Repr

namespace Parsed

def perform (parsed : Parsed) : Call → Parsed
  | .print _ | .execute _ | .hook _ _ _ _ | .escDispatch _ _ _ => { parsed with completed := true }
  | .csiDispatch params intermediates ignore action =>
    ⟨true, if intermediates.isEmpty && !ignore then keyPress params action else parsed.press⟩
  | .put _ | .unhook | .oscDispatch _ _ => parsed

def of (calls : List Call) : Parsed := calls.foldl perform {}

end Parsed

/-! ### The scanner -/

/-- The single key that detaches, of a Control chord. -/
structure DetachKey where
  key : Char
  usable : key.isLower && key ∉ ['m', 'j', 'i', 'h', 'c'] || key ∈ ['\\', ']']
deriving DecidableEq

/-- The byte a terminal without keyboard enhancement sends for the chord. -/
def DetachKey.legacyByte (key : DetachKey) : UInt8 := UInt8.ofNat key.key.toNat &&& 0x1f

/-- The sequence a terminal with keyboard enhancement sends for the chord. -/
def DetachKey.kittySequence (key : DetachKey) : Bytes :=
  csi.intoBytes ++ (Nat.toDigits 10 key.key.toNat ++ [';', '5', 'u']).map fun c => UInt8.ofNat c.toNat

/-- What the held bytes have turned out to be. -/
inductive HeldSequence where
  /-- Still possibly the detach key. -/
  | possible
  | detach
  | other
deriving DecidableEq, Repr

structure DetachScanner (σ : Type) where
  /-- The byte the key sends without keyboard enhancement. -/
  legacy : UInt8
  /-- The key's enhanced press. -/
  kitty : Option KeyPress
  parser : BoundedParser σ
  /-- The start of an escape sequence, held. -/
  pending : Bytes
deriving DecidableEq, Repr

structure ScanResult where
  forward : Bytes
  detached : Bool
deriving DecidableEq, Repr

namespace DetachScanner

variable {σ : Type} (vt : VtParser σ)

def new (key : DetachKey) : DetachScanner σ where
  legacy := key.legacyByte
  kitty := (Parsed.of ((BoundedParser.new vt).advance vt key.kittySequence).2).press
  parser := .new vt
  pending := []

def flush (s : DetachScanner σ) : Bytes × DetachScanner σ :=
  (s.pending, { s with parser := .new vt, pending := [] })

/-- What the held bytes, ending in `byte`, have turned out to be. -/
def classify (s : DetachScanner σ) (byte : UInt8) : DetachScanner σ × HeldSequence :=
  let (parser, calls) := s.parser.advance vt [byte]
  let parsed := Parsed.of calls
  ({ s with parser := parser },
    if parsed.completed then
      if s.kitty.isSome && parsed.press = s.kitty then .detach else .other
    else if s.pending = [esc] ||
      csi.intoBytes.isPrefixOf s.pending && s.pending.length ≤ maxPending then .possible
    else .other)

def takeByte (s : DetachScanner σ) (byte : UInt8) : DetachScanner σ × Bytes × Bool :=
  if byte = s.legacy then
    let (held, s) := s.flush vt
    (s, held, true)
  else if byte ≠ esc ∧ s.pending = [] then (s, [byte], false)
  else
    let (held, s) := if byte = esc then s.flush vt else ([], s)
    let s := { s with pending := s.pending ++ [byte] }
    match s.classify vt byte with
    | (s, .possible) => (s, held, false)
    | (s, .detach) => ((s.flush vt).2, held, true)
    | (s, .other) =>
      let (more, s) := s.flush vt
      (s, held ++ more, false)

/-- The loop of `feed`; with what it leaves of the chunk once it has detached. -/
def feedFrom (forward : Bytes) : DetachScanner σ → Bytes → DetachScanner σ × ScanResult × Bytes
  | s, [] => (s, ⟨forward, false⟩, [])
  | s, byte :: bytes =>
    match s.takeByte vt byte with
    | (s, more, true) => (s, ⟨forward ++ more, true⟩, bytes)
    | (s, more, false) => feedFrom (forward ++ more) s bytes

def feed (s : DetachScanner σ) (bytes : Bytes) : DetachScanner σ × ScanResult :=
  let (s, result, _) := feedFrom vt [] s bytes
  (s, result)

/-- Scans chunk after chunk until the key is pressed: with what is forwarded in all and, once the key was
pressed, the input after it. -/
def scan : DetachScanner σ → List Bytes → DetachScanner σ × Bytes × Option Bytes
  | s, [] => (s, [], none)
  | s, chunk :: chunks =>
    match feedFrom vt [] s chunk with
    | (s, ⟨forward, true⟩, left) => (s, forward, some (left ++ chunks.flatten))
    | (s, ⟨forward, false⟩, _) =>
      let (s, more, rest) := scan s chunks
      (s, forward ++ more, rest)

end DetachScanner

/-! ### The parser next to the held bytes -/

section Parser

variable {σ : Type} {vt : VtParser σ}

theorem Parsed.completed_foldl {parsed : Parsed} (h : parsed.completed = true) (calls : List Call) :
    (calls.foldl perform parsed).completed = true := by
  induction calls generalizing parsed with
  | nil => exact h
  | cons call calls ih =>
    refine ih ?_
    cases call <;> first | rfl | exact h

theorem Parsed.foldl_of_unfinished {parsed : Parsed} {calls : List Call}
    (h : (calls.foldl perform parsed).completed = false) : calls.foldl perform parsed = parsed := by
  induction calls generalizing parsed with
  | nil => rfl
  | cons call calls ih =>
    have hcall : (parsed.perform call).completed = false := by
      by_contra hdone
      rw [List.foldl_cons, completed_foldl (by simpa using hdone)] at h
      cases h
    have hsame : parsed.perform call = parsed := by
      cases call <;> first | rfl | cases hcall
    rw [List.foldl_cons, hsame] at h ⊢
    exact ih h

theorem Parsed.of_append {calls : List Call} (h : (of calls).completed = false) (more : List Call) :
    of (calls ++ more) = of more := by
  rw [of, List.foldl_append, foldl_of_unfinished h]
  rfl

theorem follows_byte {b : BoundedParser σ} {held : Bytes} (h : b.Follows (vt.run vt.init held).1 held.length)
    (hshort : held.length ≤ maxPending) (byte : UInt8) :
    (b.advance vt [byte]).1.Follows (vt.run vt.init (held ++ [byte])).1 (held ++ [byte]).length ∧
      (vt.run vt.init (held ++ [byte])).2 = (vt.run vt.init held).2 ++ (b.advance vt [byte]).2 := by
  have hlimit : maxPending < maxPendingBytes := by decide
  have hstep : vt.quietStep (vt.run vt.init held).1 held.length byte ≤ held.length + 1 := by
    unfold VtParser.quietStep
    split <;> omega
  have hbrisk : vt.Brisk (vt.run vt.init held).1 held.length [byte] :=
    ⟨Nat.le_trans hstep (by omega), trivial⟩
  obtain ⟨⟨hparser, hpending, hdropping⟩, hcalls⟩ := h.advance (by omega) hbrisk
  rw [Transducer.run_append, hcalls]
  refine ⟨⟨hparser, Nat.le_trans hpending ?_, hdropping⟩, rfl⟩
  rw [List.length_append]
  exact hstep

end Parser

/-! ### One byte -/

/-- A control sequence that parses to the key's enhanced press: it starts with an escape, and the parser has
the press at its last byte and nothing before. -/
structure IsPress {σ : Type} (vt : VtParser σ) (kitty : Option KeyPress) (bytes : Bytes) : Prop where
  escape : bytes.head? = some esc
  short : bytes.length ≤ maxPending + 1
  unfinished : (Parsed.of (vt.run vt.init bytes.dropLast).2).completed = false
  press : kitty ≠ none ∧ (Parsed.of (vt.run vt.init bytes).2).press = kitty

namespace DetachScanner

variable {σ : Type} {vt : VtParser σ} {s : DetachScanner σ}

/-- The parser is the fresh one run over the held bytes, which complete nothing yet. -/
structure Holding (vt : VtParser σ) (s : DetachScanner σ) : Prop where
  follows : s.parser.Follows (vt.run vt.init s.pending).1 s.pending.length
  unfinished : (Parsed.of (vt.run vt.init s.pending).2).completed = false
  short : s.pending.length ≤ maxPending
  escape : s.pending = [] ∨ s.pending.head? = some esc

theorem holding_new (vt : VtParser σ) (key : DetachKey) : (new vt key).Holding vt :=
  ⟨⟨rfl, Nat.le_refl 0, rfl⟩, rfl, Nat.zero_le _, .inl rfl⟩

theorem holding_flush : ((s.flush vt).2).Holding vt :=
  ⟨⟨rfl, Nat.le_refl 0, rfl⟩, rfl, Nat.zero_le _, .inl rfl⟩

/-- What the held bytes turn out to be when one more joins them. -/
theorem classify_spec {start : Bytes} {byte : UInt8} (hpending : s.pending = start ++ [byte])
    (hfollows : s.parser.Follows (vt.run vt.init start).1 start.length)
    (hunfinished : (Parsed.of (vt.run vt.init start).2).completed = false)
    (hshort : start.length ≤ maxPending) (hescape : s.pending.head? = some esc) :
    let (s', turned) := s.classify vt byte
    s'.pending = s.pending ∧ s'.legacy = s.legacy ∧ s'.kitty = s.kitty ∧
      (turned = .possible → s'.Holding vt) ∧ (turned = .detach → IsPress vt s.kitty s.pending) := by
  obtain ⟨hfollows', hcalls⟩ := follows_byte hfollows hshort byte
  have hparsed : Parsed.of (vt.run vt.init s.pending).2 = Parsed.of (s.parser.advance vt [byte]).2 := by
    rw [hpending, hcalls, Parsed.of_append hunfinished]
  rw [← hpending] at hfollows'
  rw [classify]
  generalize s.parser.advance vt [byte] = advanced at hfollows' hparsed
  refine ⟨rfl, rfl, rfl, fun hturned => ?_, fun hturned => ?_⟩
  · split at hturned
    · split at hturned <;> cases hturned
    · next hcompleted =>
      split at hturned
      · next hheld =>
        refine ⟨hfollows', ?_, ?_, .inr hescape⟩
        · show (Parsed.of (vt.run vt.init s.pending).2).completed = false
          rw [hparsed]
          exact Bool.eq_false_iff.2 hcompleted
        · show s.pending.length ≤ maxPending
          rw [Bool.or_eq_true, Bool.and_eq_true, decide_eq_true_eq, decide_eq_true_eq] at hheld
          rcases hheld with hheld | hheld
          · rw [hheld]
            decide
          · exact hheld.2
      · cases hturned
  · split at hturned
    · next hcompleted =>
      split at hturned
      · next hpress =>
        rw [Bool.and_eq_true, decide_eq_true_eq] at hpress
        refine ⟨hescape, ?_, ?_, Option.isSome_iff_ne_none.1 hpress.1, ?_⟩
        · rw [hpending, List.length_append]
          exact Nat.add_le_add_right hshort 1
        · rw [hpending, List.dropLast_concat]
          exact hunfinished
        · rw [hparsed]
          exact hpress.2
      · cases hturned
    · split at hturned <;> cases hturned

/-- What one byte does, from a scanner that holds `s.pending`. -/
structure Took (vt : VtParser σ) (s : DetachScanner σ) (byte : UInt8) (s' : DetachScanner σ) (more : Bytes)
    (detached : Bool) : Prop where
  legacy : s'.legacy = s.legacy
  kitty : s'.kitty = s.kitty
  holding : s'.Holding vt
  passed : detached = false → byte ≠ s.legacy ∧ more ++ s'.pending = s.pending ++ [byte]
  pressed : detached = true → ∃ press, s.pending ++ [byte] = more ++ press ∧
    (press = [s.legacy] ∨ IsPress vt s.kitty press)

/-- A byte that joins the held ones, `held` having been given up before it. -/
theorem took_of_held {held : Bytes} {byte : UInt8} {s₁ : DetachScanner σ} (hlegacy : byte ≠ s.legacy)
    (hsplit : s.pending = held ++ s₁.pending) (hsame : s₁.legacy = s.legacy ∧ s₁.kitty = s.kitty)
    (h : s₁.Holding vt) (hescape : (s₁.pending ++ [byte]).head? = some esc) :
    let (s', more, detached) :=
      match ({ s₁ with pending := s₁.pending ++ [byte] } : DetachScanner σ).classify vt byte with
      | (s, .possible) => (s, held, false)
      | (s, .detach) => ((s.flush vt).2, held, true)
      | (s, .other) => ((s.flush vt).2, held ++ (s.flush vt).1, false)
    Took vt s byte s' more detached := by
  have hspec := classify_spec (s := { s₁ with pending := s₁.pending ++ [byte] }) rfl h.follows h.unfinished
    h.short hescape
  have hall : s.pending ++ [byte] = held ++ (s₁.pending ++ [byte]) := by rw [hsplit, List.append_assoc]
  generalize ({ s₁ with pending := s₁.pending ++ [byte] } : DetachScanner σ).classify vt byte =
    result at hspec ⊢
  obtain ⟨s₂, turned⟩ := result
  obtain ⟨hpending, hlegacy', hkitty', hpossible, hdetach⟩ := hspec
  have hl : s₂.legacy = s.legacy := hlegacy'.trans hsame.1
  have hk : s₂.kitty = s.kitty := hkitty'.trans hsame.2
  cases turned with
  | possible =>
    exact ⟨hl, hk, hpossible rfl, fun _ => ⟨hlegacy, by rw [hpending, hall]⟩, fun hd => (nomatch hd)⟩
  | detach =>
    refine ⟨hl, hk, holding_flush, fun hd => (nomatch hd), fun _ => ⟨_, hall, .inr ?_⟩⟩
    rw [← hsame.2]
    exact hdetach rfl
  | other =>
    refine ⟨hl, hk, holding_flush, fun _ => ⟨hlegacy, ?_⟩, fun hd => (nomatch hd)⟩
    show (held ++ s₂.pending) ++ [] = s.pending ++ [byte]
    rw [List.append_nil, hpending, hall]

theorem Holding.takeByte (h : s.Holding vt) (byte : UInt8) :
    Took vt s byte (s.takeByte vt byte).1 (s.takeByte vt byte).2.1 (s.takeByte vt byte).2.2 := by
  unfold DetachScanner.takeByte
  split
  · next hlegacy =>
    refine ⟨rfl, rfl, holding_flush, fun hd => (nomatch hd), fun _ => ⟨[byte], rfl, .inl ?_⟩⟩
    rw [hlegacy]
  · next hlegacy =>
    split
    · next hplain =>
      exact ⟨rfl, rfl, h, fun _ => ⟨hlegacy, by rw [hplain.2]; rfl⟩, fun hd => (nomatch hd)⟩
    · next hplain =>
      by_cases hesc : byte = esc
      · rw [if_pos hesc]
        -- an escape gives up what is held and starts over
        exact took_of_held hlegacy (List.append_nil _).symm ⟨rfl, rfl⟩ holding_flush (by rw [hesc]; rfl)
      · rw [if_neg hesc]
        have hhead : s.pending.head? = some esc :=
          h.escape.resolve_left fun hnil => hplain ⟨hesc, hnil⟩
        exact took_of_held hlegacy rfl ⟨rfl, rfl⟩ h (by rw [List.head?_append, hhead]; rfl)

/-! ### A whole input -/

/-- What a stretch of input came to: forwarded and held, or forwarded up to a press with the rest left. -/
structure Fed (vt : VtParser σ) (s : DetachScanner σ) (bytes : Bytes) (s' : DetachScanner σ)
    (forward : Bytes) (rest : Option Bytes) : Prop where
  legacy : s'.legacy = s.legacy
  kitty : s'.kitty = s.kitty
  holding : s'.Holding vt
  passed : rest = none → s.legacy ∉ bytes ∧ forward ++ s'.pending = s.pending ++ bytes
  pressed : ∀ left, rest = some left → ∃ press, s.pending ++ bytes = forward ++ press ++ left ∧
    (press = [s.legacy] ∨ IsPress vt s.kitty press)

def scanBytes (vt : VtParser σ) : DetachScanner σ → Bytes → DetachScanner σ × Bytes × Option Bytes
  | s, [] => (s, [], none)
  | s, byte :: bytes =>
    match s.takeByte vt byte with
    | (s, more, true) => (s, more, some bytes)
    | (s, more, false) =>
      let (s, forward, rest) := scanBytes vt s bytes
      (s, more ++ forward, rest)

theorem Holding.scanBytes (h : s.Holding vt) (bytes : Bytes) :
    Fed vt s bytes (scanBytes vt s bytes).1 (scanBytes vt s bytes).2.1 (scanBytes vt s bytes).2.2 := by
  induction bytes generalizing s with
  | nil =>
    exact ⟨rfl, rfl, h, fun _ => ⟨List.not_mem_nil, (List.append_nil _).symm⟩, fun _ hnone => (nomatch hnone)⟩
  | cons byte bytes ih =>
    have htook := h.takeByte byte
    rw [DetachScanner.scanBytes]
    generalize s.takeByte vt byte = taken at htook
    obtain ⟨s', more, detached⟩ := taken
    obtain ⟨hlegacy, hkitty, hholding, hpassed, hpressed⟩ := htook
    cases detached with
    | true =>
      refine ⟨hlegacy, hkitty, hholding, fun hnone => (nomatch hnone), fun left hleft => ?_⟩
      obtain ⟨press, hsplit, hpress⟩ := hpressed rfl
      obtain rfl : bytes = left := Option.some.inj hleft
      exact ⟨press, by rw [← hsplit, List.append_assoc, List.singleton_append], hpress⟩
    | false =>
      obtain ⟨hne, hkept⟩ := hpassed rfl
      have hinput : s.pending ++ byte :: bytes = more ++ (s'.pending ++ bytes) := by
        rw [← List.append_assoc, hkept, List.append_assoc, List.singleton_append]
      obtain ⟨hlegacy', hkitty', hholding', hpassed', hpressed'⟩ := ih hholding
      rw [hlegacy] at hlegacy' hpassed' hpressed'
      rw [hkitty] at hkitty' hpressed'
      refine ⟨hlegacy', hkitty', hholding', fun hnone => ?_, fun left hleft => ?_⟩
      · obtain ⟨hmem, hrest⟩ := hpassed' hnone
        refine ⟨fun h => (List.mem_cons.1 h).elim (fun heq => hne heq.symm) hmem, ?_⟩
        rw [hinput, ← hrest, ← List.append_assoc]
      · obtain ⟨press, hsplit, hpress⟩ := hpressed' left hleft
        exact ⟨press, by rw [hinput, hsplit]; simp only [List.append_assoc], hpress⟩

theorem scanBytes_append (s : DetachScanner σ) (xs ys : Bytes) : scanBytes vt s (xs ++ ys) =
    match scanBytes vt s xs with
    | (s, forward, some left) => (s, forward, some (left ++ ys))
    | (s, forward, none) => ((scanBytes vt s ys).1, forward ++ (scanBytes vt s ys).2.1,
        (scanBytes vt s ys).2.2) := by
  induction xs generalizing s with
  | nil => rfl
  | cons byte xs ih =>
    rw [List.cons_append, DetachScanner.scanBytes, DetachScanner.scanBytes]
    obtain ⟨s', more, detached⟩ := s.takeByte vt byte
    cases detached with
    | true => rfl
    | false =>
      dsimp only
      rw [ih]
      obtain ⟨s'', forward, rest⟩ := scanBytes vt s' xs
      cases rest with
      | some left => rfl
      | none => dsimp only; rw [List.append_assoc]

/-- The loop of `feed` takes its chunk as one stretch. -/
theorem feedFrom_eq (forward : Bytes) (s : DetachScanner σ) (bytes : Bytes) : feedFrom vt forward s bytes =
    ((scanBytes vt s bytes).1, ⟨forward ++ (scanBytes vt s bytes).2.1, (scanBytes vt s bytes).2.2.isSome⟩,
      (scanBytes vt s bytes).2.2.getD []) := by
  induction bytes generalizing forward s with
  | nil => simp only [feedFrom, DetachScanner.scanBytes, List.append_nil, Option.isSome_none,
      Option.getD_none]
  | cons byte bytes ih =>
    rw [feedFrom, DetachScanner.scanBytes]
    obtain ⟨s', more, detached⟩ := s.takeByte vt byte
    cases detached with
    | true => rfl
    | false =>
      dsimp only
      rw [ih, List.append_assoc]

theorem scan_eq (s : DetachScanner σ) (chunks : List Bytes) :
    scan vt s chunks = scanBytes vt s chunks.flatten := by
  induction chunks generalizing s with
  | nil => rfl
  | cons chunk chunks ih =>
    rw [scan, feedFrom_eq, List.nil_append, List.flatten_cons, scanBytes_append]
    obtain ⟨s', forward, rest⟩ := scanBytes vt s chunk
    cases rest with
    | some left => rfl
    | none =>
      dsimp only [Option.isSome_none]
      rw [ih]

/-- Along any input, however it is cut: what is not the press is forwarded or held, the press ends the
forwarding, and the legacy byte never passes.  A press is held up to `maxPending` bytes and completed by one
more. -/
theorem scan_passes_everything_else (vt : VtParser σ) (key : DetachKey) (chunks : List Bytes) :
    let (s, forward, rest) := scan vt (new vt key) chunks
    (rest = none → forward ++ s.pending = chunks.flatten ∧ key.legacyByte ∉ chunks.flatten) ∧
      (∀ left, rest = some left → ∃ press, chunks.flatten = forward ++ press ++ left ∧
        (press = [key.legacyByte] ∨ IsPress vt (new vt key).kitty press)) ∧
      ∀ others : List Bytes, others.flatten = chunks.flatten →
        scan vt (new vt key) others = (s, forward, rest) := by
  have hfed := (holding_new vt key).scanBytes chunks.flatten
  rw [← scan_eq] at hfed
  refine ⟨fun hnone => ?_, hfed.pressed, fun others hothers => ?_⟩
  · obtain ⟨hmem, hsame⟩ := hfed.passed hnone
    exact ⟨hsame, hmem⟩
  · rw [scan_eq, hothers, ← scan_eq]

def backslash : DetachKey := ⟨'\\', by decide⟩

/-- A press of `backslash` with zeros before its code. -/
def paddedPress (zeros : ℕ) : Bytes :=
  csi.intoBytes ++ List.replicate zeros 0x30 ++ [0x39, 0x32, 0x3b, 0x35, 0x75]

/-- A press of thirty-three bytes detaches: the byte that completes a held sequence is not counted. -/
theorem detaches_at_longer_press :
    ¬ ∀ (chunks : List Bytes) (s : DetachScanner Reading) (forward left : Bytes),
    scan byteReading (new byteReading backslash) chunks = (s, forward, some left) →
      ∃ press, chunks.flatten = forward ++ press ++ left ∧ (press = [backslash.legacyByte] ∨
        press.length ≤ maxPending ∧ IsPress byteReading (new byteReading backslash).kitty press) := by
  intro h
  have hscan : (scan byteReading (new byteReading backslash) [paddedPress 26]).2 = ([], some []) := by
    decide +kernel
  obtain ⟨⟨s, result⟩, hresult⟩ :
      ∃ r, scan byteReading (new byteReading backslash) [paddedPress 26] = r := ⟨_, rfl⟩
  rw [hresult] at hscan
  obtain rfl : result = ([], some []) := hscan
  obtain ⟨press, hsplit, hpress⟩ := h [paddedPress 26] s [] [] hresult
  have hlong : press.length = 33 := by
    rw [List.nil_append, List.append_nil] at hsplit
    rw [← hsplit]
    rfl
  rcases hpress with rfl | ⟨hshort, -⟩
  · cases hlong
  · rw [hlong] at hshort
    exact absurd hshort (by decide)

end DetachScanner

end Muster.Workspace
