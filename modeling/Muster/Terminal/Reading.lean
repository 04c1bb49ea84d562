import Muster.Terminal.Renderer
import Muster.Terminal.Repaint

/-!
# Reading — control sequences as they are written, and a parser that reads them

What is written back to a terminal are control sequences with at most a private marker, parameters and a
final character.  The VT parser is not part of the program; `ReadsCsi` is what is assumed of it.  `reading`
is a parser of which it holds: it prints, executes, and collects a control sequence with a limit on its
parameters, and knows no intermediate bytes and no string sequences, since none are written here.
-/

namespace Muster.Terminal

open Text

def maxParams : ℕ := 32
def maxParam : ℕ := 65535

/-! ### Parameters as they are written -/

def groupText : List ℕ → Text
  | [] => []
  | value :: values => decimal value ++ values.flatMap fun value => ':' :: decimal value

def paramsText (params : Params) : Text := joined (params.map groupText)

/-- What can be written so that it is read back: each parameter has a value, none is too large and
there are not too many. -/
structure Readable (params : Params) : Prop where
  some : params ≠ []
  values : ∀ group ∈ params, group ≠ [] ∧ ∀ value ∈ group, value ≤ maxParam
  few : (params.map List.length).sum ≤ maxParams

def IsFinal (action : Char) : Prop := 0x40 ≤ action.toNat ∧ action.toNat ≤ 0x7e

instance (action : Char) : Decidable (IsFinal action) := inferInstanceAs (Decidable (_ ∧ _))

def markers : List Char := ['<', '=', '>', '?']

def sequenceText (marker : Option Char) (params : Params) (action : Char) : Text :=
  csi ++ marker.toList ++ paramsText params ++ [action]

def sequenceCall (marker : Option Char) (params : Params) (action : Char) : Call :=
  .csiDispatch params (marker.map fun c => UInt8.ofNat c.toNat).toList false action

/-- What is assumed of the VT parser: a control sequence of readable parameters, from the parser's start on,
makes one call, with these parameters, and leaves the parser where it started; one without parameters has a
single zero. -/
structure VtParser.ReadsCsi {σ : Type} (vt : VtParser σ) : Prop where
  params : ∀ (marker : Option Char) (params : Params) (action : Char), (∀ c ∈ marker, c ∈ markers) →
    Readable params → IsFinal action → vt.run vt.init (sequenceText marker params action).intoBytes =
      (vt.init, [sequenceCall marker params action])
  bare : ∀ action, IsFinal action → vt.run vt.init (sequenceText none [] action).intoBytes =
    (vt.init, [sequenceCall none [[0]] action])

/-! ### A parser -/

structure Collected where
  intermediates : List UInt8 := []
  params : Params := []
  /-- The values read whole of the parameter being read. -/
  group : List ℕ := []
  value : ℕ := 0
  /-- Whether the sequence had more than the parser keeps. -/
  ignoring : Bool := false
deriving DecidableEq, Repr

namespace Collected

def len (c : Collected) : ℕ := (c.params.map List.length).sum + c.group.length

def isFull (c : Collected) : Bool := c.len == maxParams

def digit (c : Collected) (d : ℕ) : Collected :=
  if c.isFull then { c with ignoring := true }
  else { c with value := min (min (c.value * 10) maxParam + d) maxParam }

/-- Ends the value being read, and the parameter with it. -/
def param (c : Collected) : Collected :=
  if c.isFull then { c with ignoring := true }
  else { c with params := c.params ++ [c.group ++ [c.value]], group := [], value := 0 }

/-- Ends the value being read; the parameter goes on. -/
def subparam (c : Collected) : Collected :=
  if c.isFull then { c with ignoring := true }
  else { c with group := c.group ++ [c.value], value := 0 }

/-- The call a final byte makes. -/
def dispatch (c : Collected) (action : Char) : Call :=
  let c := c.param
  .csiDispatch c.params c.intermediates c.ignoring action

end Collected

inductive Reading where
  | ground
  | escape
  /-- Inside a control sequence, with whether nothing of it was read yet. -/
  | sequence (collected : Collected) (fresh : Bool)
deriving DecidableEq, Repr

namespace Reading

def step : Reading → Char → Reading × List Call
  | ground, c =>
    if c = '\x1b' then (escape, [])
    else if c.toNat < 0x20 || (0x80 ≤ c.toNat && c.toNat ≤ 0x9f) then
      (ground, [.execute (UInt8.ofNat c.toNat)])
    else (ground, [.print c])
  | escape, c =>
    if c = '[' then (sequence {} true, [])
    else (ground, [.escDispatch [] false (UInt8.ofNat c.toNat)])
  | sequence collected fresh, c =>
    if c.isDigit then (sequence (collected.digit (c.toNat - '0'.toNat)) false, [])
    else if c = ':' then (sequence collected.subparam false, [])
    else if c = ';' then (sequence collected.param false, [])
    else if fresh && (0x3c ≤ c.toNat && c.toNat ≤ 0x3f) then
      (sequence { collected with intermediates := [UInt8.ofNat c.toNat] } false, [])
    else if 0x40 ≤ c.toNat && c.toNat ≤ 0x7e then (ground, [collected.dispatch c])
    else (ground, [])

def reading : Transducer Char Call Reading := ⟨step⟩

end Reading

open Reading

variable {c : Collected} {fresh : Bool} {params : Params} {action : Char}

theorem le_ofDigitChars (digits : Text) (init : ℕ) : init ≤ Nat.ofDigitChars 10 digits init := by
  induction digits generalizing init with
  | nil => exact Nat.le_refl _
  | cons d digits ih =>
    rw [Nat.ofDigitChars_cons]
    exact Nat.le_trans (by omega) (ih _)

theorem isFull_of_lt (h : c.len < maxParams) : c.isFull = false := by
  simp only [Collected.isFull, beq_eq_false_iff_ne]
  omega

theorem step_digit {d : Char} (hd : d.isDigit) :
    step (sequence c fresh) d = (sequence (c.digit (d.toNat - '0'.toNat)) false, []) := by
  simp [step, hd]

theorem run_digits {digits : Text} (hdigits : ∀ d ∈ digits, d.isDigit) (hlen : c.len < maxParams)
    (hle : Nat.ofDigitChars 10 digits c.value ≤ maxParam) :
    reading.run (sequence c false) digits =
      (sequence { c with value := Nat.ofDigitChars 10 digits c.value } false, []) := by
  induction digits generalizing c with
  | nil => rfl
  | cons d digits ih =>
    rw [Nat.ofDigitChars_cons] at hle ⊢
    have hnext := Nat.le_trans (le_ofDigitChars digits _) hle
    have hdigit : c.digit (d.toNat - '0'.toNat) =
        { c with value := 10 * c.value + (d.toNat - '0'.toNat) } := by
      rw [Collected.digit, isFull_of_lt hlen, if_neg Bool.false_ne_true, Nat.min_eq_left, Nat.min_eq_left,
        Nat.mul_comm] <;> omega
    have hstep : reading.step (sequence c false) d =
        (sequence { c with value := 10 * c.value + (d.toNat - '0'.toNat) } false, []) :=
      hdigit ▸ step_digit (hdigits d List.mem_cons_self)
    rw [Transducer.run_cons, hstep]
    dsimp only
    rw [ih (c := { c with value := 10 * c.value + (d.toNat - '0'.toNat) })
      (fun x hx => hdigits x (List.mem_cons_of_mem _ hx)) hlen hle]
    rfl

theorem run_decimal (fresh : Bool) {n : ℕ} (hn : n ≤ maxParam) (hlen : c.len < maxParams)
    (hvalue : c.value = 0) :
    reading.run (sequence c fresh) (decimal n) = (sequence { c with value := n } false, []) := by
  have hdigits : ∀ d ∈ decimal n, d.isDigit := fun d hd =>
    Nat.isDigit_of_mem_toDigits (by decide) (by decide) hd
  have hread : Nat.ofDigitChars 10 (decimal n) c.value = n := by
    rw [hvalue]
    exact Nat.ofDigitChars_toDigits (by decide) (by decide)
  obtain ⟨d, digits, hcons⟩ := List.exists_cons_of_ne_nil (Nat.toDigits_ne_nil (b := 10) (n := n))
  have hall := run_digits (c := c) hdigits hlen (by rw [hread]; exact hn)
  rw [hread] at hall
  rw [← hall]
  -- only the first digit can tell whether the sequence has just begun
  rw [show decimal n = d :: digits from hcons] at hdigits ⊢
  have hd := hdigits d List.mem_cons_self
  rw [Transducer.run_cons, Transducer.run_cons]
  rw [show reading.step (sequence c fresh) d = reading.step (sequence c false) d from
    (step_digit hd).trans (step_digit hd).symm]

theorem param_of_lt (h : c.len < maxParams) :
    c.param = { c with params := c.params ++ [c.group ++ [c.value]], group := [], value := 0 } := by
  rw [Collected.param, isFull_of_lt h, if_neg Bool.false_ne_true]

theorem subparam_of_lt (h : c.len < maxParams) :
    c.subparam = { c with group := c.group ++ [c.value], value := 0 } := by
  rw [Collected.subparam, isFull_of_lt h, if_neg Bool.false_ne_true]

theorem run_groupText {values : List ℕ} (hne : values ≠ []) (hvalues : ∀ v ∈ values, v ≤ maxParam)
    (hlen : c.len + values.length ≤ maxParams) (hvalue : c.value = 0) :
    ∃ c' : Collected, reading.run (sequence c fresh) (groupText values) = (sequence c' false, []) ∧
      c'.param = { c with params := c.params ++ [c.group ++ values], group := [], value := 0 } := by
  induction values generalizing c fresh with
  | nil => exact absurd rfl hne
  | cons value values ih =>
    rw [List.length_cons] at hlen
    have hlt : c.len < maxParams := by omega
    have hread := run_decimal fresh (hvalues value List.mem_cons_self) hlt hvalue
    cases values with
    | nil =>
      refine ⟨{ c with value := value }, ?_, ?_⟩
      · rw [groupText, List.flatMap_nil, List.append_nil, hread]
      · exact param_of_lt (c := { c with value := value }) hlt
    | cons next values =>
      let ended : Collected := { c with group := c.group ++ [value], value := 0 }
      have hended : ended.len = c.len + 1 := by
        show _ + (c.group ++ [value]).length = _
        rw [List.length_append, List.length_singleton]
        exact (Nat.add_assoc _ _ _).symm
      obtain ⟨c', hrun, hparam⟩ := ih (c := ended) (List.cons_ne_nil _ _)
        (fun v hv => hvalues v (List.mem_cons_of_mem _ hv)) (by omega) rfl
      have hcolon : reading.step (sequence { c with value := value } false) ':' =
          (sequence ended false, []) := by
        show (sequence (Collected.subparam { c with value := value }) false, ([] : List Call)) = _
        rw [subparam_of_lt (c := { c with value := value }) hlt]
      have htext : groupText (value :: next :: values) =
          decimal value ++ ':' :: groupText (next :: values) := rfl
      refine ⟨c', ?_, ?_⟩
      · rw [htext, Transducer.run_append, hread]
        dsimp only
        rw [Transducer.run_cons, hcolon]
        dsimp only
        rw [hrun]
        rfl
      · have hgroup : c.group ++ [value] ++ next :: values = c.group ++ value :: next :: values := by
          rw [List.append_assoc]
          rfl
        rw [hparam, ← hgroup]

theorem joined_cons_cons (text next : Text) (texts : List Text) :
    joined (text :: next :: texts) = text ++ ';' :: joined (next :: texts) := rfl

theorem run_paramsText (fresh : Bool) (h : params ≠ [])
    (hvalues : ∀ group ∈ params, group ≠ [] ∧ ∀ value ∈ group, value ≤ maxParam)
    (hlen : c.len + (params.map List.length).sum ≤ maxParams) (hvalue : c.value = 0)
    (hgroup : c.group = []) :
    ∃ c' : Collected, reading.run (sequence c fresh) (paramsText params) = (sequence c' false, []) ∧
      c'.param = { c with params := c.params ++ params, group := [], value := 0 } := by
  induction params generalizing c fresh with
  | nil => exact absurd rfl h
  | cons group params ih =>
    obtain ⟨hne, hsmall⟩ := hvalues group List.mem_cons_self
    rw [List.map_cons, List.sum_cons] at hlen
    obtain ⟨c₁, hrun, hparam⟩ := run_groupText (c := c) hne hsmall (by omega) hvalue
    rw [hgroup, List.nil_append] at hparam
    cases params with
    | nil =>
      refine ⟨c₁, ?_, ?_⟩
      · rw [paramsText, List.map_singleton, joined, List.flatMap_nil, List.append_nil, hrun]
      · exact hparam
    | cons next params =>
      let ended : Collected := { c with params := c.params ++ [group], group := [], value := 0 }
      have hended : ended.len = c.len + group.length := by
        show ((c.params ++ [group]).map List.length).sum + 0 = _
        rw [List.map_append, List.sum_append, Collected.len, hgroup]
        simp only [List.map_cons, List.map_nil, List.sum_cons, List.sum_nil, List.length_nil]
        omega
      obtain ⟨c', hrest, hlast⟩ := ih false (c := ended) (List.cons_ne_nil _ _)
        (fun g hg => hvalues g (List.mem_cons_of_mem _ hg)) (by omega) rfl rfl
      have hsemi : reading.step (sequence c₁ false) ';' = (sequence ended false, []) := by
        show (sequence c₁.param false, ([] : List Call)) = _
        rw [hparam]
      refine ⟨c', ?_, ?_⟩
      · rw [paramsText, List.map_cons, List.map_cons, joined_cons_cons, Transducer.run_append, hrun]
        dsimp only
        rw [Transducer.run_cons, hsemi]
        dsimp only
        rw [← List.map_cons, ← paramsText, hrest]
        rfl
      · have hparams : c.params ++ [group] ++ next :: params = c.params ++ group :: next :: params := by
          rw [List.append_assoc]
          rfl
        rw [hlast, ← hparams]

theorem step_final (h : IsFinal action) :
    reading.step (sequence c fresh) action = (ground, [c.dispatch action]) := by
  have hdigit : ¬ action.isDigit := fun hdigit => by
    rw [Char.isDigit, Bool.and_eq_true, decide_eq_true_eq, decide_eq_true_eq] at hdigit
    have hle : action.toNat ≤ 57 := hdigit.2
    have := h.1
    omega
  have hcolon : action ≠ ':' := fun heq => absurd (heq ▸ h) (by decide)
  have hsemi : action ≠ ';' := fun heq => absurd (heq ▸ h) (by decide)
  have hfinal : (0x40 ≤ action.toNat && action.toNat ≤ 0x7e) = true := by
    rw [Bool.and_eq_true, decide_eq_true_eq, decide_eq_true_eq]
    exact h
  have hmarker : ¬ (fresh && (0x3c ≤ action.toNat && action.toNat ≤ 0x3f)) = true := by
    have := h.1
    simp only [Bool.and_eq_true, decide_eq_true_eq]
    omega
  show step (sequence c fresh) action = _
  rw [step, if_neg hdigit, if_neg hcolon, if_neg hsemi, if_neg hmarker, if_pos hfinal]

theorem run_sequenceText {marker : Option Char} (hmarker : ∀ c ∈ marker, c ∈ markers)
    (h : Readable params) (hfinal : IsFinal action) :
    reading.run ground (sequenceText marker params action) =
      (ground, [sequenceCall marker params action]) := by
  let start : Collected := { intermediates := (marker.map fun c => UInt8.ofNat c.toNat).toList }
  obtain ⟨c, hrun, hparam⟩ := run_paramsText marker.isNone (c := start) h.some h.values
    (by simpa [Collected.len, start] using h.few) rfl rfl
  have hcsi : reading.run ground (csi ++ marker.toList) = (sequence start marker.isNone, []) := by
    cases marker with
    | none => decide
    | some marker =>
      have hmem := hmarker marker rfl
      simp only [markers, List.mem_cons, List.not_mem_nil, or_false] at hmem
      rcases hmem with rfl | rfl | rfl | rfl <;> decide
  rw [sequenceText, Transducer.run_append, Transducer.run_append, hcsi]
  dsimp only
  rw [hrun]
  dsimp only
  rw [Transducer.run_singleton, step_final hfinal, Collected.dispatch, hparam]
  rfl

/-! ### Over bytes -/

theorem eq_of_execute_mem {s : Reading} {c : Char} {b : UInt8} (h : Call.execute b ∈ (s.step c).2) :
    b = UInt8.ofNat c.toNat := by
  cases s with
  | ground =>
    rw [Reading.step] at h
    split at h
    · cases h
    · split at h
      · exact Call.execute.inj (List.mem_singleton.1 h)
      · cases List.mem_singleton.1 h
  | escape =>
    rw [Reading.step] at h
    split at h
    · cases h
    · cases List.mem_singleton.1 h
  | sequence collected fresh =>
    rw [Reading.step] at h
    repeat' split at h
    all_goals first | (cases h; done) | cases List.mem_singleton.1 h

theorem toNat_ofNat_byte (b : UInt8) : (Char.ofNat b.toNat).toNat = b.toNat := by
  have hb := b.toNat_lt
  rw [Char.ofNat, dif_pos (Or.inl (by omega))]
  rfl

def byteReading : VtParser Reading where
  step s b := s.step (Char.ofNat b.toNat)
  init := .ground
  lineFeed_of_execute s b h := by
    rw [eq_of_execute_mem h, toNat_ofNat_byte, UInt8.ofNat_toNat]

theorem run_intoBytes {text : Text} (h : ∀ c ∈ text, c.toNat < 128) (s : Reading) :
    byteReading.run s text.intoBytes = reading.run s text := by
  induction text generalizing s with
  | nil => rfl
  | cons c text ih =>
    have hc := h c List.mem_cons_self
    have hbytes : String.utf8EncodeChar c = [UInt8.ofNat c.toNat] := by
      rw [String.utf8EncodeChar, if_pos (show c.val.toNat ≤ 0x7f from Nat.le_of_lt_succ hc)]
      rfl
    have hbyte : Char.ofNat (UInt8.ofNat c.toNat).toNat = c := by
      rw [UInt8.toNat_ofNat_of_lt' (Nat.lt_trans hc (by decide)), Char.ofNat_toNat]
    have hstep : byteReading.step s (UInt8.ofNat c.toNat) = s.step c := congrArg s.step hbyte
    rw [intoBytes, List.flatMap_cons, hbytes, List.singleton_append, Transducer.run_cons, Transducer.run_cons,
      hstep, ← intoBytes, ih fun c hc => h c (List.mem_cons_of_mem _ hc)]
    rfl

theorem lt_of_mem_paramsText {c : Char} (h : c ∈ paramsText params) : c.toNat < 128 := by
  have hdecimal : ∀ n, ∀ c ∈ decimal n, c.toNat < 128 := fun n c hc => by
    have hdigit := Nat.isDigit_of_mem_toDigits (by decide) (by decide) hc
    rw [Char.isDigit, Bool.and_eq_true, decide_eq_true_eq, decide_eq_true_eq] at hdigit
    exact Nat.lt_of_le_of_lt (show c.toNat ≤ 57 from hdigit.2) (by decide)
  have hgroup : ∀ values, ∀ c ∈ groupText values, c.toNat < 128 := fun values c hc => by
    cases values with
    | nil => cases hc
    | cons value values =>
      simp only [groupText, List.mem_append, List.mem_flatMap, List.mem_cons] at hc
      rcases hc with hc | ⟨other, -, rfl | hc⟩
      · exact hdecimal _ c hc
      · decide
      · exact hdecimal _ c hc
  cases params with
  | nil => cases h
  | cons group params =>
    simp only [paramsText, List.map_cons, joined, List.mem_append, List.mem_flatMap, List.mem_map,
      List.mem_cons] at h
    rcases h with h | ⟨_, ⟨other, -, rfl⟩, rfl | h⟩
    · exact hgroup _ c h
    · decide
    · exact hgroup _ c h

/-- Text of ASCII characters, checked one by one. -/
theorem Text.lt_of_all {text : Text} (h : text.all (·.toNat < 128) = true) {c : Char} (hc : c ∈ text) :
    c.toNat < 128 :=
  of_decide_eq_true (List.all_eq_true.1 h c hc)

theorem lt_of_mem_sequenceText {marker : Option Char} (hmarker : ∀ c ∈ marker, c ∈ markers)
    (hfinal : IsFinal action) : ∀ c ∈ sequenceText marker params action, c.toNat < 128 := by
  intro c hc
  simp only [sequenceText, List.mem_append, List.mem_singleton, Option.mem_toList] at hc
  rcases hc with ((hc | hc) | hc) | rfl
  · exact Text.lt_of_all (by decide) hc
  · exact Text.lt_of_all (by decide) (hmarker c hc)
  · exact lt_of_mem_paramsText hc
  · exact Nat.lt_of_le_of_lt hfinal.2 (by decide)

theorem byteReading_readsCsi : byteReading.ReadsCsi where
  params marker params action hmarker hparams hfinal := by
    rw [run_intoBytes (lt_of_mem_sequenceText hmarker hfinal)]
    exact run_sequenceText hmarker hparams hfinal
  bare action hfinal := by
    rw [run_intoBytes (lt_of_mem_sequenceText (by simp) hfinal)]
    show reading.run ground (csi ++ [action]) = _
    rw [Transducer.run_append, show reading.run ground csi = (sequence {} true, []) by decide]
    dsimp only
    rw [Transducer.run_singleton, step_final hfinal]
    rfl

end Muster.Terminal
