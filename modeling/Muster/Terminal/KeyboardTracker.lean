import Muster.Terminal.Keyboard
import Muster.Terminal.Reading

/-!
# KeyboardTracker — the keyboard flags a child negotiates on both screens

The tracker follows the Kitty sequences, the screen switches and the full resets in a child's output and
answers its queries.  On a reattach the restore sequence is fed to a fresh tracker: it rebuilds the active
screen's levels exactly, so that whatever the child does on that screen from then on has the same outcome
and the same answers as if the tracker had never been left.
-/

namespace Muster.Terminal

open Text Reading

def altScreenModes : List ℕ := [47, 1047, 1049]

def deviceAttributesReply : Text := "\x1b[?1;2c".toList

/-- The keyboard state of both screens, and the replies owed to the child. -/
structure Keyboard where
  primary : ScreenState := {}
  alternate : ScreenState := {}
  onAlternate : Bool := false
  reply : Text := []

namespace Keyboard

def active (k : Keyboard) : ScreenState := if k.onAlternate then k.alternate else k.primary

def onActive (k : Keyboard) (change : ScreenState → ScreenState) : Keyboard :=
  if k.onAlternate then { k with alternate := change k.alternate }
  else { k with primary := change k.primary }

def reset (k : Keyboard) : Keyboard :=
  { k with primary := {}, alternate := {}, onAlternate := false }

def setFlags (active flags : UInt16) (mode : ℕ) : UInt16 :=
  if mode = 2 then active ||| flags else if mode = 3 then active &&& ~~~flags else flags

/-- Applies one Kitty sequence to the active screen, answering when it is a query. -/
def apply (k : Keyboard) (introducer : UInt8) (params : Params) : Keyboard :=
  let first := (paramValues params).head?.getD 0
  if introducer = 0x3e then k.onActive (·.push (UInt16.ofNat first &&& supportedFlags))
  else if introducer = 0x3d then
    let flags := UInt16.ofNat first &&& supportedFlags
    let mode := (paramValues params)[1]?.getD 1
    k.onActive fun screen => screen.set (setFlags screen.flags flags mode)
  else if introducer = 0x3c then k.onActive (·.pop (max first 1))
  else if introducer = 0x3f then { k with reply := k.reply ++ kittySequence '?' k.active.flags }
  else k

def screenMode (k : Keyboard) (params : Params) (set : Bool) : Keyboard :=
  if (paramValues params).any fun mode => altScreenModes.contains mode then
    { k with onAlternate := set }
  else k

def deviceAttributes (k : Keyboard) (params : Params) : Keyboard :=
  if (params.map List.length).sum = 1 && (paramValues params).head? = some 0 then
    { k with reply := k.reply ++ deviceAttributesReply }
  else k

def perform (k : Keyboard) : Call → Keyboard
  | .escDispatch intermediates _ byte => if intermediates.isEmpty && byte = 0x63 then k.reset else k
  | .csiDispatch params intermediates ignore action =>
    if ignore then k
    else match intermediates with
      | [introducer] =>
        if action = 'u' then k.apply introducer params
        else if introducer = 0x3f && action = 'h' then k.screenMode params true
        else if introducer = 0x3f && action = 'l' then k.screenMode params false
        else k
      | [] => if action = 'c' then k.deviceAttributes params else k
      | _ => k
  | _ => k

/-- Follows the calls of a chunk; with the replies it owes. -/
def observe (k : Keyboard) (calls : List Call) : Keyboard × Text :=
  let k := calls.foldl perform k
  ({ k with reply := [] }, k.reply)

end Keyboard

def Call.switchesScreen : Call → Bool
  | .csiDispatch params [introducer] false action =>
    introducer = 0x3f && (action = 'h' || action = 'l') &&
      (paramValues params).any fun mode => altScreenModes.contains mode
  | _ => false

/-! ### Levels -/

namespace ScreenState

theorem eq_of_levels {s t : ScreenState} (h : s.levels = t.levels) : s = t := by
  obtain ⟨hstack, hflags⟩ := List.append_inj' h rfl
  replace hflags := List.singleton_inj.1 hflags
  cases s
  cases t
  dsimp only at hstack hflags
  subst hstack hflags
  rfl

theorem masked_default : ({} : ScreenState).Masked := by
  intro flags hflags
  rw [show ({} : ScreenState).levels = [0] from rfl, List.mem_singleton] at hflags
  rw [hflags]
  rfl

variable {s : ScreenState} {flags : UInt16}

theorem Masked.set (h : s.Masked) (hflags : flags &&& supportedFlags = flags) :
    (s.set flags).Masked := by
  intro level hlevel
  rcases List.mem_append.1 hlevel with hlevel | hlevel
  · exact h level (List.mem_append_left _ hlevel)
  · rw [List.mem_singleton.1 hlevel]
    exact hflags

theorem Masked.push (h : s.Masked) (hflags : flags &&& supportedFlags = flags) :
    (s.push flags).Masked := by
  intro level hlevel
  rcases List.mem_append.1 hlevel with hlevel | hlevel
  · refine h level ?_
    rcases List.mem_append.1 hlevel with hlevel | hlevel
    · refine List.mem_append_left _ ?_
      split at hlevel
      · exact List.mem_of_mem_tail hlevel
      · exact hlevel
    · exact List.mem_append_right _ hlevel
  · rw [List.mem_singleton.1 hlevel]
    exact hflags

theorem Masked.pop (h : s.Masked) (count : ℕ) : (s.pop count).Masked := by
  induction count generalizing s with
  | zero => exact h
  | succ count ih =>
    refine ih fun level hlevel => ?_
    rcases List.mem_append.1 hlevel with hlevel | hlevel
    · exact h level (List.mem_append_left _ (List.mem_of_mem_dropLast hlevel))
    · rw [List.mem_singleton.1 hlevel]
      show s.stack.getLastD 0 &&& supportedFlags = s.stack.getLastD 0
      by_cases hnil : s.stack = []
      · rw [hnil]
        rfl
      · rw [List.getLastD_eq_getLast?, List.getLast?_eq_some_getLast hnil]
        exact h _ (List.mem_append_left _ (List.getLast_mem hnil))

theorem levels_push (h : s.stack.length < stackLimit) : (s.push flags).levels = s.levels ++ [flags] := by
  show ((if stackLimit ≤ s.stack.length then s.stack.tail else s.stack) ++ [s.flags]) ++ [flags] = _
  rw [if_neg (by omega)]
  rfl

end ScreenState

namespace Keyboard

variable {k : Keyboard} {call : Call}

theorem masked_and (flags : UInt16) :
    flags &&& supportedFlags &&& supportedFlags = flags &&& supportedFlags := by
  rw [UInt16.and_assoc, UInt16.and_self]

theorem masked_setFlags {active flags : UInt16} (ha : active &&& supportedFlags = active)
    (hf : flags &&& supportedFlags = flags) (mode : ℕ) :
    setFlags active flags mode &&& supportedFlags = setFlags active flags mode := by
  unfold setFlags
  split
  · rw [← UInt16.toNat_inj, UInt16.toNat_and] at ha hf ⊢
    rw [UInt16.toNat_or, Nat.and_or_distrib_right, ha, hf]
  · split
    · rw [UInt16.and_assoc, UInt16.and_comm (~~~flags), ← UInt16.and_assoc, ha]
    · exact hf

/-- What a call that neither resets nor switches does: it changes the active screen and answers, both by
the active screen alone. -/
structure Local (call : Call) (change : ScreenState → ScreenState) (answer : ScreenState → Text) :
    Prop where
  masked : ∀ s : ScreenState, s.Masked → (change s).Masked
  perform : ∀ k : Keyboard, k.perform call =
    { k.onActive change with reply := k.reply ++ answer k.active }

theorem onActive_id (k : Keyboard) : k.onActive id = k := by
  unfold onActive
  split <;> rfl

theorem local_of_eq (h : ∀ k : Keyboard, k.perform call = k) :
    ∃ change answer, Local call change answer := by
  refine ⟨id, fun _ => [], fun _ hs => hs, fun k => ?_⟩
  rw [h, onActive_id, List.append_nil]

theorem local_of_onActive (change : ScreenState → ScreenState)
    (hmasked : ∀ s : ScreenState, s.Masked → (change s).Masked)
    (h : ∀ k : Keyboard, k.perform call = k.onActive change) :
    ∃ change answer, Local call change answer := by
  refine ⟨change, fun _ => [], hmasked, fun k => ?_⟩
  have hreply : (k.onActive change).reply = k.reply := by
    unfold onActive
    split <;> rfl
  rw [h, List.append_nil, ← hreply]

theorem local_of_answer (answer : ScreenState → Text)
    (h : ∀ k : Keyboard, k.perform call = { k with reply := k.reply ++ answer k.active }) :
    ∃ change answer, Local call change answer := by
  refine ⟨id, answer, fun _ hs => hs, fun k => ?_⟩
  rw [h, onActive_id]

theorem local_apply (introducer : UInt8) (params : Params) :
    ∃ change answer, Local (.csiDispatch params [introducer] false 'u') change answer := by
  have hperform : ∀ k : Keyboard, k.perform (.csiDispatch params [introducer] false 'u') =
      k.apply introducer params := fun _ => rfl
  have hmask := masked_and (UInt16.ofNat ((paramValues params).head?.getD 0))
  by_cases hpush : introducer = 0x3e
  · refine local_of_onActive _ (fun s hs => hs.push hmask) fun k => ?_
    rw [hperform, apply]
    dsimp only
    rw [if_pos hpush]
  by_cases hset : introducer = 0x3d
  · refine local_of_onActive (fun screen => screen.set (setFlags screen.flags
      (UInt16.ofNat ((paramValues params).head?.getD 0) &&& supportedFlags)
      ((paramValues params)[1]?.getD 1))) (fun s hs => ?_) fun k => ?_
    · exact hs.set (masked_setFlags (hs s.flags (List.mem_append_right _ List.mem_cons_self)) hmask _)
    · rw [hperform, apply]
      dsimp only
      rw [if_neg hpush, if_pos hset]
  by_cases hpop : introducer = 0x3c
  · refine local_of_onActive _ (fun s hs => hs.pop (max ((paramValues params).head?.getD 0) 1)) fun k => ?_
    rw [hperform, apply]
    dsimp only
    rw [if_neg hpush, if_neg hset, if_pos hpop]
  by_cases hquery : introducer = 0x3f
  · refine local_of_answer (fun s => kittySequence '?' s.flags) fun k => ?_
    rw [hperform, apply]
    dsimp only
    rw [if_neg hpush, if_neg hset, if_neg hpop, if_pos hquery]
  · refine local_of_eq fun k => ?_
    rw [hperform, apply]
    dsimp only
    rw [if_neg hpush, if_neg hset, if_neg hpop, if_neg hquery]

theorem perform_screenMode (params : Params) {action : Char} {set : Bool}
    (haction : action = 'h' ∧ set = true ∨ action = 'l' ∧ set = false) :
    (Call.csiDispatch params [0x3f] false action).switchesScreen = true ∧
      (∀ k : Keyboard, k.perform (.csiDispatch params [0x3f] false action) =
        { k with onAlternate := set }) ∨
    ∀ k : Keyboard, k.perform (.csiDispatch params [0x3f] false action) = k := by
  have hperform : ∀ k : Keyboard, k.perform (.csiDispatch params [0x3f] false action) =
      k.screenMode params set := by
    intro k
    rcases haction with ⟨rfl, rfl⟩ | ⟨rfl, rfl⟩ <;> rfl
  cases hmode : (paramValues params).any fun mode => altScreenModes.contains mode with
  | true =>
    refine .inl ⟨?_, fun k => ?_⟩
    · rcases haction with ⟨rfl, -⟩ | ⟨rfl, -⟩ <;> exact hmode
    · rw [hperform, screenMode, if_pos hmode]
  | false =>
    refine .inr fun k => ?_
    rw [hperform, screenMode, if_neg (Bool.eq_false_iff.1 hmode)]

theorem local_unmarked (params : Params) (action : Char) :
    ∃ change answer, Local (.csiDispatch params [] false action) change answer := by
  have hperform : ∀ k : Keyboard, k.perform (.csiDispatch params [] false action) =
      if action = 'c' then k.deviceAttributes params else k := fun _ => rfl
  by_cases hquery : action = 'c' ∧
      ((params.map List.length).sum = 1 && (paramValues params).head? = some 0) = true
  · refine local_of_answer (fun _ => deviceAttributesReply) fun k => ?_
    rw [hperform, if_pos hquery.1, deviceAttributes, if_pos hquery.2]
  · refine local_of_eq fun k => ?_
    by_cases haction : action = 'c'
    · rw [hperform, if_pos haction, deviceAttributes, if_neg fun h => hquery ⟨haction, h⟩]
    · rw [hperform, if_neg haction]

/-- **What a call can do.**  It resets, it switches screens, or it stays on the active screen. -/
theorem perform_cases (call : Call) :
    (∀ k : Keyboard, k.perform call = k.reset) ∨
    (call.switchesScreen = true ∧
      ∃ set, ∀ k : Keyboard, k.perform call = { k with onAlternate := set }) ∨
    ∃ change answer, Local call change answer := by
  cases call with
  | escDispatch intermediates ignore byte =>
    by_cases hreset : (intermediates.isEmpty && byte = 0x63) = true
    · exact .inl fun k => if_pos hreset
    · exact .inr (.inr (local_of_eq fun k => if_neg hreset))
  | csiDispatch params intermediates ignore action =>
    cases ignore with
    | true => exact .inr (.inr (local_of_eq fun _ => rfl))
    | false =>
      match intermediates with
      | [] => exact .inr (.inr (local_unmarked params action))
      | [introducer] =>
        by_cases haction : action = 'u'
        · subst haction
          exact .inr (.inr (local_apply introducer params))
        by_cases hmode : introducer = 0x3f ∧ (action = 'h' ∨ action = 'l')
        · obtain ⟨rfl, hmode⟩ := hmode
          have hset : ∃ set, action = 'h' ∧ set = true ∨ action = 'l' ∧ set = false := by
            rcases hmode with h | h
            · exact ⟨true, .inl ⟨h, rfl⟩⟩
            · exact ⟨false, .inr ⟨h, rfl⟩⟩
          obtain ⟨set, hset⟩ := hset
          rcases perform_screenMode params hset with ⟨hswitch, hperform⟩ | hperform
          · exact .inr (.inl ⟨hswitch, set, hperform⟩)
          · exact .inr (.inr (local_of_eq hperform))
        · refine .inr (.inr (local_of_eq fun k => ?_))
          have hset : ¬(introducer = 0x3f && action = 'h') = true := fun h => hmode (by simp_all)
          have hunset : ¬(introducer = 0x3f && action = 'l') = true := fun h => hmode (by simp_all)
          exact (if_neg haction).trans ((if_neg hset).trans (if_neg hunset))
      | _ :: _ :: _ => exact .inr (.inr (local_of_eq fun _ => rfl))
  | _ => exact .inr (.inr (local_of_eq fun _ => rfl))

/-- Both screens have honored flags only. -/
structure Masked (k : Keyboard) : Prop where
  primary : k.primary.Masked
  alternate : k.alternate.Masked

theorem Masked.active (h : k.Masked) : k.active.Masked := by
  unfold Keyboard.active
  split
  · exact h.alternate
  · exact h.primary

theorem Masked.onActive (h : k.Masked) {change : ScreenState → ScreenState}
    (hchange : ∀ s : ScreenState, s.Masked → (change s).Masked) : (k.onActive change).Masked := by
  unfold Keyboard.onActive
  split
  · exact ⟨h.primary, hchange _ h.alternate⟩
  · exact ⟨hchange _ h.primary, h.alternate⟩

theorem Masked.perform (h : k.Masked) (call : Call) : (k.perform call).Masked := by
  rcases perform_cases call with hreset | ⟨-, set, hswitch⟩ | ⟨change, answer, hlocal⟩
  · rw [hreset]
    exact ⟨ScreenState.masked_default, ScreenState.masked_default⟩
  · rw [hswitch]
    exact ⟨h.primary, h.alternate⟩
  · have hactive := h.onActive hlocal.masked
    rw [hlocal.perform]
    exact ⟨hactive.primary, hactive.alternate⟩

theorem Masked.observe (h : k.Masked) (calls : List Call) : (k.observe calls).1.Masked := by
  have hrun : ∀ (calls : List Call) (k : Keyboard), k.Masked →
      (calls.foldl Keyboard.perform k).Masked := by
    intro calls
    induction calls with
    | nil => exact fun _ hk => hk
    | cons call calls ih => exact fun k hk => ih _ (hk.perform call)
  have hrun := hrun calls k h
  exact ⟨hrun.primary, hrun.alternate⟩

/-! ### Restoring -/

/-- The call of a sequence written for one level. -/
def levelCall (marker : UInt8) (flags : UInt16) : Call :=
  .csiDispatch [[flags.toNat]] [marker] false 'u'

section

variable {σ : Type} {vt : VtParser σ} (hvt : vt.ReadsCsi)

include hvt

theorem run_kittySequence {marker : Char} (hmarker : marker ∈ markers) (flags : UInt16) :
    vt.run vt.init (kittySequence marker flags).intoBytes =
      (vt.init, [levelCall (UInt8.ofNat marker.toNat) flags]) := by
  have htext : sequenceText (some marker) [[flags.toNat]] 'u' = kittySequence marker flags := by
    simp [sequenceText, paramsText, groupText, joined, kittySequence]
  have hreadable : Readable [[flags.toNat]] := by
    refine ⟨List.cons_ne_nil _ _, fun group hgroup => ?_, show 1 ≤ maxParams by decide⟩
    rw [List.mem_singleton.1 hgroup]
    refine ⟨List.cons_ne_nil _ _, fun value hvalue => ?_⟩
    rw [List.mem_singleton.1 hvalue]
    exact Nat.le_of_lt_succ flags.toNat_lt
  rw [← htext]
  exact hvt.params (some marker) _ 'u' (by simpa using hmarker) hreadable (by decide)

theorem run_pushes (levels : List UInt16) :
    vt.run vt.init (Text.intoBytes (levels.flatMap (kittySequence '>'))) =
      (vt.init, levels.map (levelCall 0x3e)) := by
  induction levels with
  | nil => rfl
  | cons flags levels ih =>
    rw [List.flatMap_cons, intoBytes_append, Transducer.run_append, run_kittySequence hvt (by decide), ih]
    rfl

theorem run_restoreSequence {s : ScreenState} {oldest : UInt16} {newer : List UInt16}
    (h : s.levels = oldest :: newer) : vt.run vt.init (restoreSequence s).intoBytes =
      (vt.init, levelCall 0x3d oldest :: newer.map (levelCall 0x3e)) := by
  have htext : restoreSequence s = kittySequence '=' oldest ++ newer.flatMap (kittySequence '>') := by
    rw [restoreSequence, h]
  rw [htext, intoBytes_append, Transducer.run_append, run_kittySequence hvt (by decide), run_pushes hvt]
  rfl

end

theorem ofNat_and_of_masked {flags : UInt16} (h : flags &&& supportedFlags = flags) :
    UInt16.ofNat flags.toNat &&& supportedFlags = flags := by
  rw [UInt16.ofNat_toNat, h]

theorem foldl_pushes {levels : List UInt16}
    (hmasked : ∀ flags ∈ levels, flags &&& supportedFlags = flags) :
    ∀ s : ScreenState, s.stack.length + levels.length ≤ stackLimit →
      ∃ t : ScreenState, t.levels = s.levels ++ levels ∧
        (levels.map (levelCall 0x3e)).foldl perform { primary := s } = { primary := t } := by
  induction levels with
  | nil => exact fun s _ => ⟨s, (List.append_nil _).symm, rfl⟩
  | cons flags levels ih =>
    intro s hroom
    rw [List.length_cons] at hroom
    have hflags := ofNat_and_of_masked (hmasked flags List.mem_cons_self)
    have hlevels : (s.push flags).levels = s.levels ++ [flags] := ScreenState.levels_push (by omega)
    have hlength : (s.push flags).stack.length = s.stack.length + 1 := by
      have h := congrArg List.length hlevels
      simpa [ScreenState.levels] using h
    obtain ⟨t, ht, hrun⟩ := ih (fun flags h => hmasked flags (List.mem_cons_of_mem _ h)) (s.push flags)
      (by omega)
    refine ⟨t, by rw [ht, hlevels, List.append_assoc]; rfl, ?_⟩
    have hstep : perform { primary := s } (levelCall 0x3e flags) = { primary := s.push flags } := by
      show ({ primary := s.push (UInt16.ofNat flags.toNat &&& supportedFlags) } : Keyboard) = _
      rw [hflags]
    rw [List.map_cons, List.foldl_cons, hstep, hrun]

/-- **The restore sequence rebuilds a screen.**  A fresh tracker fed it has the screen's levels, on its
primary screen, and owes no reply. -/
theorem foldl_restoreSequence {σ : Type} {vt : VtParser σ} (hvt : vt.ReadsCsi) {s : ScreenState}
    (hmasked : s.Masked) :
    (vt.run vt.init (restoreSequence s).intoBytes).2.foldl perform {} = { primary := s } := by
  obtain ⟨oldest, newer, hlevels⟩ : ∃ oldest newer, s.levels = oldest :: newer :=
    List.exists_cons_of_ne_nil (List.append_ne_nil_of_right_ne_nil _ (List.cons_ne_nil _ _))
  have hroom : newer.length ≤ stackLimit := by
    have h := congrArg List.length hlevels
    rw [ScreenState.levels, List.length_append, List.length_singleton, List.length_cons] at h
    have := s.bounded
    omega
  unfold ScreenState.Masked at hmasked
  rw [hlevels] at hmasked
  have holdest := ofNat_and_of_masked (hmasked oldest List.mem_cons_self)
  obtain ⟨t, ht, hrun⟩ := foldl_pushes (fun flags h => hmasked flags (List.mem_cons_of_mem _ h))
    (({} : ScreenState).set oldest) (by
      show 0 + newer.length ≤ stackLimit
      omega)
  have hset : perform {} (levelCall 0x3d oldest) = { primary := ({} : ScreenState).set oldest } := by
    show ({ primary := ({} : ScreenState).set (UInt16.ofNat oldest.toNat &&& supportedFlags) } : Keyboard) = _
    rw [holdest]
  have heq : t = s := ScreenState.eq_of_levels (by rw [ht, hlevels]; rfl)
  rw [run_restoreSequence hvt hlevels, List.foldl_cons, hset, hrun, heq]

/-! ### Going on from the restored state -/

/-- Two trackers that go on alike: they have the same active screen and owe the same replies. -/
structure Alike (k l : Keyboard) : Prop where
  active : k.active = l.active
  reply : k.reply = l.reply

theorem active_onActive (k : Keyboard) (change : ScreenState → ScreenState) (reply : Text) :
    ({ k.onActive change with reply } : Keyboard).active = change k.active := by
  unfold onActive active
  cases k.onAlternate <;> rfl

theorem Alike.perform {l : Keyboard} (h : Alike k l) (hcall : call.switchesScreen = false) :
    Alike (k.perform call) (l.perform call) := by
  rcases perform_cases call with hreset | ⟨hswitch, -⟩ | ⟨change, answer, hlocal⟩
  · rw [hreset, hreset]
    exact ⟨rfl, h.reply⟩
  · rw [hcall] at hswitch
    exact absurd hswitch Bool.false_ne_true
  · rw [hlocal.perform, hlocal.perform]
    refine ⟨?_, ?_⟩
    · rw [active_onActive, active_onActive, h.active]
    · show k.reply ++ answer k.active = l.reply ++ answer l.active
      rw [h.reply, h.active]

theorem Alike.foldl {l : Keyboard} {calls : List Call} (h : Alike k l)
    (hcalls : ∀ call ∈ calls, call.switchesScreen = false) :
    Alike (calls.foldl Keyboard.perform k) (calls.foldl Keyboard.perform l) := by
  induction calls generalizing k l with
  | nil => exact h
  | cons call calls ih =>
    exact ih (h.perform (hcalls call List.mem_cons_self)) fun c hc => hcalls c (List.mem_cons_of_mem _ hc)

/-- **Keyboard state survives a reattach.**  After anything the child wrote, a fresh tracker fed the restore
sequence goes on like the one it was taken from, as long as the screen is not switched: the same active
flags and the same answers. -/
theorem restored_goes_on {σ : Type} {vt : VtParser σ} (hvt : vt.ReadsCsi) (before after : List Call)
    (hafter : ∀ call ∈ after, call.switchesScreen = false) :
    let tracker := (observe {} before).1
    let restored := observe {} (vt.run vt.init (restoreSequence tracker.active).intoBytes).2
    restored.2 = [] ∧
      (tracker.observe after).1.active.flags = (restored.1.observe after).1.active.flags ∧
      (tracker.observe after).2 = (restored.1.observe after).2 := by
  intro tracker restored
  have hmasked : tracker.Masked :=
    Masked.observe ⟨ScreenState.masked_default, ScreenState.masked_default⟩ before
  have hrestored : restored = ({ primary := tracker.active }, []) := by
    show observe {} (vt.run vt.init (restoreSequence tracker.active).intoBytes).2 = _
    rw [observe, foldl_restoreSequence hvt hmasked.active]
  have halike : Alike tracker restored.1 := by
    rw [hrestored]
    exact ⟨rfl, rfl⟩
  have hrun := halike.foldl hafter
  refine ⟨by rw [hrestored], ?_, hrun.reply⟩
  exact congrArg ScreenState.flags hrun.active

/-- A push and a query on the alternate screen. -/
theorem restored_goes_on_alternate :
    let before : List Call := [.csiDispatch [[1049]] [0x3f] false 'h', .csiDispatch [[1]] [0x3e] false 'u',
      .csiDispatch [[2]] [0x3e] false 'u']
    let after : List Call := [.csiDispatch [[1]] [0x3c] false 'u', .csiDispatch [[0]] [0x3f] false 'u']
    let tracker := (observe {} before).1
    let restored := observe {} (byteReading.run .ground (restoreSequence tracker.active).intoBytes).2
    restored.2 = [] ∧
      (tracker.observe after).1.active.flags = (restored.1.observe after).1.active.flags ∧
      (tracker.observe after).2 = (restored.1.observe after).2 :=
  restored_goes_on byteReading_readsCsi _ _ (by decide)

end Keyboard

end Muster.Terminal
