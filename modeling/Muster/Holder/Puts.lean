import Mathlib.Data.List.Induction
import Muster.Holder.Server
import Muster.Lib.Extract

/-!
# Puts — sequences of frames put in an outbox

The frames put in a supervisor's outbox between two snapshots carry the log on from the first one's
end; those put in an attached terminal's after its latest snapshot are what the child wrote since.
`Client.Good` says both of a client that is up to date with the log and the child; `Client.Sound` is
what is left of it while a chunk is on its way out.
-/

namespace Muster.Holder

open Muster.Log

/-! ### Sequences of frames -/

/-- The output a frame carries, and where it says it starts. -/
def Put.output (p : Put) : Option (ℕ × Bytes) :=
  match p.message with
  | .output start bytes => some (start, bytes)
  | _ => none

def outputs (ps : List Put) : List (ℕ × Bytes) := ps.filterMap Put.output

/-- The chunks start at `n`, each goes on where the one before it ended, and each carries the log's
bytes there. -/
def Contiguous (log : Bytes) : ℕ → List (ℕ × Bytes) → Prop
  | _, [] => True
  | n, (start, bytes) :: rest =>
    start = n ∧ bytes = log.extract n (n + bytes.length) ∧ Contiguous log (n + bytes.length) rest

def HolderMessage.isNeutral : HolderMessage → Bool
  | .snapshot .. | .output .. => false
  | _ => true

namespace Put

/-- How far into the log the frames reach after this one. -/
def reach (reached : Option ℕ) (p : Put) : Option ℕ :=
  match p.message with
  | .snapshot _ _ _ _ _ logEnd => some logEnd
  | .output _ bytes => reached.map (· + bytes.length)
  | _ => reached

/-- An output frame goes on where the frames before it reached, with the log's bytes. -/
def Follows (log : Bytes) (reached : Option ℕ) (p : Put) : Prop :=
  match p.message with
  | .output start bytes => reached = some start ∧ bytes = log.extract start (start + bytes.length)
  | _ => True

/-- The latest snapshot's place in what the child produced, and the output after it. -/
def draw (drawn : Option (ℕ × Bytes)) (p : Put) : Option (ℕ × Bytes) :=
  match p.message with
  | .snapshot .. => some (p.produced, [])
  | .output _ bytes => drawn.map fun d => (d.1, d.2 ++ bytes)
  | _ => drawn

variable {log : Bytes} {r : Option ℕ} {p : Put}

theorem reach_neutral (h : p.message.isNeutral = true) : p.reach r = r := by
  unfold reach
  cases hm : p.message <;> simp_all [HolderMessage.isNeutral]

theorem draw_neutral {d : Option (ℕ × Bytes)} (h : p.message.isNeutral = true) : p.draw d = d := by
  unfold draw
  cases hm : p.message <;> simp_all [HolderMessage.isNeutral]

theorem follows_neutral (h : p.message.isNeutral = true) : p.Follows log r := by
  unfold Follows
  cases hm : p.message <;> simp_all [HolderMessage.isNeutral]

theorem Follows.grow (h : p.Follows log r) (more : Bytes) : p.Follows (log ++ more) r := by
  unfold Follows at *
  cases hm : p.message with
  | output start bytes =>
    simp only [hm] at h ⊢
    refine ⟨h.1, h.2.trans ?_⟩
    have hlen := congrArg List.length h.2
    rw [length_extract] at hlen
    by_cases hin : start + bytes.length ≤ log.length
    · rw [extract_append_of_le _ _ hin]
    · rw [extract_of_le _ (by omega), extract_of_le _ (by omega)]
  | _ => simp

end Put

/-- Every output frame follows the frames before it. -/
def Chained (log : Bytes) : Option ℕ → List Put → Prop
  | _, [] => True
  | r, p :: ps => p.Follows log r ∧ Chained log (p.reach r) ps

def reached (r : Option ℕ) (ps : List Put) : Option ℕ := ps.foldl Put.reach r

def drawn (ps : List Put) : Option (ℕ × Bytes) := ps.foldl Put.draw none

section Sequences

variable {log : Bytes} {r : Option ℕ}

theorem chained_append : ∀ {r : Option ℕ} {ps qs : List Put},
    Chained log r (ps ++ qs) ↔ Chained log r ps ∧ Chained log (reached r ps) qs
  | _, [], _ => by simp [Chained, reached]
  | r, p :: ps, qs => by
    simp only [List.cons_append, Chained, chained_append (r := p.reach r), and_assoc]
    rfl

theorem Chained.grow (more : Bytes) : ∀ {r : Option ℕ} {ps : List Put},
    Chained log r ps → Chained (log ++ more) r ps
  | _, [], _ => trivial
  | _, _ :: _, h => ⟨h.1.grow more, h.2.grow more⟩

theorem chained_neutral : ∀ {r : Option ℕ} {ps : List Put},
    (∀ p ∈ ps, p.message.isNeutral = true) → Chained log r ps
  | _, [], _ => trivial
  | _, p :: _, h => ⟨Put.follows_neutral (h p (List.mem_cons_self ..)),
      chained_neutral fun q hq => h q (List.mem_cons_of_mem _ hq)⟩

theorem reached_neutral : ∀ {r : Option ℕ} {ps : List Put},
    (∀ p ∈ ps, p.message.isNeutral = true) → reached r ps = r
  | _, [], _ => rfl
  | r, p :: ps, h => by
    rw [reached, List.foldl_cons, Put.reach_neutral (h p (List.mem_cons_self ..))]
    exact reached_neutral fun q hq => h q (List.mem_cons_of_mem _ hq)

theorem drawn_neutral : ∀ {d : Option (ℕ × Bytes)} {ps : List Put},
    (∀ p ∈ ps, p.message.isNeutral = true) → ps.foldl Put.draw d = d
  | _, [], _ => rfl
  | d, p :: ps, h => by
    rw [List.foldl_cons, Put.draw_neutral (h p (List.mem_cons_self ..))]
    exact drawn_neutral fun q hq => h q (List.mem_cons_of_mem _ hq)

theorem Chained.contiguous : ∀ {n : ℕ} {ps : List Put}, Chained log (some n) ps →
    (∀ p ∈ ps, p.message.isSnapshot = false) → Contiguous log n (outputs ps)
  | _, [], _, _ => trivial
  | n, p :: ps, h, hno => by
    have hrest := fun q hq => hno q (List.mem_cons_of_mem p hq)
    have hp := hno p (List.mem_cons_self ..)
    obtain ⟨hfollows, hchain⟩ := h
    unfold Put.Follows at hfollows
    unfold Put.reach at hchain
    simp only [outputs, List.filterMap_cons, Put.output]
    cases hm : p.message with
    | output start bytes =>
      simp only [hm] at hfollows hchain
      obtain ⟨hstart, hbytes⟩ := hfollows
      obtain rfl := Option.some.inj hstart
      exact ⟨rfl, hbytes, hchain.contiguous hrest⟩
    | snapshot => simp [hm, HolderMessage.isSnapshot] at hp
    | _ =>
      simp only [hm] at hchain
      exact hchain.contiguous hrest

theorem exists_of_drawn : ∀ {ps : List Put} {n : ℕ} {bytes : Bytes}, drawn ps = some (n, bytes) →
    ∃ before snap after, ps = before ++ snap :: after ∧ snap.message.isSnapshot = true ∧
      (∀ p ∈ after, p.message.isSnapshot = false) ∧ snap.produced = n ∧
      ((outputs after).map Prod.snd).flatten = bytes := by
  intro ps
  induction ps using List.reverseRecOn with
  | nil => intro n bytes h; cases h
  | append_singleton ps p ih =>
    intro n bytes h
    rw [drawn, List.foldl_append] at h
    change p.draw (drawn ps) = some (n, bytes) at h
    unfold Put.draw at h
    cases hm : p.message with
    | snapshot =>
      simp only [hm, Option.some.injEq, Prod.mk.injEq] at h
      exact ⟨ps, p, [], rfl, by rw [hm]; rfl, (fun _ hp => nomatch hp), h.1, h.2⟩
    | output start more =>
      simp only [hm, Option.map_eq_some_iff, Prod.exists, Prod.mk.injEq] at h
      obtain ⟨n', bytes', hdrawn, rfl, rfl⟩ := h
      obtain ⟨before, snap, after, rfl, hsnap, hno, hn, hout⟩ := ih hdrawn
      refine ⟨before, snap, after ++ [p], by simp, hsnap, fun q hq => ?_, hn, ?_⟩
      · rcases List.mem_append.mp hq with hq | hq
        · exact hno q hq
        · rw [List.mem_singleton.mp hq, hm]
          rfl
      · simp [outputs, List.filterMap_append, Put.output, hm, ← hout]
    | _ =>
      simp only [hm] at h
      obtain ⟨before, snap, after, rfl, hsnap, hno, hn, hout⟩ := ih h
      refine ⟨before, snap, after ++ [p], by simp, hsnap, fun q hq => ?_, hn, ?_⟩
      · rcases List.mem_append.mp hq with hq | hq
        · exact hno q hq
        · rw [List.mem_singleton.mp hq, hm]
          rfl
      · simpa [outputs, List.filterMap_append, Put.output, hm] using hout

end Sequences

/-! ### Clients up to date -/

/-- Every snapshot says where the log ended as it was put. -/
def Stamped (put : List Put) : Prop :=
  ∀ p ∈ put, ∀ repaint size pid attached runStart logEnd,
    p.message = .snapshot repaint size pid attached runStart logEnd → logEnd = p.logged

/-- What was put in an outbox, whatever is still on its way out: nothing but refusals before the
hello, and for a supervisor output that follows the log. -/
def Told (log : Bytes) : Option ClientRole → List Put → Prop
  | none, put => ∀ p ∈ put, p.message.isNeutral = true
  | some .supervisor, put => Chained log none put
  | some (.attach _), _ => True

/-- The outbox got all there is: a supervisor's frames reach the log's end, an attached terminal's
carry all the child produced since its latest snapshot. -/
def UpToDate (log produced : Bytes) : Option ClientRole → List Put → Prop
  | none, _ => True
  | some .supervisor, put => reached none put = some log.length
  | some (.attach _), put => ∃ n ≤ produced.length, drawn put = some (n, produced.drop n)

section Put

variable {log produced : Bytes} {put more : List Put} {role : Option ClientRole}

theorem Stamped.append (h : Stamped put) (hm : Stamped more) : Stamped (put ++ more) := by
  intro p hp
  rcases List.mem_append.mp hp with hp | hp
  · exact h p hp
  · exact hm p hp

theorem stamped_neutral (h : ∀ p ∈ more, p.message.isNeutral = true) : Stamped more := by
  intro p hp repaint size pid attached runStart logEnd hm
  have := h p hp
  simp [hm, HolderMessage.isNeutral] at this

theorem Told.grow (h : Told log role put) (bytes : Bytes) : Told (log ++ bytes) role put := by
  rcases role with _ | _ | _
  · exact h
  · exact Chained.grow bytes h
  · trivial

theorem Told.neutral (h : Told log role put) (hmore : ∀ p ∈ more, p.message.isNeutral = true) :
    Told log role (put ++ more) := by
  rcases role with _ | _ | _
  · intro p hp
    rcases List.mem_append.mp hp with hp | hp
    · exact h p hp
    · exact hmore p hp
  · exact chained_append.mpr ⟨h, chained_neutral hmore⟩
  · trivial

theorem UpToDate.neutral (h : UpToDate log produced role put)
    (hmore : ∀ p ∈ more, p.message.isNeutral = true) :
    UpToDate log produced role (put ++ more) := by
  rcases role with _ | _ | _
  · trivial
  · show reached none (put ++ more) = _
    rw [reached, List.foldl_append]
    exact (reached_neutral hmore).trans h
  · obtain ⟨n, hn, hdrawn⟩ := h
    refine ⟨n, hn, ?_⟩
    rw [drawn, List.foldl_append, drawn_neutral hmore]
    exact hdrawn

def Taken (log produced : Bytes) (p : Put) : Prop :=
  ∃ repaint size pid attached runStart,
    p = ⟨.snapshot repaint size pid attached runStart log.length, produced.length, log.length⟩

theorem Taken.stamped {p : Put} (hp : Taken log produced p) : Stamped [p] := by
  obtain ⟨repaint, size, pid, attached, runStart, rfl⟩ := hp
  intro q hq repaint' size' pid' attached' runStart' logEnd hm
  rw [List.mem_singleton.mp hq] at hm ⊢
  simp only [HolderMessage.snapshot.injEq] at hm
  exact hm.2.2.2.2.2.symm

/-- A snapshot taken now brings an introduced client up to date. -/
theorem Told.snapshot {role : ClientRole} (h : Told log none put ∨ Told log (some role) put)
    {p : Put} (hp : Taken log produced p) :
    Told log (some role) (put ++ [p]) ∧ UpToDate log produced (some role) (put ++ [p]) := by
  obtain ⟨repaint, size, pid, attached, runStart, rfl⟩ := hp
  cases role with
  | supervisor =>
    have hput : Chained log none put := h.elim chained_neutral id
    refine ⟨chained_append.mpr ⟨hput, trivial, trivial⟩, ?_⟩
    show reached none (put ++ _) = _
    rw [reached, List.foldl_append]
    rfl
  | attach readOnly =>
    refine ⟨trivial, produced.length, Nat.le_refl _, ?_⟩
    rw [drawn, List.foldl_append]
    simp [Put.draw]

end Put

namespace Client

def Sound (log : Bytes) (e : Client) : Prop := Stamped e.put ∧ Told log e.role e.put

def Good (log produced : Bytes) (e : Client) : Prop :=
  e.Sound log ∧ UpToDate log produced e.role e.put

variable {log produced : Bytes} {e e' : Client}

theorem Good.congr (h : e.Good log produced) (hrole : e'.role = e.role) (hput : e'.put = e.put) :
    e'.Good log produced := by
  unfold Good Sound at *
  rwa [hrole, hput]

theorem Sound.congr (h : e.Sound log) (hrole : e'.role = e.role) (hput : e'.put = e.put) :
    e'.Sound log := by
  unfold Sound at *
  rwa [hrole, hput]

theorem Good.neutral (h : e.Good log produced) {m : HolderMessage} (hm : m.isNeutral = true)
    {p : Put} (hp : p.message = m) (hrole : e'.role = e.role) (hput : e'.put = e.put ++ [p]) :
    e'.Good log produced := by
  have hone : ∀ q ∈ [p], q.message.isNeutral = true := by simp [hp, hm]
  unfold Good Sound
  rw [hrole, hput]
  exact ⟨⟨h.1.1.append (stamped_neutral hone), h.1.2.neutral hone⟩, h.2.neutral hone⟩

theorem Good.unintroduced (h : e.Good log produced) (hrole : e.role = none) (log' produced' : Bytes) :
    e.Good log' produced' := by
  unfold Good Sound at *
  rw [hrole] at h ⊢
  exact h

/-- Output that goes on from the log's old end, put in an up-to-date outbox: a supervisor's frame
carries what was logged, an attached terminal's what the child wrote. -/
theorem Good.output {held bytes sent : Bytes} (hg : e.Good log produced)
    (hsup : e.role = some .supervisor → sent = held)
    (hatt : ∀ readOnly, e.role = some (.attach readOnly) → sent = bytes) (hintro : e.role ≠ none)
    (hrole : e'.role = e.role)
    (hput : e'.put = e.put ++ [⟨.output log.length sent, (produced ++ bytes).length,
      (log ++ held).length⟩]) : e'.Good (log ++ held) (produced ++ bytes) := by
  obtain ⟨role, hr⟩ := Option.ne_none_iff_exists'.mp hintro
  obtain ⟨⟨hstamped, htold⟩, hup⟩ := hg
  unfold Good Sound
  rw [hrole, hput]
  have hstamp : Stamped [⟨.output log.length sent, (produced ++ bytes).length,
      (log ++ held).length⟩] := by
    intro p hp repaint size pid attached runStart logEnd hm
    rw [List.mem_singleton.mp hp] at hm
    cases hm
  rw [hr] at htold hup ⊢
  refine ⟨⟨hstamped.append hstamp, ?_⟩, ?_⟩
  · cases role with
    | supervisor =>
      obtain rfl := hsup hr
      have hreached : reached none e.put = some log.length := hup
      refine chained_append.mpr ⟨Chained.grow _ htold, ⟨hreached, ?_⟩, trivial⟩
      exact (extract_append_length log sent).symm
    | attach readOnly => trivial
  · cases role with
    | supervisor =>
      obtain rfl := hsup hr
      have hreached : reached none e.put = some log.length := hup
      show reached none (e.put ++ _) = _
      rw [reached, List.foldl_append]
      show (reached none e.put).map _ = _
      simp [hreached]
    | attach readOnly =>
      obtain rfl := hatt readOnly hr
      obtain ⟨n, hn, hdrawn⟩ := hup
      refine ⟨n, by simp; omega, ?_⟩
      rw [drawn, List.foldl_append]
      show (drawn e.put).map _ = _
      simp [hdrawn, List.drop_append_of_le_length hn]

end Client

end Muster.Holder
