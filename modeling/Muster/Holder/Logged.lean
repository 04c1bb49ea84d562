import Muster.Holder.Server
import Muster.Log.FailingIo

/-!
# Logged — what the holder hands on as logged, and what it hands on apart

The holder appends what the screen gate keeps of a chunk, and tells its supervisor what the log took
and, where an operation failed, the rest.
-/

namespace Muster.Holder

open Muster.Log

variable {τ : Type}

/-- What is left over of a chunk the log did not take whole. -/
def unloggedOf (logged held : Bytes) (failed : Bool) : Bytes :=
  if failed then logged.drop held.length else []

theorem take_append_unloggedOf {logged held : Bytes} {ok : Bool}
    (hheld : held <+: logged ++ endOpenLine) (hok : ok = true → logged <+: held) :
    held.take logged.length ++ unloggedOf logged held (!ok) = logged := by
  cases ok with
  | true =>
    rw [← List.prefix_iff_eq_take.1 (hok rfl)]
    exact List.append_nil logged
  | false =>
    have htake : held.take logged.length = logged.take held.length := by
      obtain ⟨rest, hrest⟩ := hheld
      have hboth := congrArg (List.take (min logged.length held.length)) hrest
      rw [List.take_append_of_le_length (Nat.min_le_right ..),
        List.take_append_of_le_length (Nat.min_le_left ..), ← List.take_take,
        List.take_length, Nat.min_comm, ← List.take_take, List.take_length] at hboth
      exact hboth
    rw [htake]
    exact List.take_append_drop ..

/-- **What a held append says.**  From every state of an open log, whatever failed before and
whatever fails now: what it returns as held is the start of the chunk and the line end after it, is
what the log's files hold after what they held, and is how far the end moved.  Output that does not
reset the emulator is handed on as held and unlogged parts that make up what the gate kept; output
that does resyncs every client instead. -/
theorem held_append_exact {s₀ s : OpenLog} (h₀ : s₀.Opened) (hr : OpenLog.machine.Reaches s₀ s)
    {io : HeldIo} {fresh next : Inode} {logged : Bytes}
    (henabled : OpenLog.machine.Enabled s (.appendHeld logged io fresh next)) :
    (s.appendHeld io fresh next logged).2.1 <+: logged ++ endOpenLine ∧
      (s.appendHeld io fresh next logged).1.stream =
        s.stream ++ (s.appendHeld io fresh next logged).2.1 ∧
      (s.appendHeld io fresh next logged).1.log.stop =
        s.log.stop + (s.appendHeld io fresh next logged).2.1.length ∧
      ∀ (τ : Type) (P : Platform τ) (server : Server τ) (bytes : Bytes) (held : Held),
        (P.process server.terminal bytes).logged = logged →
        held.bytes bytes = (s.appendHeld io fresh next logged).2.1 →
        ∃ unlogged, (held.bytes bytes).take logged.length ++ unlogged = logged ∧
          server.onOutput P bytes held (!(s.appendHeld io fresh next logged).2.2) =
            if (P.process server.terminal bytes).reset then
              Server.resyncAll P
                { server.absorb P bytes with
                  log := (server.absorb P bytes).log ++ held.bytes bytes
                  resetWarning := if (server.absorb P bytes).resetWarning = .unneeded then .pending
                    else (server.absorb P bytes).resetWarning }
            else
              let sent := Server.broadcastOutput P
                { server.absorb P bytes with log := (server.absorb P bytes).log ++ held.bytes bytes }
                (server.absorb P bytes).log.length bytes held
              if unlogged = [] then sent
              else sent.broadcastTo P (· = .supervisor) (.unlogged unlogged) := by
  obtain ⟨hheld, hwrote, hok⟩ := OpenLog.wrote_appendHeld (h₀.holds_of_reaches hr) henabled
  refine ⟨hheld, hwrote.stream, hwrote.stop, fun τ P server bytes held hlogged hbytes => ?_⟩
  rw [← hbytes] at hheld hok
  refine ⟨_, take_append_unloggedOf hheld hok, ?_⟩
  subst hlogged
  rfl

/-- A terminal that logs every byte, and whether it fails on each. -/
def failing (reset : Bool) : Platform Unit where
  process := fun _ bytes => ⟨(), reset, [], bytes⟩
  setSize := fun _ _ => ()
  repaint := fun _ => []
  jsonLen := fun _ => 0

def supervisedBy (P : Platform Unit) : Server Unit :=
  ((Server.new () ⟨24, 80⟩ 7 [] 0 [] []).onConnected 0 true []).onHello P 0 .supervisor

def renameFails : HeldIo := { HeldIo.works with append := ⟨none, ⟨false, true, true⟩, none⟩ }

theorem held_append_exact_of_refused :
    (OpenLog.fullLog.appendHeld renameFails 2 3 [65]).2 = ([], false) ∧
      ((((supervisedBy (failing false)).onOutput (failing false) [65] (.other []) true).clients 0).map
        Client.put) = some [⟨.snapshot [] ⟨24, 80⟩ 7 0 0 0, 0, 0⟩, ⟨.unlogged [65], 1, 0⟩] := by
  have hheld : (OpenLog.fullLog.appendHeld renameFails 2 3 [65]).2 = ([], false) := by decide
  have henabled : OpenLog.machine.Enabled OpenLog.fullLog (.appendHeld [65] renameFails 2 3) := by decide
  obtain ⟨-, -, -, hhanded⟩ := held_append_exact OpenLog.fullLog_opened .refl henabled
  obtain ⟨unlogged, hparts, hout⟩ := hhanded Unit (failing false) (supervisedBy (failing false)) [65]
    (.other []) rfl (congrArg Prod.fst hheld).symm
  have hrest : unlogged = [65] := hparts
  rw [hheld, hrest] at hout
  refine ⟨hheld, ?_⟩
  rw [show true = !([], false).2 from rfl, hout]
  decide

/-- Where the emulator fails on the chunk, neither part is handed on: the supervisor is sent the
screen and the warning, and the byte the log did not take is nowhere. -/
theorem held_append_lost_by_reset :
    (OpenLog.fullLog.appendHeld renameFails 2 3 [65]).2 = ([], false) ∧
      ((failing true).process (supervisedBy (failing true)).terminal [65]).logged = [65] ∧
      ((((supervisedBy (failing true)).onOutput (failing true) [65] (.other []) true).clients 0).map
        Client.put) = some [⟨.snapshot [] ⟨24, 80⟩ 7 0 0 0, 0, 0⟩,
          ⟨.snapshot [] ⟨24, 80⟩ 7 0 0 0, 1, 0⟩, ⟨.warning screenResetWarning, 1, 0⟩] := by
  decide

end Muster.Holder
