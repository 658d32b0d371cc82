import KcpServer.Core.RoomFrames

/-!
# The clock of a room

`roomObj::Update` of a room whose frames only its clock ends: the first call starts the clock (`updateRoom_first`), a later
one adds the time since the one before and emits a frame for every full tick (`updateRoom_next`). With a tick of 0 it
never returns.
-/

namespace KcpServer
open Lib

/-- The milliseconds from one `unsigned` time to another. -/
def between (last ms : Nat) : Nat := uint32 (ms - last : Int)

namespace Room

/-! ## A running room -/

/-- A room whose frames only its clock ends. -/
structure Running (R : Room) : Prop where
  gate : R.gateOver = false
  run : R.brun = true
  players : R.ridPMap.size ≠ 0
  unended : R.endFrameId = 2147483648
  tick : 0 < R.frameTick

/-- Starting the clock is no matter for anything else. -/
theorem Running.timed {R : Room} (h : R.Running) (lastMs accMs : Nat) : { R with lastMs, accMs }.Running :=
  ⟨h.gate, h.run, h.players, h.unended, h.tick⟩

theorem size_ridPMap_enter (R : Room) (players : Heap Player) (p : Nat) (pconn : Option Nat) :
    (R.enter players p pconn).ridPMap.size ≠ 0 := by
  intro hsize
  have hempty : (R.enter players p pconn).ridPMap.isEmpty = true := by
    rw [Std.TreeMap.isEmpty_eq_size_eq_zero, hsize]
    rfl
  exact absurd Std.TreeMap.mem_insert_self (Std.TreeMap.not_mem_of_isEmpty hempty)

end Room

theorem RoomMgr.emitFrames_room {m m' : RoomMgr} {r accMs accMs' : Nat} {outs : List Out}
    (heq : m.emitFrames r accMs = .ok (m', accMs', outs)) : ∃ pt2001 allOperMap frameId,
      m'.rooms r = { m.rooms r with pt2001, allOperMap, frameId } := by
  refine emitFrames_invariant (I := fun m' _ => ∃ pt2001 allOperMap frameId,
    m'.rooms r = { m.rooms r with pt2001, allOperMap, frameId }) [] heq ⟨_, _, _, rfl⟩ ?_
  rintro m₁ m₂ - out ⟨pt2001, allOperMap, frameId, hroom⟩ hemit
  obtain ⟨-, -, msgs, f, f', rfl⟩ := emitFrame_eq hemit
  rw [RoomMgr.modify_self]
  show ∃ _ _ _, (m₁.rooms r).record f f' = _
  rw [hroom]
  exact ⟨_, _, _, rfl⟩

namespace GameNode
variable {g : GameNode} {t ms : Nat}

/-- The first `Update` of a running room starts the clock. -/
theorem updateRoom_first (hrun : (g.room t).Running) (hlast : (g.room t).lastMs = 0) :
    g.updateRoom t ms = .ok (g.modifyRoom t ({ · with lastMs := ms, accMs := 0 }), 0, []) :=
  updateRoom_of_updated (.first hrun.gate hrun.run hrun.players hlast)

/-- Later ones add the time since the last one, and emit a frame for every full tick. -/
theorem updateRoom_next (hown : g.rm.Owned) (hrun : (g.room t).Running) (hlast : (g.room t).lastMs ≠ 0)
    (hacc : (g.room t).accMs + between (g.room t).lastMs ms < 2 ^ 32)
    (hmax : (g.room t).frameId +
      (((g.room t).accMs + between (g.room t).lastMs ms) / (g.room t).frameTick : Nat) < 2 ^ 31) :
    ∃ g' outs, g.updateRoom t ms = .ok (g', 0, outs) ∧ (g'.room t).Running ∧
      (g'.room t).frameTick = (g.room t).frameTick ∧ (g'.room t).lastMs = ms ∧
      (g'.room t).frameId =
        (g.room t).frameId + (((g.room t).accMs + between (g.room t).lastMs ms) / (g.room t).frameTick : Nat) ∧
      (g'.room t).accMs = ((g.room t).accMs + between (g.room t).lastMs ms) % (g.room t).frameTick ∧
      (g'.room t).ridPMap = (g.room t).ridPMap ∧ g'.pm = g.pm := by
  have hwrap : uint32 ((g.room t).accMs + (ms - (g.room t).lastMs : Int)) =
      (g.room t).accMs + between (g.room t).lastMs ms := by
    unfold between uint32 at *
    omega
  obtain ⟨m, outs, hemit, -, hid, -, -⟩ := hown.emitFrames_ok _ hrun.tick hmax
  obtain ⟨pt2001, allOperMap, frameId, hroom⟩ := RoomMgr.emitFrames_room hemit
  set acc := ((g.room t).accMs + between (g.room t).lastMs ms) % (g.room t).frameTick
  have hadv : g.rm.advance t ms = .ok (m.modify t ({ · with accMs := acc, lastMs := ms }), outs) := by
    simp only [RoomMgr.advance, hwrap, hemit]
  have hself : (m.modify t ({ · with accMs := acc, lastMs := ms })).rooms t =
      { g.room t with pt2001, allOperMap, frameId, accMs := acc, lastMs := ms } := by
    rw [RoomMgr.modify_self, hroom]
  refine ⟨{ g with rm := m.modify t ({ · with accMs := acc, lastMs := ms }) }, outs, ?_, ?_, ?_, ?_, ?_, ?_, ?_,
    rfl⟩
  · refine updateRoom_of_updated (.tick hrun.gate hrun.run hrun.players hlast hadv (Or.inr ?_))
    rw [hself]
    exact hrun.unended
  · rw [room, hself]
    exact ⟨hrun.gate, hrun.run, hrun.players, hrun.unended, hrun.tick⟩
  · rw [room, hself]
  · rw [room, hself]
  · rw [room, hself, ← hid, hroom]
  · rw [room, hself]
  · rw [room, hself]

theorem frameTick_updateRoom {g' : GameNode} {ret : Int} {outs : List Out} (heq : g.updateRoom t ms = .ok (g', ret, outs)) :
    (g'.room t).frameTick = (g.room t).frameTick := by
  have hadvance : ∀ {rm outs}, g.rm.advance t ms = .ok (rm, outs) → (rm.rooms t).frameTick = (g.room t).frameTick := by
    intro rm outs hadv
    refine RoomMgr.advance_invariant (I := fun m (_ : List Out) => (m.rooms t).frameTick = (g.room t).frameTick) hadv rfl
      ?_ ?_
    · intro m₁ m₂ pre out htick hout
      obtain ⟨-, -, msgs, f, f', rfl⟩ := RoomMgr.emitFrame_eq hout
      rw [RoomMgr.modify_self]
      exact htick
    · intro m₁ accMs htick
      rw [RoomMgr.modify_self]
      exact htick
  cases updated_of_updateRoom heq with
  | gate hgate => rw [room, rawOver_rm, RoomMgr.modify_self]
  | idle hgate hidle => rfl
  | first hgate hrun hsize hms => rw [room, modifyRoom, RoomMgr.modify_self]
  | tick hgate hrun hsize hms hadv hend => exact hadvance hadv
  | finish hgate hrun hsize hms hadv hend =>
    rw [room, rawOver_rm, RoomMgr.modify_self]
    exact hadvance hadv

end GameNode

/-! ## A tick of 0 -/

/-- The loop goes on for ever only where the tick is 0. -/
theorem RoomMgr.frameTick_of_diverge {m : RoomMgr} {r accMs : Nat} (h : m.emitFrames r accMs = .error .diverge) :
    (m.rooms r).frameTick = 0 := by
  induction accMs using Nat.strong_induction_on generalizing m with
  | _ accMs ih =>
    rw [emitFrames] at h
    split at h
    · cases h
    · next hge =>
      split at h
      · next htick => exact htick
      · next htick =>
        split at h
        · next e hemit =>
          unfold emitFrame at hemit
          dsimp only at hemit
          split at hemit <;> cases hemit
          cases h
        · next m' out hemit =>
          obtain ⟨-, -, msgs, f, f', rfl⟩ := emitFrame_eq hemit
          split at h
          · next e hrest =>
            cases h
            have hkept := ih _ (by omega) hrest
            rw [RoomMgr.modify_self] at hkept
            exact hkept
          · cases h

namespace GameNode
variable {g : GameNode} {t ms : Nat}

theorem frameTick_of_diverge (h : g.updateRoom t ms = .error .diverge) : (g.room t).frameTick = 0 := by
  unfold updateRoom at h
  dsimp only at h
  split at h
  · cases h
  split at h
  · cases h
  split at h
  · cases h
  split at h
  · cases h
  rcases bind_eq_error h with hadv | ⟨⟨rm, outs⟩, -, h⟩
  · unfold RoomMgr.advance at hadv
    dsimp only at hadv
    split at hadv
    · next e hemit =>
      cases hadv
      exact RoomMgr.frameTick_of_diverge hemit
    · cases hadv
  · dsimp only at h
    split at h <;> cases h

theorem updateRoom_diverge (hgate : (g.room t).gateOver = false) (hrun : (g.room t).brun = true)
    (hsize : (g.room t).ridPMap.size ≠ 0) (hlast : (g.room t).lastMs ≠ 0) (htick : (g.room t).frameTick = 0) :
    g.updateRoom t ms = .error .diverge := by
  have hadv : g.rm.advance t ms = .error .diverge := by
    unfold RoomMgr.advance
    dsimp only
    rw [RoomMgr.emitFrames, if_neg (by rw [htick]; exact Nat.not_lt_zero _), if_pos htick]
  unfold updateRoom
  dsimp only
  rw [if_neg (by simp [hgate]), if_neg (by simp [hrun]), if_neg hsize, if_neg hlast, hadv]
  rfl

end GameNode

end KcpServer
