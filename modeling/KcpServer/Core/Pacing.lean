import KcpServer.Core.FrameLog
import KcpServer.Core.RoomLedger

/-!
# Pacing

`roomObj::Update` is called at times of a 32-bit clock. However these are spaced, a running room emits a frame for every
full tick between the first and the last (`pacing`), provided the clock never advances by half its range at once.

The tick is the upper half of a number in `NewRoom`. `terminates_iff`: where that half is 0 the loop does not end.
-/

namespace KcpServer
open Lib

/-! ## Times -/

def elapsed : List Nat → Nat
  | last :: ms :: times => between last ms + elapsed (ms :: times)
  | _ => 0

@[simp] theorem elapsed_singleton (ms : Nat) : elapsed [ms] = 0 := rfl

@[simp] theorem elapsed_cons_cons (last ms : Nat) (times : List Nat) :
    elapsed (last :: ms :: times) = between last ms + elapsed (ms :: times) := rfl

/-- Times of a 32-bit clock other than 0, each less than `2 ^ 31` ms after the one before. -/
structure Paced (times : List Nat) : Prop where
  unsigned : ∀ ms ∈ times, ms ≠ 0 ∧ ms < 2 ^ 32
  spaced : times.IsChain fun last ms => between last ms < 2 ^ 31

theorem Paced.tail {ms : Nat} {times : List Nat} (h : Paced (ms :: times)) : Paced times :=
  ⟨fun x hx => h.unsigned x (List.mem_cons_of_mem _ hx), h.spaced.tail⟩

/-- A rest that is carried over counts as it would have counted at once. -/
theorem div_carry {T : Nat} (hT : 0 < T) (a e : Nat) : a / T + (a % T + e) / T = (a + e) / T := by
  have hsplit : a + e = (a % T + e) + T * (a / T) := by
    have := Nat.mod_add_div a T
    omega
  rw [hsplit, Nat.add_mul_div_left _ _ hT, Nat.add_comm]

namespace Room

/-! ## Rooms -/

/-- Nothing of the clock has changed. -/
structure Untimed (R R' : Room) : Prop where
  frameId : R'.frameId = R.frameId
  lastMs : R'.lastMs = R.lastMs
  accMs : R'.accMs = R.accMs
  frameTick : R'.frameTick = R.frameTick
  gateOver : R'.gateOver = R.gateOver
  endFrameId : R'.endFrameId = R.endFrameId
  run : R.brun = true → R'.brun = true
  players : R.ridPMap.size ≠ 0 → R'.ridPMap.size ≠ 0

variable {R R' R'' : Room}

theorem Untimed.refl (R : Room) : Untimed R R := ⟨rfl, rfl, rfl, rfl, rfl, rfl, id, id⟩

theorem Untimed.trans (h : Untimed R R') (h' : Untimed R' R'') : Untimed R R'' where
  frameId := h'.frameId.trans h.frameId
  lastMs := h'.lastMs.trans h.lastMs
  accMs := h'.accMs.trans h.accMs
  frameTick := h'.frameTick.trans h.frameTick
  gateOver := h'.gateOver.trans h.gateOver
  endFrameId := h'.endFrameId.trans h.endFrameId
  run hrun := h'.run (h.run hrun)
  players hsize := h'.players (h.players hsize)

theorem Untimed.running (h : Untimed R R') (hrun : R.Running) : R'.Running where
  gate := h.gateOver.trans hrun.gate
  run := h.run hrun.run
  players := h.players hrun.players
  unended := h.endFrameId.trans hrun.unended
  tick := h.frameTick ▸ hrun.tick

theorem untimed_setReady (R : Room) : Untimed R R.setReady := ⟨rfl, rfl, rfl, rfl, rfl, rfl, fun _ => rfl, id⟩

theorem untimed_pending (R : Room) (f : Nat) : Untimed R { R with pt2001 := some f } :=
  ⟨rfl, rfl, rfl, rfl, rfl, rfl, id, id⟩

theorem untimed_enter (R : Room) (players : Heap Player) (p : Nat) (pconn : Option Nat) :
    Untimed R (R.enter players p pconn) :=
  ⟨rfl, rfl, rfl, rfl, rfl, rfl, id, fun _ => R.size_ridPMap_enter players p pconn⟩

end Room

namespace LogWorld

/-! ## Histories -/

/-- The clock of the room is read by `Update` alone. -/
def Undisturbed (t : Nat) : LogOp → Prop
  | .call r (.init _) | .call r (.updateDelta _) | .call r (.setOver _) | .call r .finnal => r ≠ t
  | _ => True

def updateTime (t : Nat) : LogOp → Option Nat
  | .call r (.update ms) => if r = t then some ms else none
  | _ => none

def updates (t : Nat) (os : List LogOp) : List Nat := os.filterMap (updateTime t)

theorem Undisturbed.lasts {t : Nat} {o : LogOp} (h : Undisturbed t o) : Lasts t o := by
  unfold Lasts
  split
  · exact h
  · exact h
  · trivial

theorem updateTime_eq_some {t ms : Nat} {o : LogOp} : updateTime t o = some ms ↔ o = .call t (.update ms) := by
  constructor
  · intro h
    unfold updateTime at h
    split at h
    · next r ms' =>
      split at h
      · next hr =>
        cases h
        rw [hr]
      · cases h
    · cases h
  · rintro rfl
    exact if_pos rfl

section Steps
variable {pb : Pb} {t : Nat}

theorem room_call {g g' : GameNode} {r : Nat} {c : RoomCall} {outs : List Out} (hr : t ≠ r)
    (heq : g.call pb r c = .ok (g', outs)) : g'.room t = g.room t := by
  have hpush : ∀ (m : RoomMgr) cmd, (m.pushCmd r cmd).rooms t = m.rooms t := by
    intro m cmd
    obtain ⟨msgs, f, hpush⟩ := m.pushCmd_eq r cmd
    rw [hpush]
    exact RoomMgr.modify_of_ne _ hr _
  have hadvance : ∀ {ms rm outs}, g.rm.advance r ms = .ok (rm, outs) → rm.rooms t = g.room t := by
    intro ms rm outs hadv
    obtain ⟨⟨msgs, R', rfl, -⟩, -⟩ := RoomMgr.advance_eq hadv
    exact Heap.set_of_ne _ hr _
  cases c with
  | enterP p pconn =>
    cases heq
    exact (RoomMgr.entered_enterP g.rm g.pm.players r p pconn).others t hr
  | leaveP p =>
    cases heq
    exact hpush _ _
  | frameCmd pid body =>
    cases heq
    show (g.rm.frameCmd pb r pid body).rooms t = _
    rw [RoomMgr.frameCmd_eq]
    split
    · exact hpush _ _
    · rfl
  | update ms =>
    obtain ⟨⟨g₁, ret, outs₁⟩, hup, heq⟩ := bind_eq_ok.mp heq
    cases heq
    cases GameNode.updated_of_updateRoom hup with
    | gate hgate => rw [GameNode.room, GameNode.rawOver_rm, RoomMgr.modify_of_ne _ hr]
    | idle hgate hidle => rfl
    | first hgate hrun hsize hms => exact RoomMgr.modify_of_ne _ hr _
    | tick hgate hrun hsize hms hadv hend => exact hadvance hadv
    | finish hgate hrun hsize hms hadv hend =>
      rw [GameNode.room, GameNode.rawOver_rm, RoomMgr.modify_of_ne _ hr]
      exact hadvance hadv
  | getFramesData p body =>
    cases heq
    rfl
  | getCacheFrames p beginid =>
    cases heq
    rfl
  | _ =>
    cases heq
    exact RoomMgr.modify_of_ne _ hr _

theorem untimed_pushCmd (m : RoomMgr) (t : Nat) (cmd : Cmd) : (m.rooms t).Untimed ((m.pushCmd t cmd).rooms t) := by
  obtain ⟨msgs, f, hpush⟩ := m.pushCmd_eq t cmd
  rw [hpush, RoomMgr.modify_self]
  exact Room.untimed_pending _ f

theorem untimed_enterP (m : RoomMgr) (players : Heap Player) (t p : Nat) (pconn : Option Nat) :
    (m.rooms t).Untimed ((m.enterP players t p pconn).rooms t) := by
  refine ((m.rooms t).untimed_enter players p pconn).trans ?_
  rw [← RoomMgr.modify_self m t (·.enter players p pconn)]
  exact untimed_pushCmd _ t _

theorem untimed_call {g g' : GameNode} {c : RoomCall} {outs : List Out} (hund : Undisturbed t (.call t c))
    (hnone : updateTime t (.call t c) = none) (heq : g.call pb t c = .ok (g', outs)) :
    (g.room t).Untimed (g'.room t) := by
  cases c with
  | init roomid => exact absurd rfl hund
  | updateDelta delta => exact absurd rfl hund
  | setOver force => exact absurd rfl hund
  | finnal => exact absurd rfl hund
  | update ms => exact absurd (hnone.symm.trans (updateTime_eq_some.mpr rfl)) (by simp)
  | enterP p pconn =>
    cases heq
    exact untimed_enterP _ _ t p pconn
  | leaveP p =>
    cases heq
    exact untimed_pushCmd _ t _
  | frameCmd pid body =>
    cases heq
    show (g.room t).Untimed ((g.rm.frameCmd pb t pid body).rooms t)
    rw [RoomMgr.frameCmd_eq]
    split
    · exact untimed_pushCmd _ t _
    · exact .refl _
  | getFramesData p body =>
    cases heq
    exact .refl _
  | getCacheFrames p beginid =>
    cases heq
    exact .refl _
  | setReady =>
    cases heq
    show (g.room t).Untimed ((g.rm.modify t (·.setReady)).rooms t)
    rw [RoomMgr.modify_self]
    exact Room.untimed_setReady _

theorem untimed_step {w w' : LogWorld} {o : LogOp} (hund : Undisturbed t o)
    (hnone : updateTime t o = none) (heq : w.step pb t o = .ok w') : (w.node.room t).Untimed (w'.node.room t) := by
  cases stepped heq with
  | own hcall => exact untimed_call hund hnone hcall
  | @other r c node outs hr hcall =>
    show Room.Untimed _ (node.room t)
    rw [room_call hr hcall]
    exact .refl _
  | others kcp pm => exact .refl _

/-- A call of a method of the room itself, or something that happens to players and sessions. -/
def Own (t : Nat) : LogOp → Prop
  | .call r _ => r = t
  | .others _ _ => True

/-- Only `Update` can fail. -/
theorem step_ok {w : LogWorld} {o : LogOp} (hown : Own t o) (hnone : updateTime t o = none) :
    ∃ w', w.step pb t o = .ok w' := by
  cases o with
  | call r c =>
    obtain rfl : r = t := hown
    have hcall : ∃ res, w.node.call pb r c = .ok res := by
      cases c with
      | update ms => exact absurd (hnone.symm.trans (updateTime_eq_some.mpr rfl)) (by simp)
      | _ => exact ⟨_, rfl⟩
    obtain ⟨⟨node, outs⟩, hcall⟩ := hcall
    exact ⟨_, step_own hcall⟩
  | others kcp pm => exact ⟨_, rfl⟩

/-- A room whose clock has been started. -/
structure Ticking (t : Nat) (w : LogWorld) : Prop where
  inv : Inv t w.node.rm w.accepted w.sent
  running : (w.node.room t).Running
  short : (w.node.room t).frameTick < 2 ^ 31
  started : (w.node.room t).lastMs ≠ 0
  rest : (w.node.room t).accMs < (w.node.room t).frameTick

def total (R : Room) (times : List Nat) : Nat := R.accMs + elapsed (R.lastMs :: times)

structure After (R : Room) (n : Nat) (R' : Room) : Prop where
  frameId : R'.frameId = R.frameId + (n / R.frameTick : Nat)
  accMs : R'.accMs = n % R.frameTick

theorem Ticking.untimed {w w' : LogWorld} {o : LogOp} (h : Ticking t w) (hund : Undisturbed t o)
    (hnone : updateTime t o = none) (heq : w.step pb t o = .ok w') : Ticking t w' := by
  have hroom := untimed_step hund hnone heq
  refine ⟨inv_step h.inv hund.lasts heq, hroom.running h.running, ?_, ?_, ?_⟩
  · rw [hroom.frameTick]
    exact h.short
  · rw [hroom.lastMs]
    exact h.started
  · rw [hroom.accMs, hroom.frameTick]
    exact h.rest

theorem Ticking.update {w : LogWorld} {ms : Nat} (h : Ticking t w) (hms : ms ≠ 0)
    (hspaced : between (w.node.room t).lastMs ms < 2 ^ 31)
    (hmax : (w.node.room t).frameId + (total (w.node.room t) [ms] / (w.node.room t).frameTick : Nat) < 2 ^ 31) :
    ∃ w', w.step pb t (.call t (.update ms)) = .ok w' ∧ Ticking t w' ∧
      (w'.node.room t).frameTick = (w.node.room t).frameTick ∧ (w'.node.room t).lastMs = ms ∧
      After (w.node.room t) (total (w.node.room t) [ms]) (w'.node.room t) := by
  have hrest := h.rest
  have hshort := h.short
  obtain ⟨g', outs, hup, hrun, htick, hlast, hid, hacc, -⟩ := @GameNode.updateRoom_next _ _ ms h.inv.owned h.running
    h.started (by omega) hmax
  have hstep := step_own (GameNode.call_update pb hup)
  refine ⟨_, hstep, ⟨inv_step (o := .call t (.update ms)) h.inv trivial hstep, hrun, ?_, ?_, ?_⟩, htick, hlast, hid, hacc⟩
  · show (g'.room t).frameTick < 2 ^ 31
    rw [htick]
    exact h.short
  · show (g'.room t).lastMs ≠ 0
    rw [hlast]
    exact hms
  · show (g'.room t).accMs < (g'.room t).frameTick
    rw [hacc, htick]
    exact Nat.mod_lt _ h.running.tick

theorem After.trans {R R₁ R' : Room} {n e : Nat} (hT : 0 < R.frameTick) (h : After R n R₁)
    (htick : R₁.frameTick = R.frameTick) (h' : After R₁ (n % R.frameTick + e) R') : After R (n + e) R' := by
  constructor
  · rw [h'.frameId, h.frameId, htick, ← div_carry hT n e]
    push_cast
    omega
  · rw [h'.accMs, htick, Nat.mod_add_mod]

/-- The updates of a run add up, and only other rooms can make it fail. -/
theorem Ticking.run {os : List LogOp} {w : LogWorld} (h : Ticking t w) (hund : ∀ o ∈ os, Undisturbed t o)
    (hpaced : Paced ((w.node.room t).lastMs :: updates t os))
    (hmax : (w.node.room t).frameId +
      (total (w.node.room t) (updates t os) / (w.node.room t).frameTick : Nat) < 2 ^ 31) :
    RunsTo (step pb t) (Own t) w os fun w' =>
      After (w.node.room t) (total (w.node.room t) (updates t os)) (w'.node.room t) := by
  induction os generalizing w with
  | nil =>
    apply RunsTo.nil
    have hdiv : total (w.node.room t) [] = (w.node.room t).accMs := Nat.add_zero _
    show After _ (total _ []) _
    rw [hdiv]
    refine ⟨?_, (Nat.mod_eq_of_lt h.rest).symm⟩
    rw [Nat.div_eq_of_lt h.rest, Nat.cast_zero, add_zero]
  | cons o os ih =>
    have hundos : ∀ o ∈ os, Undisturbed t o := fun o' ho' => hund o' (by simp [ho'])
    cases htime : updateTime t o with
    | none =>
      have hupd : updates t (o :: os) = updates t os := List.filterMap_cons_none htime
      rw [hupd] at hpaced hmax ⊢
      refine .cons (fun hown => step_ok hown htime) fun w₁ hw₁ => ?_
      have hundo := hund o (by simp)
      have hroom := untimed_step hundo htime hw₁
      have htotal : total (w₁.node.room t) (updates t os) = total (w.node.room t) (updates t os) := by
        rw [total, hroom.accMs, hroom.lastMs]
        rfl
      refine (ih (h.untimed hundo htime hw₁) hundos (by rw [hroom.lastMs]; exact hpaced)
        (by rw [htotal, hroom.frameId, hroom.frameTick]; exact hmax)).imp ?_
      rintro w' - ⟨hid, hacc⟩
      rw [htotal, hroom.frameTick] at hid hacc
      rw [hroom.frameId] at hid
      exact ⟨hid, hacc⟩
    | some ms =>
      obtain rfl := updateTime_eq_some.mp htime
      have hupd : updates t (.call t (.update ms) :: os) = ms :: updates t os := List.filterMap_cons_some htime
      rw [hupd] at hpaced hmax ⊢
      have hsum : total (w.node.room t) (ms :: updates t os) =
          total (w.node.room t) [ms] + elapsed (ms :: updates t os) := by
        simp only [total, elapsed_cons_cons, elapsed_singleton]
        omega
      rw [hsum] at hmax ⊢
      rw [← div_carry h.running.tick, Nat.cast_add] at hmax
      have hpart : (0 : Int) ≤ ((total (w.node.room t) [ms] % (w.node.room t).frameTick + elapsed (ms :: updates t os)) /
        (w.node.room t).frameTick : Nat) := Int.natCast_nonneg _
      obtain ⟨w₁, hw₁, hticking, htick, hlast, hafter₁⟩ := @Ticking.update pb t w ms h
        (hpaced.unsigned ms (by simp)).1 (List.isChain_cons_cons.mp hpaced.spaced).1 (by linarith)
      refine .cons (fun _ => ⟨w₁, hw₁⟩) fun w₂ hw₂ => ?_
      cases hw₁.symm.trans hw₂
      have htotal : total (w₁.node.room t) (updates t os) =
          total (w.node.room t) [ms] % (w.node.room t).frameTick + elapsed (ms :: updates t os) := by
        rw [total, hafter₁.accMs, hlast]
      have hroom := ih hticking hundos (by rw [hlast]; exact hpaced.tail)
        (by rw [htotal, hafter₁.frameId, htick]; linarith)
      rw [htotal] at hroom
      exact hroom.imp fun w' _ => hafter₁.trans h.running.tick htick

/-- A room whose clock has not been started: what it has counted before is dropped. -/
theorem run_started {os : List LogOp} {w : LogWorld} (hinv : Inv t w.node.rm w.accepted w.sent)
    (hrun : (w.node.room t).Running) (hshort : (w.node.room t).frameTick < 2 ^ 31) (hlast : (w.node.room t).lastMs = 0)
    (hund : ∀ o ∈ os, Undisturbed t o) (hpaced : Paced (updates t os))
    (hmax : (w.node.room t).frameId + (elapsed (updates t os) / (w.node.room t).frameTick : Nat) < 2 ^ 31) :
    RunsTo (step pb t) (Own t) w os fun w' =>
      (w'.node.room t).frameId =
        (w.node.room t).frameId + (elapsed (updates t os) / (w.node.room t).frameTick : Nat) ∧
      (updates t os ≠ [] → (w'.node.room t).accMs = elapsed (updates t os) % (w.node.room t).frameTick) := by
  induction os generalizing w with
  | nil =>
    apply RunsTo.nil
    refine ⟨?_, fun hne => absurd rfl hne⟩
    show _ = (w.node.room t).frameId + ((0 / _ : Nat) : Int)
    rw [Nat.zero_div, Nat.cast_zero, add_zero]
  | cons o os ih =>
    have hundos : ∀ o ∈ os, Undisturbed t o := fun o' ho' => hund o' (by simp [ho'])
    cases htime : updateTime t o with
    | none =>
      have hupd : updates t (o :: os) = updates t os := List.filterMap_cons_none htime
      rw [hupd] at hpaced hmax ⊢
      refine .cons (fun hown => step_ok hown htime) fun w₁ hw₁ => ?_
      have hundo := hund o (by simp)
      have hroom := untimed_step hundo htime hw₁
      have hrest := ih (inv_step hinv hundo.lasts hw₁) (hroom.running hrun) (by rw [hroom.frameTick]; exact hshort)
        (by rw [hroom.lastMs]; exact hlast) hundos hpaced (by rw [hroom.frameId, hroom.frameTick]; exact hmax)
      rwa [hroom.frameId, hroom.frameTick] at hrest
    | some ms =>
      obtain rfl := updateTime_eq_some.mp htime
      have hupd : updates t (.call t (.update ms) :: os) = ms :: updates t os := List.filterMap_cons_some htime
      rw [hupd] at hpaced hmax ⊢
      have hfirst := @GameNode.updateRoom_first _ _ ms hrun hlast
      have hstep := step_own (GameNode.call_update pb hfirst)
      refine .cons (fun _ => ⟨_, hstep⟩) fun w₁ hw₁ => ?_
      have hroom : w₁.node.room t = { w.node.room t with lastMs := ms, accMs := 0 } := by
        cases hstep.symm.trans hw₁
        exact RoomMgr.modify_self ..
      have hticking : Ticking t w₁ := by
        refine ⟨inv_step (o := .call t (.update ms)) hinv trivial hw₁, ?_, ?_, ?_, ?_⟩ <;> rw [hroom]
        · exact hrun.timed ms 0
        · exact hshort
        · exact (hpaced.unsigned ms (by simp)).1
        · exact hrun.tick
      have htotal : total (w₁.node.room t) (updates t os) = elapsed (ms :: updates t os) := by
        rw [total, hroom]
        exact Nat.zero_add _
      have hrest := @Ticking.run pb t os w₁ hticking hundos (by rw [hroom]; exact hpaced) (by rw [htotal, hroom]; exact hmax)
      rw [htotal, hroom] at hrest
      exact hrest.imp fun w' _ hafter => ⟨hafter.frameId, fun _ => hafter.accMs⟩

/-! ## The tick -/

def SameTick (t : Nat) : LogOp → Prop
  | .call r (.init _) | .call r (.updateDelta _) => r ≠ t
  | _ => True

theorem frameTick_call {g g' : GameNode} {c : RoomCall} {outs : List Out} (hsame : SameTick t (.call t c))
    (heq : g.call pb t c = .ok (g', outs)) : (g'.room t).frameTick = (g.room t).frameTick := by
  cases c with
  | init roomid => exact absurd rfl hsame
  | updateDelta delta => exact absurd rfl hsame
  | setOver force =>
    cases heq
    rw [GameNode.room, GameNode.modifyRoom, RoomMgr.modify_self]
    rfl
  | finnal =>
    cases heq
    show ((g.rm.finnal t).1.rooms t).frameTick = _
    rw [RoomMgr.finnal, RoomMgr.modify_self]
  | update ms =>
    obtain ⟨⟨g₁, ret, outs₁⟩, hup, heq⟩ := bind_eq_ok.mp heq
    cases heq
    exact GameNode.frameTick_updateRoom hup
  | _ =>
    refine (untimed_call ?_ ?_ heq).frameTick
    · trivial
    · rfl

theorem frameTick_step {w w' : LogWorld} {o : LogOp} (hsame : SameTick t o) (heq : w.step pb t o = .ok w') :
    (w'.node.room t).frameTick = (w.node.room t).frameTick := by
  cases stepped heq with
  | own hcall => exact frameTick_call hsame hcall
  | other hr hcall => exact congrArg Room.frameTick (room_call hr hcall)
  | others kcp pm => rfl

theorem Undisturbed.sameTick {o : LogOp} (h : Undisturbed t o) : SameTick t o := by
  unfold SameTick
  split
  · exact h
  · exact h
  · trivial

def Unsigned : LogOp → Prop
  | .call _ (.updateDelta delta) => delta < 2 ^ 32
  | _ => True

/-- A tick is the default or the upper half of an `unsigned`. -/
theorem frameTick_lt {g : GameNode} {roomid : Int} {w : LogWorld}
    (h : Reach (step pb t) (fun _ o => Lasts t o ∧ Unsigned o) (start g t roomid) w) :
    (w.node.room t).frameTick < 2 ^ 16 := by
  refine h.invariant (I := fun w => (w.node.room t).frameTick < 2 ^ 16) ?_ ?_
  · show ((g.rm.modify t (·.init roomid)).rooms t).frameTick < 2 ^ 16
    rw [RoomMgr.modify_self]
    show FRAME_TICK_MS < 2 ^ 16
    decide
  · intro w o w' hlt ⟨hlasts, hunsigned⟩ heq
    by_cases hsame : SameTick t o
    · rw [frameTick_step hsame heq]
      exact hlt
    · unfold SameTick at hsame
      split at hsame
      · exact absurd hlasts hsame
      · next r delta =>
        obtain rfl : r = t := not_not.mp hsame
        have hdelta : delta < 2 ^ 32 := hunsigned
        have hnode : w'.node.room r = (w.node.room r).updateDelta delta := by
          cases stepped heq with
          | own hcall =>
            cases hcall
            exact RoomMgr.modify_self ..
          | other hr hcall => exact absurd rfl hr
        rw [hnode]
        show delta / 65536 < 2 ^ 16
        omega
      · exact absurd trivial hsame

/-! ## The law -/

/-- Operations with updates that are few enough for the ids of their frames. -/
structure PacedOps (t : Nat) (R : Room) (os : List LogOp) : Prop where
  undisturbed : ∀ o ∈ os, Undisturbed t o
  paced : Paced (updates t os)
  bound : R.frameId + (elapsed (updates t os) / R.frameTick : Nat) < 2 ^ 31

/-- **Frames are paced by the clock.** A running room whose clock has not been started is updated at any times, among
anything else that does not concern its clock. After `E` ms it has sent `E / T` frames, numbered consecutively, and `E % T`
ms are left over; no call of its methods fails. So what it has sent depends on `E` alone. -/
theorem pacing {g : GameNode} (hg : Reach (GameNode.logStep pb) (fun _ _ => True) .new g) {roomid : Int} {w : LogWorld}
    (hw : Reach (step pb t) (fun _ o => Lasts t o ∧ Unsigned o) (start g t roomid) w) (hrun : (w.node.room t).Running)
    (hlast : (w.node.room t).lastMs = 0) :
    (∀ os, PacedOps t (w.node.room t) os → RunsTo (step pb t) (Own t) w os fun w' =>
      (w'.node.room t).frameId =
        (w.node.room t).frameId + (elapsed (updates t os) / (w.node.room t).frameTick : Nat) ∧
      (updates t os ≠ [] → (w'.node.room t).accMs = elapsed (updates t os) % (w.node.room t).frameTick) ∧
      ∃ new, w'.sent = w.sent ++ new ∧ new.map Prod.fst =
        List.range' (w.node.room t).frameId.toNat (elapsed (updates t os) / (w.node.room t).frameTick)) ∧
    ∀ os os' w₁ w₂, PacedOps t (w.node.room t) os → PacedOps t (w.node.room t) os' → updates t os ≠ [] →
      updates t os' ≠ [] → elapsed (updates t os) = elapsed (updates t os') →
      run (step pb t) w os = .ok w₁ → run (step pb t) w os' = .ok w₂ →
      (w₁.node.room t).frameId = (w₂.node.room t).frameId ∧ (w₁.node.room t).accMs = (w₂.node.room t).accMs := by
  have hlasts : Reach (step pb t) (fun _ o => Lasts t o) (start g t roomid) w := hw.mono fun _ _ h => h.1
  have hinv := inv_reach hg hlasts
  have hshort : (w.node.room t).frameTick < 2 ^ 31 := lt_trans (frameTick_lt hw) (by decide)
  have hruns : ∀ os, PacedOps t (w.node.room t) os → _ := fun os h =>
    @run_started pb t os w hinv hrun hshort hlast h.undisturbed h.paced h.bound
  refine ⟨fun os hos => ?_, fun os os' w₁ w₂ hos hos' hne hne' hE hw₁ hw₂ => ?_⟩
  · refine (hruns os hos).imp ?_
    rintro w' hw' ⟨hid, hacc⟩
    refine ⟨hid, hacc, ?_⟩
    have hreach := hlasts.run (fun _ o ho => (hos.undisturbed o ho).lasts) hw'
    have hinv' := inv_reach hg hreach
    have hreach' : Reach (step pb t) (fun _ o => Lasts t o) w w' :=
      Reach.refl.run (fun _ o ho => (hos.undisturbed o ho).lasts) hw'
    obtain ⟨new, hnew⟩ := prefix_sent hreach'
    refine ⟨new, hnew.symm, ?_⟩
    have hlen : (w.node.room t).frameId = w.sent.length := hinv.frameId
    have hlen' : (w'.node.room t).frameId = w'.sent.length := hinv'.frameId
    have hnew' : new = w'.sent.drop w.sent.length := by rw [← hnew, List.drop_left]
    have hsum : w'.sent.length - w.sent.length = elapsed (updates t os) / (w.node.room t).frameTick := by
      rw [hlen, hlen', ← Nat.cast_add] at hid
      rw [Int.ofNat_inj.mp hid, Nat.add_sub_cancel_left]
    rw [hnew', List.map_drop, hinv'.map_fst, List.range_eq_range', List.drop_range', hlen, Int.toNat_natCast, zero_add,
      Nat.mul_one, hsum]
  · obtain ⟨hid₁, hacc₁⟩ := (hruns os hos).2 w₁ hw₁
    obtain ⟨hid₂, hacc₂⟩ := (hruns os' hos').2 w₂ hw₂
    rw [hid₁, hid₂, hacc₁ hne, hacc₂ hne', hE]
    exact ⟨rfl, rfl⟩

theorem exists_ready (pb : Pb) (g : GameNode) (t : Nat) : ∃ w : LogWorld,
    Reach (step pb t) (fun _ o => Undisturbed t o ∧ Unsigned o) ⟨g, [], []⟩ w ∧ (g.room t).Untimed (w.node.room t) ∧
      (w.node.room t).brun = true ∧ (w.node.room t).ridPMap.size ≠ 0 := by
  set g₁ : GameNode := { g with rm := g.rm.enterP g.pm.players t 0 none }
  have henter : (g.room t).Untimed (g₁.room t) := untimed_enterP ..
  have hsize : (g₁.room t).ridPMap.size ≠ 0 := by
    show ((g.rm.enterP g.pm.players t 0 none).rooms t).ridPMap.size ≠ 0
    rw [(RoomMgr.same_enterP g.rm g.pm.players t 0 none).ridPMap]
    exact Room.size_ridPMap_enter _ _ _ _
  obtain ⟨c₁, hstep₁⟩ : ∃ c₁, step pb t ⟨g, [], []⟩ (.call t (.enterP 0 none)) = .ok ⟨g₁, c₁, []⟩ := ⟨_, if_pos rfl⟩
  have hroom : (g₁.modifyRoom t (·.setReady)).room t = (g₁.room t).setReady := RoomMgr.modify_self ..
  obtain ⟨c₂, hstep₂⟩ : ∃ c₂, step pb t ⟨g₁, c₁, []⟩ (.call t .setReady) =
      .ok ⟨g₁.modifyRoom t (·.setReady), c₂, []⟩ := ⟨_, if_pos rfl⟩
  have hreach := Reach.refl.step (P := fun _ o => Undisturbed t o ∧ Unsigned o) (o := LogOp.call t (.enterP 0 none))
    ⟨trivial, trivial⟩ hstep₁
  refine ⟨_, hreach.step (o := LogOp.call t .setReady) ⟨trivial, trivial⟩ hstep₂, ?_, ?_, ?_⟩ <;> rw [hroom]
  · exact henter.trans (Room.untimed_setReady _)
  · rfl
  · exact hsize

/-- A clock that is started 6 ms before it wraps, and read 16 and 106 ms later. -/
theorem pacing_wrap : ∃ (pb : Pb) (w w' : LogWorld), run (step pb 0) w
      [.call 0 (.update 4294967290), .call 0 (.update 10), .call 0 (.update 100)] = .ok w' ∧
    (w'.node.room 0).frameId = 1 ∧ (w'.node.room 0).accMs = 40 := by
  obtain ⟨w, hw, hroom, hready, hsize⟩ :=
    exists_ready ⟨fun _ => .clear, fun _ => [], fun _ => 0, fun _ => 0⟩ (start .new 0 1).node 0
  have htick : (w.node.room 0).frameTick = 66 := hroom.frameTick
  have hid : (w.node.room 0).frameId = 0 := hroom.frameId
  set os : List LogOp := [.call 0 (.update 4294967290), .call 0 (.update 10), .call 0 (.update 100)]
  have hops : PacedOps 0 (w.node.room 0) os := by
    refine ⟨?_, ⟨by decide, ?_⟩, ?_⟩
    · intro o ho
      simp only [os, List.mem_cons, List.not_mem_nil, or_false] at ho
      rcases ho with rfl | rfl | rfl <;> trivial
    · simp [os, updates, updateTime, between, uint32]
    · rw [htick, hid]
      decide
  obtain ⟨hok, hpaced⟩ := (pacing .refl (hw.mono fun _ _ h => ⟨h.1.lasts, h.2⟩)
    ⟨hroom.gateOver, hready, hsize, hroom.endFrameId, by rw [htick]; decide⟩ hroom.lastMs).1 os hops
  obtain ⟨w', hw'⟩ := hok (by
    intro o ho
    simp only [os, List.mem_cons, List.not_mem_nil, or_false] at ho
    rcases ho with rfl | rfl | rfl <;> rfl)
  obtain ⟨hid', hacc, -⟩ := hpaced w' hw'
  have hE : elapsed (updates 0 os) = 106 := by decide
  rw [htick, hE] at hid' hacc
  rw [hid] at hid'
  exact ⟨_, w, w', hw', hid', hacc (by decide)⟩

end Steps

end LogWorld

/-! ## The tick of `NewRoom` -/

namespace GameNode
variable {g : GameNode} {t : Nat}

/-- The enter loop does not concern the clock. -/
theorem untimed_enterNews (g : GameNode) (r : Nat) (es : List (Int × Nat × Int)) :
    (g.room r).Untimed ((g.enterNews r es).room r) := by
  induction es generalizing g with
  | nil => exact .refl _
  | cons e es ih =>
    obtain ⟨p, players, pool, -, heq⟩ := g.enterNew_eq r e.1 e.2.1 e.2.2
    refine Room.Untimed.trans ?_ (ih (g.enterNew r e.1 e.2.1 e.2.2))
    rw [heq]
    exact LogWorld.untimed_enterP ..

/-- An accepted `NewRoom` registers a room whose tick is the upper half of the number in the body. -/
theorem newRoom_accepted (g : GameNode) (pid : Nat) {body : Bytes} {b : NewRoomBody} (hbody : accepted body = some b) :
    ∃ g', g.newRoom pid body = .ok g' ∧ g'.rm.getRoom (int32 pid) = some g.rm.popRoom.1 ∧
      ((Room.new.init (int32 pid)).updateDelta b.delta).Untimed (g'.room g.rm.popRoom.1) := by
  obtain ⟨hparse, hlen⟩ := accepted_eq_some hbody
  set r := g.rm.popRoom.1
  set es := b.pidvec.zip (b.ridvec.zip b.campvec)
  obtain ⟨g', hnew⟩ : ∃ g', g.newRoom pid body = .ok g' := by
    rw [newRoom, hparse]
    exact ⟨_, if_pos hlen⟩
  obtain ⟨b', g₁, hbody', rfl, hopen, hcases⟩ := newRoom_eq_ok hnew
  cases hparse.symm.trans hbody'
  obtain rfl := (hcases.resolve_right fun hodd => hodd.1 hlen).2
  have hroom : ((g.openRoom pid).modifyRoom r (·.updateDelta b.delta)).room r =
      (Room.new.init (int32 pid)).updateDelta b.delta := by
    rw [room, modifyRoom, RoomMgr.modify_self, openRoom_self]
  refine ⟨_, hnew, ?_, ?_⟩
  · show (RoomMgr.appendR _ r).idMap[int32 pid]? = some r
    rw [idMap_newRoom hopen (entered_enterNews _ r es), Std.TreeMap.getElem?_insert_self]
  · rw [← hroom]
    exact untimed_enterNews _ r es

theorem exists_diverge (pb : Pb) (hgate : (g.room t).gateOver = false) (hlast : (g.room t).lastMs = 0)
    (htick : (g.room t).frameTick = 0) : ∃ w : LogWorld,
      Reach (LogWorld.step pb t) (fun _ o => LogWorld.SameTick t o) ⟨g, [], []⟩ w ∧
        w.node.updateRoom t 10 = .error .diverge := by
  obtain ⟨⟨g₂, c, f⟩, hreach, hroom, hrun, hsize⟩ := LogWorld.exists_ready pb g t
  set g₃ := g₂.modifyRoom t ({ · with lastMs := 5, accMs := 0 }) with hg₃
  have hroom₃ : g₃.room t = { g₂.room t with lastMs := 5, accMs := 0 } := RoomMgr.modify_self ..
  have hgate₂ : (g₂.room t).gateOver = false := hroom.gateOver.trans hgate
  have hfirst : g₂.updateRoom t 5 = .ok (g₃, 0, []) :=
    updateRoom_of_updated (.first hgate₂ hrun hsize (hroom.lastMs.trans hlast))
  have hstep := @LogWorld.step_own pb t ⟨g₂, c, f⟩ _ _ _ (call_update pb hfirst)
  have hsame := hreach.mono (Q := fun _ o => LogWorld.SameTick t o) fun _ _ h => h.1.sameTick
  refine ⟨_, hsame.step (o := LogOp.call t (.update 5)) trivial hstep, ?_⟩
  apply updateRoom_diverge <;> rw [hroom₃]
  · exact hgate₂
  · exact hrun
  · exact hsize
  · exact Nat.succ_ne_zero 4
  · exact hroom.frameTick.trans htick

/-- **When the loop of `Update` ends.** `NewRoom` creates a room. In every state of every later history in which its tick is
not set again, `Update` ends at every time, if and only if the upper half of the number in the body is not 0. -/
theorem terminates_iff (pb : Pb) (g : GameNode) (pid : Nat) {body : Bytes} {b : NewRoomBody}
    (hbody : accepted body = some b) : ∃ g', g.newRoom pid body = .ok g' ∧
      g'.rm.getRoom (int32 pid) = some g.rm.popRoom.1 ∧
      ((∀ w, Reach (LogWorld.step pb g.rm.popRoom.1) (fun _ o => LogWorld.SameTick g.rm.popRoom.1 o) ⟨g', [], []⟩ w →
          ∀ ms, w.node.updateRoom g.rm.popRoom.1 ms ≠ .error .diverge) ↔
        b.delta / 65536 ≠ 0) := by
  obtain ⟨g', hnew, hget, hroom⟩ := g.newRoom_accepted pid hbody
  refine ⟨g', hnew, hget, fun h htick => ?_, fun htick w hw ms hdiv => ?_⟩
  · obtain ⟨w, hw, hdiv⟩ := exists_diverge pb hroom.gateOver hroom.lastMs (hroom.frameTick.trans htick)
    exact h w hw 10 hdiv
  · have hkept := hw.invariant (I := fun w => (w.node.room g.rm.popRoom.1).frameTick = b.delta / 65536) hroom.frameTick
      fun w o w' hI hsame heq => (LogWorld.frameTick_step hsame heq).trans hI
    exact htick (hkept.symm.trans (frameTick_of_diverge hdiv))

/-- A body with a tick of 66 ms: `1|7|4325376|1`. -/
theorem terminates_tick : ∃ g', GameNode.new.newRoom 1 [49, 124, 55, 124, 52, 51, 50, 53, 51, 55, 54, 124, 49] = .ok g' ∧
    ∀ w, Reach (LogWorld.step ⟨fun _ => .clear, fun _ => [], fun _ => 0, fun _ => 0⟩ 0) (fun _ o => LogWorld.SameTick 0 o)
      ⟨g', [], []⟩ w → ∀ ms, w.node.updateRoom 0 ms ≠ .error .diverge := by
  obtain ⟨g', hnew, -, hiff⟩ := terminates_iff ⟨fun _ => .clear, fun _ => [], fun _ => 0, fun _ => 0⟩ .new 1
    (show accepted [49, 124, 55, 124, 52, 51, 50, 53, 51, 55, 54, 124, 49] = some ⟨[1], [7], [1], 4325376⟩ from rfl)
  exact ⟨g', hnew, hiff.mpr (by decide)⟩

/-- The body `1|7|1|1` creates a room without a tick. -/
theorem not_terminates : ∃ (pb : Pb) (g' : GameNode) (w : LogWorld),
    GameNode.new.newRoom 1 [49, 124, 55, 124, 49, 124, 49] = .ok g' ∧ g'.rm.getRoom 1 = some 0 ∧
      Reach (LogWorld.step pb 0) (fun _ o => LogWorld.SameTick 0 o) ⟨g', [], []⟩ w ∧
      w.node.updateRoom 0 10 = .error .diverge := by
  obtain ⟨g', hnew, hget, hroom⟩ := GameNode.new.newRoom_accepted 1
    (show accepted [49, 124, 55, 124, 49, 124, 49] = some ⟨[1], [7], [1], 1⟩ from rfl)
  obtain ⟨w, hw, hdiv⟩ := exists_diverge ⟨fun _ => .clear, fun _ => [], fun _ => 0, fun _ => 0⟩ hroom.gateOver hroom.lastMs
    hroom.frameTick
  exact ⟨_, g', w, hnew, hget, hw, hdiv⟩

end GameNode

end KcpServer
