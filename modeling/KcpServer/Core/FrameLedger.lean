import KcpServer.Core.FrameBooks
import KcpServer.Core.FrameLog
import KcpServer.Core.RoomLedger

/-!
# Where the messages are

All methods of rooms keep every message in its place but one: `roomObj::init` sets `m_pt2001` to null, and a room that has
been played goes back to the pool with a pending frame. `frames_conserved_iff` says that a frame is lost when a room
object with a pending frame is used again, or a room with recorded frames is overwritten in `m_idMap`, and in no other
way.
-/

namespace KcpServer
open Lib

namespace GameNode
variable {pb : Pb} {g g' : GameNode} {o : GameOp} {live : Nat → Prop} {outs : List Out} {r : Nat}

/-! ## A pass -/

theorem filed_updateRoom (h : g.rm.Filed live) (hr : r < g.rm.rooms.next) (hlive : live r) {ms : Nat} {ret : Int}
    (heq : g.updateRoom r ms = .ok (g', ret, outs)) : g'.rm.Filed live ∧ g'.rm.rooms.next = g.rm.rooms.next := by
  cases updated_of_updateRoom heq with
  | gate hgate =>
    rw [rawOver_rm]
    exact ⟨h.modify rfl rfl, rfl⟩
  | idle hgate hidle => exact ⟨h, rfl⟩
  | first hgate hrun hsize hms => exact ⟨h.modify (f := ({ · with lastMs := ms, accMs := 0 })) rfl rfl, rfl⟩
  | tick hgate hrun hsize hms hadv hend => exact h.advance hr hlive hadv
  | finish hgate hrun hsize hms hadv hend =>
    obtain ⟨hfiled, hnext⟩ := h.advance hr hlive hadv
    rw [rawOver_rm]
    exact ⟨hfiled.modify rfl rfl, hnext⟩

theorem filed_updateRooms {ms : Nat} {es : List (Int × Nat)} (h : g.rm.Filed live)
    (hes : ∀ e ∈ es, e.2 < g.rm.rooms.next ∧ live e.2) (heq : g.updateRooms ms es = .ok (g', outs)) :
    g'.rm.Filed live := by
  induction es generalizing g outs with
  | nil => cases heq; exact h
  | cons e es ih =>
    obtain ⟨⟨g₁, ret, outs₁⟩, hup, heq⟩ := bind_eq_ok.mp heq
    obtain ⟨⟨g₃, outs₂⟩, hrest, heq⟩ := bind_eq_ok.mp heq
    cases heq
    obtain ⟨hr, hlive⟩ := hes e List.mem_cons_self
    obtain ⟨hfiled, hnext⟩ := filed_updateRoom h hr hlive hup
    dsimp only at hrest
    set g₂ : GameNode := if ret = 1 then
        { g₁ with rm := { g₁.rm with finnalRoomQue := g₁.rm.finnalRoomQue ++ [e.2], idMap := g₁.rm.idMap.erase e.1 } }
      else g₁ with hg₂
    have hrooms : g₂.rm.rooms = g₁.rm.rooms := by
      rw [hg₂]
      split <;> rfl
    have hmsgs : g₂.rm.msgs = g₁.rm.msgs := by
      rw [hg₂]
      split <;> rfl
    refine ih (hfiled.congr hrooms hmsgs) (fun e he => ?_) hrest
    rw [hrooms, hnext]
    exact hes e (List.mem_cons_of_mem _ he)

theorem filed_finnals {m : RoomMgr} (h : m.Filed live) (rs : List Nat) :
    (finnals m rs).1.Filed fun q => live q ∧ q ∉ rs := by
  induction rs generalizing m live with
  | nil => exact h.mono fun q _ _ _ hq => ⟨hq, List.not_mem_nil⟩
  | cons r rs ih =>
    have hpushed : ((m.finnal r).1.pushRoom r).Filed fun q => live q ∧ q ≠ r := h.finnal.congr rfl rfl
    refine (ih hpushed).mono fun q _ _ _ hq => ⟨hq.1.1, fun hin => ?_⟩
    rcases List.mem_cons.mp hin with hqr | hin
    · exact hq.1.2 hqr
    · exact hq.2 hin

abbrev Filed (g : GameNode) : Prop := g.rm.Filed (· ∈ g.live)

theorem filed_update {ms : Nat} (hhost : g.rm.Hosting) (h : g.Filed) (heq : g.update ms = .ok (g', outs)) :
    g'.Filed := by
  rcases update_spec hhost heq with ⟨rfl, -⟩ | hpass
  · exact h
  rcases update_eq_ok heq with ⟨rfl, -⟩ | ⟨g₁, outs₁, hloop, rfl, rfl⟩
  · exact h
  have hup := updateRooms_spec (g := { g with rm := { g.rm with lastMs := ms } }) hhost.clock hhost.nodup_rooms hloop
  have hstart : ({ g with rm := { g.rm with lastMs := ms } } : GameNode).rm.Filed (· ∈ g.live) := h.congr rfl rfl
  have hfiled : g₁.rm.Filed (· ∈ g.live) := by
    refine filed_updateRooms hstart (fun e he => ?_) hloop
    have hk : g.rm.idMap[e.1]? = some e.2 := Std.TreeMap.mem_toList_iff_getElem?_eq_some.mp he
    exact ⟨(hhost.idMap hk).2.2, mem_live.mpr ⟨e.1, hk⟩⟩
  have hemptied : ({ g₁.rm with finnalRoomQue := [] } : RoomMgr).Filed (· ∈ g.live) := hfiled.congr rfl rfl
  refine (filed_finnals hemptied g₁.rm.finnalRoomQue).mono fun q _ _ _ hq => ?_
  -- a registered room that is not finalised is still registered
  obtain ⟨k, hk⟩ := mem_live.mp hq.1
  refine mem_live.mpr ⟨k, hpass.idMap.mpr ⟨hk, ?_⟩⟩
  by_contra hfin
  refine hq.2 ?_
  rw [hup.que]
  refine List.mem_append_right _ (List.mem_map.mpr ⟨(k, q), ?_, rfl⟩)
  exact mem_finished.mpr ⟨hk, by simpa using hfin⟩

/-! ## `NewRoom` -/

theorem openRoom_msgs (g : GameNode) (pid : Nat) : (g.openRoom pid).rm.msgs = g.rm.msgs := rfl

theorem next_openRoom (g : GameNode) (pid : Nat) : g.rm.rooms.next ≤ (g.openRoom pid).rm.rooms.next := by
  obtain ⟨rooms, poolRoom, hpop, hopen⟩ := g.openRoom_eq pid
  rw [hopen]
  exact (le_of_pop hpop : g.rm.rooms.next ≤ rooms.next)

/-- The places of a room that has just been initialised are empty; those of other rooms are as they were. -/
theorem holds_openRoom {pid : Nat} {x : Nat × Option Int} {f : Nat} :
    (g.openRoom pid).rm.Holds x f ↔ x.1 ≠ g.rm.popRoom.1 ∧ g.rm.Holds x f := by
  unfold RoomMgr.Holds
  by_cases hx : x.1 = g.rm.popRoom.1
  · refine iff_of_false (fun hslot => ?_) fun h => h.1 hx
    rw [hx, openRoom_self] at hslot
    cases hk : x.2 with
    | none => rw [hk] at hslot; cases hslot
    | some k => rw [hk] at hslot; exact nomatch Std.TreeMap.getElem?_emptyc.symm.trans hslot
  · rw [g.openRoom_of_ne pid hx]
    exact (and_iff_right hx).symm

theorem owned_openRoom (h : g.rm.Owned) (pid : Nat) : (g.openRoom pid).rm.Owned :=
  h.of_holds (g.openRoom_msgs pid) fun _ _ hx => (holds_openRoom.mp hx).2

/-- The condition: the room object that `NewRoom` takes has no pending frame, and no recorded frames are in a room whose
id it takes over. -/
def Unspoilt (g : GameNode) : GameOp → Prop
  | .newRoom pid body =>
    (g.room g.rm.popRoom.1).pt2001 = none ∧
      ((accepted body).isSome = true → ∀ r ∈ g.rm.idMap[int32 pid]?, (g.room r).allOperMap.isEmpty = true)
  | _ => True

instance (g : GameNode) (o : GameOp) : Decidable (g.Unspoilt o) :=
  match o with
  | .newRoom _ _ => inferInstanceAs (Decidable (_ = _ ∧ (_ = true → ∀ r ∈ _, _ = true)))
  | .createConn _ _ _ _ | .scanTimeout _ | .delTimeout | .kcp _ | .overRoom _ _ | .offlineP _ | .enterP _ | .leaveP _
  | .allPReady _ | .api2003 _ _ | .update _ => isTrue trivial

/-- A room that is not registered and has no pending frame has no frames at all. -/
theorem holds_popRoom (hhost : g.rm.Hosting) (h : g.Filed) (hpt : (g.room g.rm.popRoom.1).pt2001 = none)
    (k : Option Int) (f : Nat) : ¬ g.rm.Holds (g.rm.popRoom.1, k) f := by
  intro hx
  cases k with
  | none => cases hpt.symm.trans hx
  | some k =>
    obtain ⟨id, hid⟩ := mem_live.mp (h.logs hx)
    exact popRoom_fresh hhost id hid

theorem filed_openRoom (hhost : g.rm.Hosting) (h : g.Filed) (hpt : (g.room g.rm.popRoom.1).pt2001 = none) (pid : Nat) :
    (g.openRoom pid).rm.Filed (· ∈ g.live) := by
  have hholds : (g.openRoom pid).rm.Holds = g.rm.Holds := by
    funext x f
    refine propext (holds_openRoom.trans (and_iff_right_of_imp fun hx hr => ?_))
    exact holds_popRoom hhost h hpt x.2 f (hr ▸ hx)
  have hslot : ∀ {q k f}, (g.openRoom pid).rm.Holds (q, k) f → q ≠ g.rm.popRoom.1 := fun hx => (holds_openRoom.mp hx).1
  refine ⟨owned_openRoom h.owned pid, ?_, fun {q k f} hf => ?_, fun {q k f} hf => ?_, fun {q f} hf => ?_⟩
  · unfold RoomMgr.Complete
    rw [openRoom_msgs, hholds]
    exact h.complete
  · have hq := hslot (k := some k) hf
    rw [g.openRoom_of_ne pid hq] at hf ⊢
    exact h.keys hf
  · have hq := hslot (k := some k) hf
    rw [g.openRoom_of_ne pid hq] at hf
    exact h.logs hf
  · have hq := hslot (k := none) hf
    rw [g.openRoom_of_ne pid hq] at hf
    exact lt_of_lt_of_le (h.pending hf) (g.next_openRoom pid)

theorem enterNews_invariant {I : RoomMgr → Prop} (es : List (Int × Nat × Int)) (h : I g.rm)
    (hstep : ∀ rm players p, I rm → I (rm.enterP players r p none)) : I (g.enterNews r es).rm := by
  induction es generalizing g with
  | nil => exact h
  | cons e es ih =>
    refine ih (g := g.enterNew r e.1 e.2.1 e.2.2) ?_
    obtain ⟨p, players, pool, -, heq⟩ := g.enterNew_eq r e.1 e.2.1 e.2.2
    rw [heq]
    exact hstep _ _ p h

theorem filed_enterNews (h : g.rm.Filed live) (hr : r < g.rm.rooms.next) (es : List (Int × Nat × Int)) :
    (g.enterNews r es).rm.Filed live := by
  refine (enterNews_invariant (I := fun rm => rm.Filed live ∧ r < rm.rooms.next) es ⟨h, hr⟩ ?_).1
  rintro rm players p ⟨hfiled, hlt⟩
  exact ⟨hfiled.enterP hlt players p none, (RoomMgr.entered_enterP rm players r p none).next.symm ▸ hlt⟩

/-- The room that `NewRoom` has filled, and the other rooms. -/
theorem filed_filled {pid : Nat} {b : NewRoomBody} {g₁ : GameNode} (hhost : g.rm.Hosting) (h : g.Filed)
    (hpt : (g.room g.rm.popRoom.1).pt2001 = none)
    (hg₁ : g₁ = (g.openRoom pid).modifyRoom g.rm.popRoom.1 (·.updateDelta b.delta))
    (hopen : Quiet (g.openRoom pid) g₁) (es : List (Int × Nat × Int)) :
    (g₁.enterNews g.rm.popRoom.1 es).rm.Filed (· ∈ g.live) ∧
      ∀ q ≠ g.rm.popRoom.1, (g₁.enterNews g.rm.popRoom.1 es).rm.rooms q = g.rm.rooms q := by
  have hfiled : g₁.rm.Filed (· ∈ g.live) := by
    rw [hg₁]
    exact (filed_openRoom hhost h hpt pid).modify (f := (·.updateDelta b.delta)) rfl rfl
  refine ⟨filed_enterNews hfiled (opened hhost hopen).lt es, fun q hq => ?_⟩
  rw [(entered_enterNews g₁ g.rm.popRoom.1 es).others q hq, hg₁]
  exact (RoomMgr.modify_of_ne _ hq _).trans (g.openRoom_of_ne pid hq)

theorem filed_newRoom {pid : Nat} {body : Bytes} (hhost : g.rm.Hosting) (h : g.Filed)
    (hcond : g.Unspoilt (.newRoom pid body)) (heq : g.newRoom pid body = .ok g') : g'.Filed := by
  obtain ⟨b, g₁, hbody, hg₁, hopen, ⟨hlen, rfl⟩ | ⟨-, rfl⟩⟩ := newRoom_eq_ok heq
  · have ho := opened hhost hopen
    have hid := idMap_newRoom hopen (entered_enterNews g₁ g.rm.popRoom.1 (b.pidvec.zip (b.ridvec.zip b.campvec)))
    obtain ⟨hfilled, hrooms⟩ :=
      filed_filled hhost h hcond.1 hg₁ hopen (b.pidvec.zip (b.ridvec.zip b.campvec))
    set g₂ := g₁.enterNews g.rm.popRoom.1 (b.pidvec.zip (b.ridvec.zip b.campvec))
    have happended : (g₂.rm.appendR g.rm.popRoom.1).Filed (· ∈ g.live) := hfilled.congr rfl rfl
    refine happended.mono fun q k f hf hq => ?_
    obtain ⟨id, hk⟩ := mem_live.mp hq
    refine mem_live.mpr ⟨id, ?_⟩
    show (g₂.rm.appendR g.rm.popRoom.1).idMap[id]? = some q
    rw [hid]
    apply insert_of_entry hk
    intro hused
    -- the room that had the id has no recorded frames
    have hempty := hcond.2 (by rw [accepted_of_parse hbody, if_pos hlen]; rfl) q hused
    change (g₂.rm.rooms q).allOperMap[k]? = some f at hf
    rw [hrooms q fun hqr => ho.fresh id (hqr ▸ hk)] at hf
    exact not_isEmpty hf hempty
  · have hfiled : g₁.rm.Filed (· ∈ g.live) := by
      rw [hg₁]
      exact (filed_openRoom hhost h hcond.1 pid).modify (f := (·.updateDelta b.delta)) rfl rfl
    have hpushed : (g₁.rm.pushRoom g.rm.popRoom.1).Filed (· ∈ g.live) := hfiled.congr rfl rfl
    refine hpushed.mono fun q _ _ _ hq => ?_
    obtain ⟨id, hk⟩ := mem_live.mp hq
    exact mem_live.mpr ⟨id, (opened hhost hopen).idMap.symm ▸ hk⟩

/-! ## Every run -/

theorem filed_new : GameNode.new.Filed := by
  have hpt : ∀ q, GameNode.new.rm.rooms q = Room.new := fun _ => rfl
  refine ⟨LogWorld.owned_new, FramePool.complete_withPool _ _ _, fun {q k f} hf => ?_, fun {q k f} hf => ?_,
    fun {q f} hf => ?_⟩
  · rw [hpt q] at hf
    exact nomatch Std.TreeMap.getElem?_emptyc.symm.trans hf
  · rw [hpt q] at hf
    exact nomatch Std.TreeMap.getElem?_emptyc.symm.trans hf
  · rw [hpt q] at hf
    cases hf

theorem filed_leaveRoom (hhost : g.rm.Hosting) (h : g.Filed) (p : Nat) : (g.leaveRoom p).Filed := by
  have hid : (g.leaveRoom p).live = g.live := by
    unfold GameNode.live
    rw [(quiet_leaveRoom g p).rm.idMap]
  unfold Filed
  rw [hid]
  unfold leaveRoom
  split
  · exact h
  · next r hr => exact h.pushCmd (hhost.idMap hr).2.2 _

theorem filed_enterP (hhost : g.rm.Hosting) (h : g.Filed) {k : Int} (hk : g.rm.idMap[k]? = some r)
    (players : Heap Player) (p : Nat) (pconn : Option Nat) (kcp : KCPServer) (pm : PlayerMgr) :
    ({ kcp, pm, rm := g.rm.enterP players r p pconn } : GameNode).Filed := by
  unfold Filed GameNode.live
  dsimp only
  rw [(RoomMgr.entered_enterP g.rm players r p pconn).idMap]
  exact RoomMgr.Filed.enterP h (hhost.idMap hk).2.2 players p pconn

theorem filed_processKcp {obj : KcpCall} (hhost : g.rm.Hosting) (h : g.Filed)
    (heq : g.processKcp pb obj = .ok (g', outs)) : g'.Filed := by
  unfold processKcp at heq
  split at heq
  · cases heq
    exact h
  · next r hroom =>
    have hlt := (hhost.idMap hroom).2.2
    split at heq
    · cases heq
      have hid : (g.rm.frameCmd pb r obj.pid obj.body).idMap = g.rm.idMap := (RoomMgr.quiet_frameCmd ..).idMap
      unfold Filed GameNode.live
      dsimp only
      rw [hid, RoomMgr.frameCmd_eq]
      split
      · exact RoomMgr.Filed.pushCmd h hlt _
      · exact h
    · split at heq
      · split at heq
        · cases heq
          exact h
        · next p hrid =>
          split at heq
          · cases heq
          · next g₁ hreg =>
            cases heq
            unfold register at hreg
            dsimp only at hreg
            split at hreg
            · cases hreg
            · next pm kcp pconn hset =>
              cases hreg
              exact filed_enterP hhost h hroom _ p _ kcp pm
      · split at heq
        · split at heq
          · cases heq
            exact h
          · next p hp =>
            cases heq
            exact RoomMgr.Filed.getFramesData (r := r) h pb g.pm.players g.kcp p obj.body
        · cases heq
          exact h

theorem filed_exec (hhost : g.rm.Hosting) (h : g.Filed) (hcond : g.Unspoilt o) (heq : g.exec pb o = .ok (g', outs)) :
    g'.Filed := by
  cases o with
  | createConn clifd buf msgs ms => cases heq; exact h
  | scanTimeout ms => cases heq; exact h
  | delTimeout => cases heq; exact h
  | kcp obj => exact filed_processKcp hhost h heq
  | newRoom pid body =>
    obtain ⟨g₂, hnew, heq⟩ := bind_eq_ok.mp heq
    cases heq
    exact filed_newRoom hhost h hcond hnew
  | overRoom pid msgid =>
    cases heq
    unfold overRoom
    split
    · exact h
    · exact RoomMgr.Filed.modify (f := (·.setOver (msgid = 1))) h rfl rfl
  | offlineP pid =>
    cases heq
    unfold offlineP
    split
    · exact h
    · next p hp =>
      exact filed_leaveRoom (g := { g with pm := (g.pm.offline g.kcp p).1, kcp := (g.pm.offline g.kcp p).2 }) hhost h p
  | enterP body =>
    obtain ⟨g₂, henter, heq⟩ := bind_eq_ok.mp heq
    cases heq
    unfold enterP at henter
    obtain ⟨-, -, henter⟩ := bind_eq_ok.mp henter
    obtain ⟨-, -, henter⟩ := bind_eq_ok.mp henter
    obtain ⟨-, -, henter⟩ := bind_eq_ok.mp henter
    split at henter
    · cases henter
      exact h
    · next r hroom =>
      split at henter
      · cases henter
        exact h
      · next p hp =>
        cases henter
        exact filed_enterP hhost h hroom _ p none g.kcp g.pm
  | leaveP pid =>
    cases heq
    unfold leaveP
    split
    · exact h
    · exact filed_leaveRoom hhost h _
  | allPReady pid =>
    cases heq
    unfold allPReady
    split
    · exact h
    · exact RoomMgr.Filed.modify (f := (·.setReady)) h rfl rfl
  | api2003 pid body => cases heq; exact h
  | update ms => exact filed_update hhost h heq

theorem filed_of_reach (h : Reach (step pb) Unspoilt .new g) : g.Filed := by
  refine h.invariant_of (J := Filed) (fun _ ht => hosting_of_reach ht) filed_new ?_
  intro s o t hhost hf hcond heq
  obtain ⟨⟨t', outs⟩, hexec, heq⟩ := bind_eq_ok.mp heq
  cases heq
  exact filed_exec hhost hf hcond hexec

end GameNode

/-! ## Every message has one place -/

inductive FramePlace
  | pool2001 (i : Nat)
  | pt2001 (r : Nat)
  | allOperMap (r : Nat) (k : Int)

inductive CmdPlace
  | pool (i : Nat)
  | cmdlist (f i : Nat)

namespace RoomMgr
variable {m : RoomMgr} {f : Nat}

/-- Frame `f` is at a place. The record of a room counts while the room is in `m_idMap` or `m_finnalRoomQue`. -/
def FrameAt (m : RoomMgr) (f : Nat) : FramePlace → Prop
  | .pool2001 i => m.msgs.pool2001[i]? = some f
  | .pt2001 r => r < m.rooms.next ∧ (m.rooms r).pt2001 = some f
  | .allOperMap r k => ((∃ id : Int, m.idMap[id]? = some r) ∨ r ∈ m.finnalRoomQue) ∧ (m.rooms r).allOperMap[k]? = some f

/-- Command `c` is at a place. The list of a frame counts while the frame has a place. -/
def CmdAt (m : RoomMgr) (c : Nat) : CmdPlace → Prop
  | .pool i => m.msgs.pool[i]? = some c
  | .cmdlist f i => (∃ x, m.FrameAt f x) ∧ (m.msgs.frames f).cmdlist[i]? = some c

/-- Every frame and every command is in exactly one place. -/
structure FramesConserved (m : RoomMgr) : Prop where
  frames : ∀ f < m.msgs.frames.next, ∃! x, m.FrameAt f x
  cmds : ∀ c < m.msgs.cmds.next, ∃! x, m.CmdAt c x

theorem FrameAt.cases {x : FramePlace} (h : m.FrameAt f x) :
    (∃ i, x = .pool2001 i ∧ m.msgs.pool2001[i]? = some f) ∨ (∃ r, x = .pt2001 r ∧ m.Holds (r, none) f) ∨
      ∃ r k, x = .allOperMap r k ∧ m.Holds (r, some k) f := by
  cases x with
  | pool2001 i => exact Or.inl ⟨i, rfl, h⟩
  | pt2001 r => exact Or.inr (Or.inl ⟨r, rfl, h.2⟩)
  | allOperMap r k => exact Or.inr (Or.inr ⟨r, k, rfl, h.2⟩)

theorem frameAt_unique (ho : m.Owned) {x y : FramePlace} (hx : m.FrameAt f x) (hy : m.FrameAt f y) : x = y := by
  have hpool : ∀ {i : Nat} {z}, m.msgs.pool2001[i]? = some f → ¬ m.Holds z f :=
    fun hi hz => (ho.held hz).2 (List.mem_of_getElem? hi)
  rcases hx.cases with ⟨i, rfl, hi⟩ | ⟨r, rfl, hr⟩ | ⟨r, k, rfl, hr⟩
  · rcases hy.cases with ⟨j, rfl, hj⟩ | ⟨q, rfl, hq⟩ | ⟨q, l, rfl, hq⟩
    · obtain ⟨hlt, -⟩ := List.getElem?_eq_some_iff.mp hi
      exact congrArg _ ((List.getElem?_inj hlt ho.free2001.nodup).mp (hi.trans hj.symm))
    · exact absurd hq (hpool hi)
    · exact absurd hq (hpool hi)
  · rcases hy.cases with ⟨j, rfl, hj⟩ | ⟨q, rfl, hq⟩ | ⟨q, l, rfl, hq⟩
    · exact absurd hr (hpool hj)
    · cases ho.inj hr hq
      rfl
    · cases ho.inj hr hq
  · rcases hy.cases with ⟨j, rfl, hj⟩ | ⟨q, rfl, hq⟩ | ⟨q, l, rfl, hq⟩
    · exact absurd hr (hpool hj)
    · cases ho.inj hr hq
    · cases ho.inj hr hq
      rfl

theorem cmdAt_unique (ho : m.Owned) {c : Nat} {x y : CmdPlace} (hx : m.CmdAt c x) (hy : m.CmdAt c y) : x = y := by
  have hlt : ∀ {f : Nat}, (∃ x, m.FrameAt f x) → f < m.msgs.frames.next := by
    rintro f ⟨x, hx⟩
    rcases hx.cases with ⟨i, -, hi⟩ | ⟨r, -, hr⟩ | ⟨r, k, -, hr⟩
    · exact ho.free2001.lt_next f (List.mem_of_getElem? hi)
    · exact (ho.held hr).1
    · exact (ho.held hr).1
  cases x with
  | pool i =>
    cases y with
    | pool j =>
      obtain ⟨hi, -⟩ := List.getElem?_eq_some_iff.mp hx
      exact congrArg _ ((List.getElem?_inj hi ho.free.nodup).mp (hx.trans hy.symm))
    | cmdlist f j => exact absurd (List.mem_of_getElem? hx) (ho.cmd (hlt hy.1) (List.mem_of_getElem? hy.2)).2
  | cmdlist f i =>
    cases y with
    | pool j => exact absurd (List.mem_of_getElem? hy) (ho.cmd (hlt hx.1) (List.mem_of_getElem? hx.2)).2
    | cmdlist f' j =>
      obtain rfl : f = f' :=
        ho.cmdInj (hlt hx.1) (hlt hy.1) (List.mem_of_getElem? hx.2) (List.mem_of_getElem? hy.2)
      obtain ⟨hi, -⟩ := List.getElem?_eq_some_iff.mp hx.2
      exact congrArg _ ((List.getElem?_inj hi (ho.nodup (hlt hx.1))).mp (hx.2.trans hy.2.symm))

/-- The books give every message its place. -/
theorem Filed.conserved {live : Nat → Prop} (h : m.Filed live) (hlive : ∀ r, live r → ∃ id : Int, m.idMap[id]? = some r) :
    m.FramesConserved := by
  have hframe : ∀ f < m.msgs.frames.next, ∃ x, m.FrameAt f x := by
    intro f hf
    rcases h.complete.frames f hf with hin | ⟨⟨r, k⟩, hx⟩
    · obtain ⟨i, hi, hget⟩ := List.getElem_of_mem hin
      exact ⟨.pool2001 i, List.getElem?_eq_some_iff.mpr ⟨hi, hget⟩⟩
    · cases k with
      | none => exact ⟨.pt2001 r, h.pending hx, hx⟩
      | some k => exact ⟨.allOperMap r k, Or.inl (hlive r (h.logs hx)), hx⟩
  refine ⟨fun f hf => ?_, fun c hc => ?_⟩
  · obtain ⟨x, hx⟩ := hframe f hf
    exact ⟨x, hx, fun y hy => frameAt_unique h.owned hy hx⟩
  · obtain ⟨x, hx⟩ : ∃ x, m.CmdAt c x := by
      rcases h.complete.cmds c hc with hin | ⟨f, hf, hin⟩ | hloose
      · obtain ⟨i, hi, hget⟩ := List.getElem_of_mem hin
        exact ⟨.pool i, List.getElem?_eq_some_iff.mpr ⟨hi, hget⟩⟩
      · obtain ⟨i, hi, hget⟩ := List.getElem_of_mem hin
        exact ⟨.cmdlist f i, hframe f hf, List.getElem?_eq_some_iff.mpr ⟨hi, hget⟩⟩
      · exact absurd hloose id
    exact ⟨x, hx, fun y hy => cmdAt_unique h.owned hy hx⟩

/-! ## A frame that is nowhere -/

abbrev Stray (m : RoomMgr) (f : Nat) : Prop := FramePool.Loose m.msgs m.Holds f

theorem Stray.not_conserved (h : m.Stray f) : ¬ m.FramesConserved := by
  intro hc
  obtain ⟨x, hx, -⟩ := hc.frames f h.lt
  rcases FrameAt.cases hx with ⟨i, -, hi⟩ | ⟨r, -, hr⟩ | ⟨r, k, -, hr⟩
  · exact h.queued (List.mem_of_getElem? hi)
  · exact h.held _ hr
  · exact h.held _ hr

variable {m' : RoomMgr} {r : Nat}

theorem Stray.modify (h : m.Stray f) {u : Room → Room} (hu : (u (m.rooms r)).slot = (m.rooms r).slot) :
    (m.modify r u).Stray f := by
  unfold Stray
  rw [holds_modify hu]
  exact h

/-- Nobody fetches a stray frame: it is not queued and not new. -/
theorem Stray.fetchPending (h : m.Stray f) {g : Nat} (heq : m.fetchPending r = (g, m')) : m'.Stray f := by
  unfold RoomMgr.fetchPending at heq
  cases hpt : (m.rooms r).pt2001 with
  | some g =>
    rw [hpt] at heq
    cases heq
    exact h
  | none =>
    obtain ⟨p, frames, pool2001, hpop⟩ :
      ∃ p frames pool, pop m.msgs.frames m.msgs.pool2001 FrameUpdate.clear = (p, frames, pool) := ⟨_, _, _, rfl⟩
    rw [hpt] at heq
    simp only [FramePool.fetchPt2001, hpop] at heq
    cases heq
    have hle : m.msgs.frames.next ≤ frames.next := le_of_pop hpop
    have hne : f ≠ g := by
      rintro rfl
      rcases origin_of_pop hpop with hin | hnew
      · exact h.queued hin
      · exact absurd h.lt (by omega)
    refine ⟨lt_of_lt_of_le h.lt hle, fun hin => h.queued (sub_of_pop hpop hin), fun x hx => ?_⟩
    unfold Holds at hx
    by_cases hxr : x.1 = r
    · rw [hxr, modify_self] at hx
      cases hk : x.2 with
      | none =>
        rw [hk] at hx
        exact hne (Option.some.inj hx).symm
      | some k =>
        rw [hk] at hx
        exact h.held (r, some k) hx
    · rw [modify_of_ne _ hxr] at hx
      exact h.held x hx

theorem Stray.pushCmd (h : m.Stray f) (cmd : Cmd) : (m.pushCmd r cmd).Stray f := by
  obtain ⟨c, msgs, hfetch⟩ : ∃ c msgs, m.msgs.fetchPt = (c, msgs) := ⟨_, _, rfl⟩
  obtain ⟨hframes, hpool, -⟩ := FramePool.fetchPt_eq hfetch
  have h₁ : ({ m with msgs := msgs.setCmd c cmd } : RoomMgr).Stray f := by
    refine ⟨?_, ?_, h.held⟩
    · show f < msgs.frames.next
      rw [hframes]
      exact h.lt
    · show f ∉ msgs.pool2001
      rw [hpool]
      exact h.queued
  obtain ⟨g, m₂, hpend⟩ : ∃ g m₂, { m with msgs := msgs.setCmd c cmd }.fetchPending r = (g, m₂) := ⟨_, _, rfl⟩
  have h₂ := h₁.fetchPending hpend
  have heq : m.pushCmd r cmd = { m₂ with msgs := m₂.msgs.addAllocated g c } := by
    simp only [RoomMgr.pushCmd, hfetch, hpend]
  rw [heq]
  exact ⟨h₂.lt, h₂.queued, h₂.held⟩

theorem Stray.enterP (h : m.Stray f) (players : Heap Player) (p : Nat) (pconn : Option Nat) :
    (m.enterP players r p pconn).Stray f := (h.modify (u := (·.enter players p pconn)) rfl).pushCmd _

end RoomMgr

namespace GameNode
variable {pb : Pb} {g g' : GameNode} {o : GameOp} {outs : List Out}

/-- The pending frame of a room object that is used again is nowhere. -/
theorem stray_newRoom {pid : Nat} {body : Bytes} {f : Nat} (h : g.rm.Owned)
    (hpt : (g.room g.rm.popRoom.1).pt2001 = some f) (heq : g.newRoom pid body = .ok g') : g'.rm.Stray f := by
  obtain ⟨b, g₁, hbody, hg₁, -, hcases⟩ := newRoom_eq_ok heq
  have hheld : g.rm.Holds (g.rm.popRoom.1, none) f := hpt
  have hopened : (g.openRoom pid).rm.Stray f := by
    unfold RoomMgr.Stray
    rw [openRoom_msgs]
    refine ⟨(h.held hheld).1, (h.held hheld).2, fun x hx => ?_⟩
    obtain ⟨hne, hx⟩ := holds_openRoom.mp hx
    exact hne (congrArg Prod.fst (h.inj hx hheld))
  have hstray : g₁.rm.Stray f := by
    rw [hg₁]
    exact hopened.modify (u := (·.updateDelta b.delta)) rfl
  rcases hcases with ⟨-, rfl⟩ | ⟨-, rfl⟩
  · have hentered := enterNews_invariant (I := (·.Stray f)) (r := g.rm.popRoom.1)
      (b.pidvec.zip (b.ridvec.zip b.campvec)) hstray fun rm players p hI => hI.enterP players p none
    exact ⟨hentered.lt, hentered.queued, hentered.held⟩
  · exact ⟨hstray.lt, hstray.queued, hstray.held⟩

theorem overwritten_newRoom {pid : Nat} {body : Bytes} {r f : Nat} {k : Int} (hhost : g.rm.Hosting) (h : g.Filed)
    (hbody : (accepted body).isSome = true) (hr : g.rm.idMap[int32 pid]? = some r)
    (hf : (g.room r).allOperMap[k]? = some f) (hpt : (g.room g.rm.popRoom.1).pt2001 = none)
    (heq : g.newRoom pid body = .ok g') : ¬ g'.rm.FramesConserved := by
  intro hc
  obtain ⟨b, g₁, hparse, hg₁, hopen, hcases⟩ := newRoom_eq_ok heq
  rw [accepted_of_parse hparse] at hbody
  rcases hcases with ⟨hlen, rfl⟩ | ⟨hlen, -⟩
  · have ho := opened hhost hopen
    have henter := entered_enterNews g₁ g.rm.popRoom.1 (b.pidvec.zip (b.ridvec.zip b.campvec))
    have hid := idMap_newRoom hopen henter
    have hque := (ho.appendR henter).que
    obtain ⟨hfilled, hrooms⟩ := filed_filled hhost h hpt hg₁ hopen (b.pidvec.zip (b.ridvec.zip b.campvec))
    set g₂ := g₁.enterNews g.rm.popRoom.1 (b.pidvec.zip (b.ridvec.zip b.campvec))
    have happended : (g₂.rm.appendR g.rm.popRoom.1).Filed (· ∈ g.live) := hfilled.congr rfl rfl
    have hheld : (g₂.rm.appendR g.rm.popRoom.1).Holds (r, some k) f := by
      show (g₂.rm.rooms r).allOperMap[k]? = some f
      rw [hrooms r fun hrr => ho.fresh _ (hrr ▸ hr)]
      exact hf
    obtain ⟨x, hx, -⟩ := hc.frames f (happended.owned.held hheld).1
    rcases RoomMgr.FrameAt.cases hx with ⟨i, -, hi⟩ | ⟨q, -, hq⟩ | ⟨q, l, rfl, hq⟩
    · exact (happended.owned.held hheld).2 (List.mem_of_getElem? hi)
    · cases happended.owned.inj hheld hq
    · cases happended.owned.inj hheld hq
      rcases hx.1 with ⟨id, hk⟩ | hin
      · change (g₂.rm.appendR g.rm.popRoom.1).idMap[id]? = some r at hk
        rw [hid] at hk
        rcases insert_eq_some.mp hk with ⟨-, hrr⟩ | ⟨hne, hk⟩
        · exact ho.fresh _ (hrr ▸ hr)
        · exact hne (hhost.inj hk hr)
      · change r ∈ (g₂.rm.appendR g.rm.popRoom.1).finnalRoomQue at hin
        rw [hque] at hin
        cases hin
  · rw [if_neg hlen] at hbody
    cases hbody

theorem unspoilt_of_conserved (hhost : g.rm.Hosting) (h : g.Filed) (heq : g.exec pb o = .ok (g', outs))
    (hc : g'.rm.FramesConserved) : g.Unspoilt o := by
  cases o with
  | newRoom pid body =>
    obtain ⟨g₂, hnew, heq⟩ := bind_eq_ok.mp heq
    cases heq
    have hpt : (g.room g.rm.popRoom.1).pt2001 = none := by
      rw [Option.eq_none_iff_forall_ne_some]
      intro f hf
      exact (stray_newRoom h.owned hf hnew).not_conserved hc
    refine ⟨hpt, fun hbody r hr => ?_⟩
    by_contra hsome
    obtain ⟨k, f, hf⟩ := exists_entry hsome
    exact overwritten_newRoom hhost h hbody hr hf hpt hnew hc
  | _ => trivial

/-- **Every message has one place, with the exact condition.** In every run in which no room object is used again with a
pending frame, and no room with recorded frames is overwritten, every frame and every command is in exactly one place.
The next step keeps it so if and only if it meets the condition. -/
theorem frames_conserved_iff (pb : Pb) (g : GameNode) (hg : Reach (step pb) Unspoilt .new g) : g.rm.FramesConserved ∧
    ∀ o g' outs, g.exec pb o = .ok (g', outs) → (g'.rm.FramesConserved ↔ g.Unspoilt o) := by
  have hhost := hosting_of_reach hg
  have h := filed_of_reach hg
  refine ⟨h.conserved fun r hr => mem_live.mp hr,
    fun o g' outs heq => ⟨unspoilt_of_conserved hhost h heq, fun hcond => ?_⟩⟩
  exact (filed_exec hhost h hcond heq).conserved fun r hr => mem_live.mp hr

/-- A room is finished, and its object is in the pool with its pending frame. -/
theorem frames_conserved_finish : ∃ g : GameNode, g.live = [1] ∧ g.rm.poolRoom = [0] ∧
    (g.room 0).pt2001 = some 0 ∧ (g.rm.FramesConserved ∧
      ∀ o g' outs, g.exec ridParser o = .ok (g', outs) → (g'.rm.FramesConserved ↔ g.Unspoilt o)) := by
  obtain ⟨g, hg, hlive, hpool, hpt⟩ := exists_run (P := Unspoilt) (finishFirst 7 8)
    (fun g => g.live = [1] ∧ g.rm.poolRoom = [0] ∧ (g.room 0).pt2001 = some 0) (by decide +kernel)
  exact ⟨g, hlive, hpool, hpt, frames_conserved_iff ridParser g hg⟩

/-- The room object is used again, and the frame is nowhere. -/
theorem not_frames_conserved : ∃ pb g, Reach (step pb) Env .new g ∧ ¬ g.rm.FramesConserved := by
  obtain ⟨g, hg, hnext, hpool, hpt, hmap, hque⟩ := exists_run (P := Env) (finishFirst 7 8 ++ [digitRoom 3 9])
    (fun g => 0 < g.rm.msgs.frames.next ∧ 0 ∉ g.rm.msgs.pool2001 ∧
      (∀ r < g.rm.rooms.next, (g.room r).pt2001 ≠ some 0) ∧ (∀ r ∈ g.live, 0 ∉ (g.room r).allOperMap.values) ∧
      g.rm.finnalRoomQue = []) (by decide +kernel)
  refine ⟨ridParser, g, hg, fun hc => ?_⟩
  obtain ⟨x, hx, -⟩ := hc.frames 0 hnext
  cases x with
  | pool2001 i => exact hpool (List.mem_of_getElem? hx)
  | pt2001 r => exact hpt r hx.1 hx.2
  | allOperMap r k =>
    rcases hx.1 with hk | hin
    · exact hmap r (mem_live.mpr hk) (mem_values.mpr ⟨k, hx.2⟩)
    · rw [hque] at hin
      cases hin

end GameNode

end KcpServer
