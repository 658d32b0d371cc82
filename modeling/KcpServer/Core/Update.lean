import KcpServer.Core.Room

/-!
# A pass of `roomMgr::Update`

Which rooms a pass finishes is decided by what they are when it starts (`Room.finishing`), provided that no room's end
lies ahead of its frame id (`Room.Clock`), which all operations see to. `update_spec` says what a pass does: the players
of the finishing rooms are removed by their rids, in the order of the rooms, the finishing rooms go back to the pool, and
who is in which room does not change.
-/

namespace KcpServer
open Lib

namespace Room

/-- What `roomObj`'s frame methods leave alone. -/
structure Same (r r' : Room) : Prop where
  roomid : r'.roomid = r.roomid
  ridPMap : r'.ridPMap = r.ridPMap
  pidPMap : r'.pidPMap = r.pidPMap
  pidConn : r'.pidConn = r.pidConn

/-- The frame id is an `int` that counts, and the end, if it is set, has been reached. -/
structure Clock (r : Room) : Prop where
  nonneg : 0 ≤ r.frameId
  bound : r.frameId < 2 ^ 31
  ended : r.endFrameId = 2147483648 ∨ (r.endFrameId : Int) ≤ r.frameId

def finishing (r : Room) : Bool :=
  r.gateOver ∨ r.brun ∧ r.ridPMap.size ≠ 0 ∧ r.lastMs ≠ 0 ∧ r.endFrameId ≠ 2147483648

def finishedRids (r : Room) : List Nat := if r.finishing then r.ridPMap.keys else []

variable {r r' r'' : Room}

theorem mem_finishedRids {rid : Nat} : rid ∈ r.finishedRids ↔ r.finishing = true ∧ rid ∈ r.ridPMap.keys := by
  unfold finishedRids
  split
  · next h => simp [h]
  · next h => simp [h]

theorem Same.refl (r : Room) : Same r r := ⟨rfl, rfl, rfl, rfl⟩

theorem Same.trans (h : Same r r') (h' : Same r' r'') : Same r r'' :=
  ⟨h'.roomid.trans h.roomid, h'.ridPMap.trans h.ridPMap, h'.pidPMap.trans h.pidPMap, h'.pidConn.trans h.pidConn⟩

theorem clock_new : new.Clock := ⟨le_rfl, (by norm_num : (0 : Int) < 2 ^ 31), Or.inr le_rfl⟩

theorem clock_init (r : Room) (roomid : Int) : (r.init roomid).Clock := ⟨le_rfl, (by norm_num : (0 : Int) < 2 ^ 31), Or.inl rfl⟩

theorem Clock.setOver (h : r.Clock) (force : Bool) : (r.setOver force).Clock := by
  refine ⟨h.nonneg, h.bound, Or.inr ?_⟩
  have := h.nonneg
  have := h.bound
  change ((uint32 r.frameId : Nat) : Int) ≤ r.frameId
  unfold uint32
  omega

/-- What the clock changes of a room. -/
structure Ticked (r r' : Room) : Prop where
  same : Same r r'
  endFrameId : r'.endFrameId = r.endFrameId
  le : r.frameId ≤ r'.frameId
  bound : r.frameId < 2 ^ 31 → r'.frameId < 2 ^ 31

theorem Ticked.refl (r : Room) : Ticked r r := ⟨.refl r, rfl, le_rfl, id⟩

theorem Ticked.trans (h : Ticked r r') (h' : Ticked r' r'') : Ticked r r'' :=
  ⟨h.same.trans h'.same, h'.endFrameId.trans h.endFrameId, h.le.trans h'.le, fun hb => h'.bound (h.bound hb)⟩

theorem Ticked.clock (h : Ticked r r') (hr : r.Clock) : r'.Clock := by
  refine ⟨hr.nonneg.trans h.le, h.bound hr.bound, ?_⟩
  rw [h.endFrameId]
  exact hr.ended.imp_right fun hle => hle.trans h.le

theorem ticked_record (hmax : r.frameId ≠ 2 ^ 31 - 1) (f f' : Nat) : Ticked r (r.record f f') :=
  ⟨⟨rfl, rfl, rfl, rfl⟩, rfl, Int.le_of_lt (Int.lt_succ r.frameId), fun _ => by change r.frameId + 1 < 2 ^ 31; omega⟩

end Room

/-- The rooms before and after: who is in them is the same, and their ends are still not ahead of their frame ids. -/
def SameRooms (h h' : Heap Room) : Prop := ∀ q, (h q).Same (h' q) ∧ ((h q).Clock → (h' q).Clock)

theorem SameRooms.refl (h : Heap Room) : SameRooms h h := fun _ => ⟨.refl _, id⟩

theorem SameRooms.trans {h h' h'' : Heap Room} (hs : SameRooms h h') (hs' : SameRooms h' h'') : SameRooms h h'' :=
  fun q => ⟨(hs q).1.trans (hs' q).1, fun hc => (hs' q).2 ((hs q).2 hc)⟩

theorem sameRooms_set {h : Heap Room} {r : Nat} {R : Room} (hsame : (h r).Same R) (hclock : (h r).Clock → R.Clock) :
    SameRooms h (h.set r R) := by
  intro q
  by_cases hq : q = r
  · subst hq
    rw [Heap.set_self]
    exact ⟨hsame, hclock⟩
  · rw [Heap.set_of_ne _ hq]
    exact ⟨.refl _, id⟩

namespace RoomMgr
variable {m m' : RoomMgr} {r : Nat}

theorem advance_eq {ms : Nat} {outs : List Out} (heq : m.advance r ms = .ok (m', outs)) :
    (∃ msgs R', m' = { m with msgs, rooms := m.rooms.set r R' } ∧ (m.rooms r).Ticked R') ∧
      ∀ out ∈ outs, ∃ data, out = .frame r (m.rooms r).pidConn.values data := by
  refine advance_invariant (I := fun m' (outs : List Out) =>
    (∃ msgs R', m' = { m with msgs, rooms := m.rooms.set r R' } ∧ (m.rooms r).Ticked R') ∧
      ∀ out ∈ outs, ∃ data, out = .frame r (m.rooms r).pidConn.values data) heq
    ⟨⟨m.msgs, m.rooms r, by rw [Heap.set_at], .refl _⟩, by simp⟩ ?_ ?_
  · rintro m₁ m₂ pre out ⟨⟨msgs, R', rfl, htick⟩, houts⟩ hout
    obtain ⟨hmax, ⟨data, rfl⟩, msgs', f, f', rfl⟩ := emitFrame_eq hout
    rw [Heap.set_self] at hmax
    refine ⟨⟨msgs', R'.record f f', ?_, htick.trans (Room.ticked_record hmax f f')⟩, fun out hmem => ?_⟩
    · simp only [modify, Heap.set_self, Heap.set_set]
    · rcases List.mem_append.mp hmem with hmem | hmem
      · exact houts out hmem
      · rw [List.mem_singleton.mp hmem]
        refine ⟨data, ?_⟩
        dsimp only
        rw [Heap.set_self, htick.same.pidConn]
  · rintro m₁ accMs ⟨⟨msgs, R', rfl, htick⟩, houts⟩
    refine ⟨⟨msgs, { R' with accMs, lastMs := ms }, ?_, htick.trans ⟨⟨rfl, rfl, rfl, rfl⟩, rfl, le_rfl, id⟩⟩, houts⟩
    simp only [modify, Heap.set_self, Heap.set_set]

end RoomMgr

namespace GameNode
variable {g g' h : GameNode}

/-! ## Removing players -/

theorem removePs_congr (hpm : g.pm = h.pm) (hkcp : g.kcp = h.kcp) (rids : List Nat) :
    (g.removePs rids).pm = (h.removePs rids).pm ∧ (g.removePs rids).kcp = (h.removePs rids).kcp := by
  induction rids generalizing g h with
  | nil => exact ⟨hpm, hkcp⟩
  | cons rid rids ih =>
    rw [removePs, removePs, hpm, hkcp]
    exact ih rfl rfl

theorem removePs_append (g : GameNode) (rids rids' : List Nat) :
    g.removePs (rids ++ rids') = (g.removePs rids).removePs rids' := by
  induction rids generalizing g with
  | nil => rfl
  | cons rid rids ih => exact ih _

theorem removePs_invariant {I : PlayerMgr → KCPServer → Prop} (rids : List Nat) (h : I g.pm g.kcp)
    (hstep : ∀ pm kcp, I pm kcp → ∀ rid ∈ rids, ∀ p, pm.ridPMap[rid]? = some p →
      I (pm.removeP kcp rid).1 (pm.removeP kcp rid).2) : I (g.removePs rids).pm (g.removePs rids).kcp := by
  induction rids generalizing g with
  | nil => exact h
  | cons rid rids ih =>
    refine ih (g := { g with pm := (g.pm.removeP g.kcp rid).1, kcp := (g.pm.removeP g.kcp rid).2 }) ?_
      fun pm kcp hI rid' hrid => hstep pm kcp hI rid' (List.mem_cons_of_mem _ hrid)
    cases hp : g.pm.ridPMap[rid]? with
    | none => rw [PlayerMgr.removeP_of_none hp]; exact h
    | some p => exact hstep _ _ h rid List.mem_cons_self p hp

/-- What a sequence of `RemoveP`s makes of players and sessions. -/
structure Removes (g : GameNode) (rids : List Nat) (g' : GameNode) : Prop where
  pm : g'.pm = (g.removePs rids).pm
  kcp : g'.kcp = (g.removePs rids).kcp

theorem removes_nil (hpm : g'.pm = g.pm) (hkcp : g'.kcp = g.kcp) : Removes g [] g' := ⟨hpm, hkcp⟩

theorem Removes.trans {g'' : GameNode} {rids rids' : List Nat} (h : Removes g rids g') (h' : Removes g' rids' g'') :
    Removes g (rids ++ rids') g'' := by
  obtain ⟨hpm, hkcp⟩ := removePs_congr h.pm h.kcp rids'
  rw [← removePs_append] at hpm hkcp
  exact ⟨h'.pm.trans hpm, h'.kcp.trans hkcp⟩

theorem rawOver_removes (g : GameNode) (r : Nat) : Removes g (g.room r).ridPMap.keys (g.rawOver r).1 := by
  obtain ⟨hpm, hkcp⟩ := removePs_congr (g := g.modifyRoom r ({ · with brun := false })) (h := g) rfl rfl
    (g.room r).ridPMap.keys
  exact ⟨hpm, hkcp⟩

/-! ## One room -/

/-- What `roomObj::Update` does with a room: it finishes the room or not, as the room's state says. -/
structure UpdatedRoom (g : GameNode) (r : Nat) (g' : GameNode) (ret : Int) (outs : List Out) : Prop where
  rm : ∃ msgs R, g'.rm = { g.rm with msgs, rooms := g.rm.rooms.set r R } ∧ (g.room r).Same R ∧
    ((g.room r).Clock → R.Clock)
  ret : ret = if (g.room r).finishing then 1 else 0
  removes : Removes g (g.room r).finishedRids g'
  frames : ∀ {q conns data}, Out.frame q conns data ∈ outs → q = r ∧ conns = (g.room r).pidConn.values

theorem not_frame_rawOver (g : GameNode) (r : Nat) {q : Nat} {conns : List Nat} {data : Nat × List Cmd} :
    Out.frame q conns data ∉ (g.rawOver r).2 := by
  simp [rawOver]

theorem updateRoom_spec {r ms : Nat} {ret : Int} {outs : List Out} (hclock : (g.room r).Clock)
    (heq : g.updateRoom r ms = .ok (g', ret, outs)) : UpdatedRoom g r g' ret outs := by
  cases updated_of_updateRoom heq with
  | gate hgate =>
    have hfin : (g.room r).finishing = true := by simp [Room.finishing, hgate]
    refine ⟨⟨g.rm.msgs, { g.room r with brun := false }, rawOver_rm g r, ⟨rfl, rfl, rfl, rfl⟩, fun hc => ⟨hc.1, hc.2, hc.3⟩⟩,
      by rw [hfin]; rfl, ?_, fun hmem => absurd hmem (not_frame_rawOver g r)⟩
    rw [Room.finishedRids, hfin]
    exact rawOver_removes g r
  | idle hgate hidle =>
    have hfin : (g.room r).finishing = false := by
      rcases hidle with hrun | hsize
      · simp [Room.finishing, hgate, hrun]
      · simp [Room.finishing, hgate, hsize]
    refine ⟨⟨g.rm.msgs, g.room r, by rw [Heap.set_at], .refl _, id⟩, by rw [hfin]; rfl, ?_, by simp⟩
    rw [Room.finishedRids, hfin]
    exact removes_nil rfl rfl
  | first hgate hrun hsize hms =>
    have hfin : (g.room r).finishing = false := by simp [Room.finishing, hgate, hms]
    refine ⟨⟨g.rm.msgs, _, rfl, ⟨rfl, rfl, rfl, rfl⟩, fun hc => ⟨hc.1, hc.2, hc.3⟩⟩, by rw [hfin]; rfl, ?_, by simp⟩
    rw [Room.finishedRids, hfin]
    exact removes_nil rfl rfl
  | tick hgate hrun hsize hms hadv hend =>
    obtain ⟨⟨msgs, R, rfl, htick⟩, houts⟩ := RoomMgr.advance_eq hadv
    dsimp only at hend
    rw [Heap.set_self] at hend
    have hmax : (g.room r).endFrameId = 2147483648 := by
      rw [← htick.endFrameId]
      obtain ⟨hnonneg, hbound, hmax | hle⟩ := htick.clock hclock
      · exact hmax
      · refine hend.resolve_left fun hlt => ?_
        unfold uint32 at hlt
        omega
    have hfin : (g.room r).finishing = false := by simp [Room.finishing, hgate, hmax]
    refine ⟨⟨msgs, R, rfl, htick.same, htick.clock⟩, by rw [hfin]; rfl, ?_, fun hmem => ?_⟩
    · rw [Room.finishedRids, hfin]
      exact removes_nil rfl rfl
    · obtain ⟨data, heq⟩ := houts _ hmem
      cases heq
      exact ⟨rfl, rfl⟩
  | finish hgate hrun hsize hms hadv hend =>
    obtain ⟨⟨msgs, R, rfl, htick⟩, houts⟩ := RoomMgr.advance_eq hadv
    dsimp only at hend
    rw [Heap.set_self] at hend
    have hfin : (g.room r).finishing = true := by
      simp [Room.finishing, hgate, hrun, hsize, hms, ← htick.endFrameId, hend.2]
    set g₁ : GameNode := { g with rm := { g.rm with msgs, rooms := g.rm.rooms.set r R } } with hg₁
    have hroom : g₁.room r = R := Heap.set_self ..
    refine ⟨⟨msgs, { R with brun := false }, ?_, htick.same.trans ⟨rfl, rfl, rfl, rfl⟩, fun hc => ?_⟩, by rw [hfin]; rfl,
      ?_, fun hmem => ?_⟩
    · rw [rawOver_rm]
      simp only [hg₁, RoomMgr.modify, Heap.set_self, Heap.set_set]
    · obtain ⟨h₁, h₂, h₃⟩ := htick.clock hc
      exact ⟨h₁, h₂, h₃⟩
    · rw [Room.finishedRids, hfin, if_pos rfl, ← htick.same.ridPMap, ← hroom]
      have hnil : Removes g [] g₁ := removes_nil rfl rfl
      exact hnil.trans (rawOver_removes g₁ r)
    · rcases List.mem_append.mp hmem with hmem | hmem
      · obtain ⟨data, heq⟩ := houts _ hmem
        cases heq
        exact ⟨rfl, rfl⟩
      · exact absurd hmem (not_frame_rawOver g₁ r)

/-! ## All rooms -/

def finished (g : GameNode) (es : List (Int × Nat)) : List (Int × Nat) := es.filter fun e => (g.room e.2).finishing

/-- What the loop of `roomMgr::Update` over entries `es` does. -/
structure UpdatedRooms (g : GameNode) (es : List (Int × Nat)) (g' : GameNode) (outs : List Out) : Prop where
  rooms : SameRooms g.rm.rooms g'.rm.rooms
  others : ∀ q ∉ es.map Prod.snd, g'.room q = g.room q
  next : g'.rm.rooms.next = g.rm.rooms.next
  idMap : ∀ {k r}, g'.rm.idMap[k]? = some r ↔ g.rm.idMap[k]? = some r ∧ k ∉ (g.finished es).map Prod.fst
  que : g'.rm.finnalRoomQue = g.rm.finnalRoomQue ++ (g.finished es).map Prod.snd
  poolRoom : g'.rm.poolRoom = g.rm.poolRoom
  removes : Removes g (es.flatMap fun e => (g.room e.2).finishedRids) g'
  frames : ∀ {r conns data}, Out.frame r conns data ∈ outs → r ∈ es.map Prod.snd ∧ conns = (g.room r).pidConn.values

theorem updateRooms_spec {ms : Nat} {es : List (Int × Nat)} {outs : List Out} (hclock : ∀ q, (g.room q).Clock)
    (hnodup : (es.map Prod.snd).Nodup) (heq : g.updateRooms ms es = .ok (g', outs)) : UpdatedRooms g es g' outs := by
  induction es generalizing g outs with
  | nil =>
    cases heq
    exact ⟨.refl _, fun _ _ => rfl, rfl, by simp [finished], by simp [finished], rfl, removes_nil rfl rfl, by simp⟩
  | cons e es ih =>
    obtain ⟨k, r⟩ := e
    obtain ⟨hnot, hnodup⟩ := List.nodup_cons.mp hnodup
    obtain ⟨⟨g₁, ret, outs₁⟩, hup, heq⟩ := bind_eq_ok.mp heq
    obtain ⟨⟨g₃, outs₂⟩, hrest, heq⟩ := bind_eq_ok.mp heq
    cases heq
    obtain ⟨⟨msgs, R, hrm, hsame, hR⟩, hret, hrem, hframes⟩ := updateRoom_spec (hclock r) hup
    set g₂ : GameNode := if ret = 1 then
        { g₁ with rm := { g₁.rm with finnalRoomQue := g₁.rm.finnalRoomQue ++ [r], idMap := g₁.rm.idMap.erase k } }
      else g₁ with hg₂
    have hrooms₂ : g₂.rm.rooms = g.rm.rooms.set r R := by
      rw [hg₂]
      split <;> simp only [hrm]
    have hsame₂ : SameRooms g.rm.rooms g₂.rm.rooms := hrooms₂ ▸ sameRooms_set hsame hR
    have hother : ∀ q ≠ r, g₂.room q = g.room q := by
      intro q hq
      change g₂.rm.rooms q = g.rm.rooms q
      rw [hrooms₂, Heap.set_of_ne _ hq]
    -- the rest of the loop finds the rooms that it has still to do as they were
    have hlater : ∀ e ∈ es, g₂.room e.2 = g.room e.2 := fun e he =>
      hother e.2 fun her => hnot (List.mem_map.mpr ⟨e, he, her⟩)
    have hfinished : g₂.finished es = g.finished es := List.filter_congr fun e he => by rw [hlater e he]
    have hih := ih (fun q => (hsame₂ q).2 (hclock q)) hnodup hrest
    have hqueues : ((g.room r).finishing = true ∧ g₂.rm.idMap = g.rm.idMap.erase k ∧
          g₂.rm.finnalRoomQue = g.rm.finnalRoomQue ++ [r]) ∨
        ((g.room r).finishing = false ∧ g₂.rm.idMap = g.rm.idMap ∧ g₂.rm.finnalRoomQue = g.rm.finnalRoomQue) := by
      cases hfin : (g.room r).finishing with
      | true =>
        rw [hfin, if_pos rfl] at hret
        rw [hg₂, if_pos hret, hrm]
        exact Or.inl ⟨rfl, rfl, rfl⟩
      | false =>
        rw [hfin, if_neg (by simp)] at hret
        rw [hg₂, if_neg (by simp [hret]), hrm]
        exact Or.inr ⟨rfl, rfl, rfl⟩
    have hrem₂ : Removes g (g.room r).finishedRids g₂ := by
      rw [hg₂]
      split
      · exact ⟨hrem.pm, hrem.kcp⟩
      · exact hrem
    refine ⟨hsame₂.trans hih.rooms, fun q hq => ?_, ?_, fun {k' r'} => ?_, ?_, ?_, ?_, fun {q conns data} hmem => ?_⟩
    · rw [List.map_cons, List.mem_cons, not_or] at hq
      rw [hih.others q hq.2, hother q hq.1]
    · rw [hih.next, hrooms₂, Heap.set_next]
    · rw [hih.idMap, hfinished]
      rcases hqueues with ⟨hfin, hid, -⟩ | ⟨hfin, hid, -⟩
      · rw [hid, erase_eq_some, finished, finished, List.filter_cons, if_pos hfin, List.map_cons, List.mem_cons, not_or]
        tauto
      · rw [hid, finished, finished, List.filter_cons, if_neg (by simp [hfin])]
    · rw [hih.que, hfinished]
      rcases hqueues with ⟨hfin, -, hque⟩ | ⟨hfin, -, hque⟩
      · rw [hque]
        simp [finished, hfin]
      · rw [hque]
        simp [finished, hfin]
    · rw [hih.poolRoom, hg₂]
      split <;> simp only [hrm]
    · rw [List.flatMap_cons]
      have hrids : (es.flatMap fun e => (g₂.room e.2).finishedRids) = es.flatMap fun e => (g.room e.2).finishedRids :=
        List.flatMap_congr fun e he => by rw [hlater e he]
      rw [← hrids]
      exact hrem₂.trans hih.removes
    · rcases List.mem_append.mp hmem with hmem | hmem
      · obtain ⟨rfl, rfl⟩ := hframes hmem
        exact ⟨by simp, rfl⟩
      · obtain ⟨hq, rfl⟩ := hih.frames hmem
        refine ⟨by simp [hq], ?_⟩
        rw [((hsame₂ q).1).pidConn]

/-! ## `UpdateFinnal` -/

/-- What the loop of `UpdateFinnal` does with the rooms: it empties their records and puts them in the pool. -/
theorem finnals_spec (m : RoomMgr) (rs : List Nat) :
    (finnals m rs).1.idMap = m.idMap ∧ (finnals m rs).1.finnalRoomQue = m.finnalRoomQue ∧
      (finnals m rs).1.poolRoom = m.poolRoom ++ rs ∧ (finnals m rs).1.rooms.next = m.rooms.next ∧
      SameRooms m.rooms (finnals m rs).1.rooms ∧
      ∀ {r conns data}, Out.frame r conns data ∉ (finnals m rs).2 := by
  induction rs generalizing m with
  | nil => exact ⟨rfl, rfl, (List.append_nil _).symm, rfl, .refl _, List.not_mem_nil⟩
  | cons r rs ih =>
    obtain ⟨hid, hque, hpool, hnext, hrooms, hframes⟩ := ih ((m.finnal r).1.pushRoom r)
    have hsame : SameRooms m.rooms ((m.finnal r).1.pushRoom r).rooms :=
      sameRooms_set (R := { m.rooms r with allOperMap := ∅ }) ⟨rfl, rfl, rfl, rfl⟩ fun hc => ⟨hc.1, hc.2, hc.3⟩
    refine ⟨hid, hque, ?_, hnext, hsame.trans hrooms, fun {r' conns data} hmem => ?_⟩
    · change (finnals ((m.finnal r).1.pushRoom r) rs).1.poolRoom = _
      rw [hpool]
      exact List.append_assoc ..
    · rcases List.mem_cons.mp hmem with heq | hmem
      · cases heq
      · exact hframes hmem

end GameNode

/-! ## A pass -/

/-- The rooms of `m_idMap` are registered under their ids and are not in the pool, and no room waits for `Finnal`. -/
structure RoomMgr.Hosting (m : RoomMgr) : Prop where
  free : FreeList m.rooms m.poolRoom
  idMap : ∀ {k : Int} {r : Nat}, m.idMap[k]? = some r → (m.rooms r).roomid = k ∧ r ∉ m.poolRoom ∧ r < m.rooms.next
  que : m.finnalRoomQue = []
  clock : ∀ q, (m.rooms q).Clock

theorem RoomMgr.Hosting.inj {m : RoomMgr} (h : m.Hosting) {k k' : Int} {r : Nat} (hk : m.idMap[k]? = some r)
    (hk' : m.idMap[k']? = some r) : k = k' := (h.idMap hk).1.symm.trans (h.idMap hk').1

theorem RoomMgr.Hosting.nodup_rooms {m : RoomMgr} (h : m.Hosting) : (m.idMap.toList.map Prod.snd).Nodup := by
  refine List.Nodup.map_on ?_ (nodup_toList _)
  rintro ⟨k, r⟩ hk ⟨k', r'⟩ hk' heq
  obtain rfl : r = r' := heq
  obtain rfl : k = k' := h.inj (Std.TreeMap.mem_toList_iff_getElem?_eq_some.mp hk)
    (Std.TreeMap.mem_toList_iff_getElem?_eq_some.mp hk')
  rfl

namespace GameNode
variable {g g' : GameNode}

/-- What `roomMgr::Update` does when it does anything. -/
structure Passed (g g' : GameNode) (outs : List Out) : Prop where
  rooms : SameRooms g.rm.rooms g'.rm.rooms
  idMap : ∀ {k : Int} {r : Nat}, g'.rm.idMap[k]? = some r ↔
    g.rm.idMap[k]? = some r ∧ (g.room r).finishing = false
  removes : Removes g (g.rm.idMap.toList.flatMap fun e => (g.room e.2).finishedRids) g'
  hosting : g'.rm.Hosting
  frames : ∀ {r conns data}, Out.frame r conns data ∈ outs →
    (∃ k : Int, g.rm.idMap[k]? = some r) ∧ conns = (g.room r).pidConn.values

/-- A pass comes too early, or it is the loop over the rooms and `UpdateFinnal`. -/
theorem update_eq_ok {ms : Nat} {outs : List Out} (heq : g.update ms = .ok (g', outs)) :
    (g' = g ∧ outs = []) ∨ ∃ g₁ outs₁,
      ({ g with rm := { g.rm with lastMs := ms } } : GameNode).updateRooms ms g.rm.idMap.toList = .ok (g₁, outs₁) ∧
        g' = { g₁ with rm := (updateFinnal g₁.rm).1 } ∧ outs = outs₁ ++ (updateFinnal g₁.rm).2 := by
  unfold update at heq
  split at heq
  · cases heq
    exact Or.inl ⟨rfl, rfl⟩
  · obtain ⟨⟨g₁, outs₁⟩, hloop, heq⟩ := bind_eq_ok.mp heq
    cases heq
    exact Or.inr ⟨g₁, outs₁, hloop, rfl, rfl⟩

theorem mem_finished {k : Int} {r : Nat} :
    (k, r) ∈ g.finished g.rm.idMap.toList ↔ g.rm.idMap[k]? = some r ∧ (g.room r).finishing = true := by
  unfold finished
  rw [List.mem_filter, Std.TreeMap.mem_toList_iff_getElem?_eq_some]

theorem not_mem_finished {k : Int} {r : Nat} (hk : g.rm.idMap[k]? = some r) :
    k ∉ (g.finished g.rm.idMap.toList).map Prod.fst ↔ (g.room r).finishing = false := by
  rw [← Bool.not_eq_true, not_iff_not, List.mem_map]
  constructor
  · rintro ⟨⟨k', r'⟩, he, rfl⟩
    obtain ⟨hk', hfin⟩ := mem_finished.mp he
    rw [hk] at hk'
    cases hk'
    exact hfin
  · exact fun hfin => ⟨(k, r), mem_finished.mpr ⟨hk, hfin⟩, rfl⟩

/-- The room objects that a pass puts in the pool. -/
theorem registered_of_finished {r : Nat} (hr : r ∈ (g.finished g.rm.idMap.toList).map Prod.snd) :
    ∃ k : Int, g.rm.idMap[k]? = some r ∧ (g.room r).finishing = true := by
  obtain ⟨⟨k, r'⟩, he, rfl⟩ := List.mem_map.mp hr
  exact ⟨k, mem_finished.mp he⟩

theorem freeList_finished {rooms : Heap Room} (h : g.rm.Hosting) (hnext : rooms.next = g.rm.rooms.next) :
    FreeList rooms (g.rm.poolRoom ++ (g.finished g.rm.idMap.toList).map Prod.snd) := by
  refine ⟨?_, fun r hr => ?_⟩
  · rw [List.nodup_append]
    refine ⟨h.free.nodup, h.nodup_rooms.sublist (List.filter_sublist.map _), ?_⟩
    rintro r hr r' hr' rfl
    obtain ⟨k, hk, -⟩ := registered_of_finished hr'
    exact (h.idMap hk).2.1 hr
  · rw [hnext]
    rcases List.mem_append.mp hr with hr | hr
    · exact h.free.lt_next r hr
    · obtain ⟨k, hk, -⟩ := registered_of_finished hr
      exact (h.idMap hk).2.2

theorem pools_of_loop {ms : Nat} {g₁ : GameNode} {outs : List Out} (h : g.rm.Hosting)
    (hup : UpdatedRooms { g with rm := { g.rm with lastMs := ms } } g.rm.idMap.toList g₁ outs) :
    (updateFinnal g₁.rm).1.rooms.next = g.rm.rooms.next ∧
      (updateFinnal g₁.rm).1.poolRoom = g.rm.poolRoom ++ (g.finished g.rm.idMap.toList).map Prod.snd := by
  obtain ⟨-, -, hpool, hnext, -, -⟩ := finnals_spec { g₁.rm with finnalRoomQue := [] } g₁.rm.finnalRoomQue
  refine ⟨hnext.trans hup.next, ?_⟩
  have hque : g₁.rm.finnalRoomQue = (g.finished g.rm.idMap.toList).map Prod.snd := by
    refine hup.que.trans ?_
    dsimp only
    rw [h.que]
    rfl
  unfold updateFinnal
  rw [hpool, hque]
  exact congrArg (· ++ _) hup.poolRoom

/-- The rooms that a pass leaves registered are not in the pool. -/
theorem hosting_finnal {m : RoomMgr} (h : g.rm.Hosting) (hsame : SameRooms g.rm.rooms m.rooms)
    (hnext : m.rooms.next = g.rm.rooms.next) (hque : m.finnalRoomQue = [])
    (hpool : m.poolRoom = g.rm.poolRoom ++ (g.finished g.rm.idMap.toList).map Prod.snd)
    (hid : ∀ {k : Int} {r : Nat}, m.idMap[k]? = some r ↔ g.rm.idMap[k]? = some r ∧ (g.room r).finishing = false) :
    m.Hosting := by
  refine ⟨?_, fun {k r} hk => ?_, hque, fun q => (hsame q).2 (h.clock q)⟩
  · rw [hpool]
    exact freeList_finished h hnext
  · obtain ⟨hk, hfin⟩ := hid.mp hk
    obtain ⟨hroomid, hnot, hlt⟩ := h.idMap hk
    refine ⟨(hsame r).1.roomid.trans hroomid, fun hr => ?_, hnext ▸ hlt⟩
    rw [hpool, List.mem_append] at hr
    rcases hr with hr | hr
    · exact hnot hr
    · -- a room in the pool is finished, and this one is not
      obtain ⟨-, -, hfin'⟩ := registered_of_finished hr
      rw [hfin] at hfin'
      cases hfin'

theorem update_spec {ms : Nat} {outs : List Out} (h : g.rm.Hosting) (heq : g.update ms = .ok (g', outs)) :
    (g' = g ∧ outs = []) ∨ Passed g g' outs := by
  rcases update_eq_ok heq with hnone | ⟨g₁, outs₁, hloop, rfl, rfl⟩
  · exact Or.inl hnone
  · right
    have hup := updateRooms_spec (g := { g with rm := { g.rm with lastMs := ms } }) h.clock h.nodup_rooms hloop
    obtain ⟨hnext, hpool⟩ := pools_of_loop h hup
    obtain ⟨hid₂, hque₂, -, -, hrooms₂, hframes₂⟩ :=
      finnals_spec { g₁.rm with finnalRoomQue := [] } g₁.rm.finnalRoomQue
    have hsame : SameRooms g.rm.rooms (updateFinnal g₁.rm).1.rooms := hup.rooms.trans hrooms₂
    have hidMap : ∀ {k : Int} {r : Nat}, (updateFinnal g₁.rm).1.idMap[k]? = some r ↔
        g.rm.idMap[k]? = some r ∧ (g.room r).finishing = false := by
      intro k r
      unfold updateFinnal
      rw [hid₂, hup.idMap]
      exact and_congr_right not_mem_finished
    obtain ⟨hpm, hkcp⟩ := removePs_congr (g := { g with rm := { g.rm with lastMs := ms } }) (h := g) rfl rfl
      (g.rm.idMap.toList.flatMap fun e => (g.room e.2).finishedRids)
    refine ⟨hsame, hidMap, ⟨hup.removes.pm.trans hpm, hup.removes.kcp.trans hkcp⟩, ?_, fun {r conns data} hout => ?_⟩
    · exact hosting_finnal h hsame hnext hque₂ hpool hidMap
    · rcases List.mem_append.mp hout with hout | hout
      · obtain ⟨hr, hconns⟩ := hup.frames hout
        obtain ⟨⟨k, r'⟩, he, rfl⟩ := List.mem_map.mp hr
        exact ⟨⟨k, Std.TreeMap.mem_toList_iff_getElem?_eq_some.mp he⟩, hconns⟩
      · exact absurd hout hframes₂

end GameNode

end KcpServer
