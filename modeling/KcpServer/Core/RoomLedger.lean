import KcpServer.Core.Owner

/-!
# Where the room objects are

A room object is taken by `popRoom` and handed on by pointer: to `m_idMap`, from there to `m_finnalRoomQue` and back to
`m_poolRoom`. `AppendR` overwrites what `m_idMap` has under the room's id, and an overwritten room is nowhere: nothing
updates it any more and nothing puts it in the pool. `rooms_conserved_iff` says that this is the only way to lose a room, and
that every other room leaves `m_idMap` by `RawOver` and `Finnal`.
-/

namespace KcpServer
open Lib

def accepted (body : Bytes) : Option NewRoomBody :=
  match parseNewRoom body with
  | .error _ => none
  | .ok b => if b.pidvec.length = b.ridvec.length ∧ b.ridvec.length = b.campvec.length then some b else none

theorem accepted_of_parse {body : Bytes} {b : NewRoomBody} (hbody : parseNewRoom body = .ok b) : accepted body =
    if b.pidvec.length = b.ridvec.length ∧ b.ridvec.length = b.campvec.length then some b else none := by
  unfold accepted
  rw [hbody]

theorem accepted_eq_some {body : Bytes} {b : NewRoomBody} (h : accepted body = some b) :
    parseNewRoom body = .ok b ∧ b.pidvec.length = b.ridvec.length ∧ b.ridvec.length = b.campvec.length := by
  unfold accepted at h
  split at h
  · cases h
  · next b' hparse =>
    split at h
    · next hlen =>
      cases h
      exact ⟨hparse, hlen⟩
    · cases h

inductive RoomPlace
  | idMap (k : Int)
  | finnalRoomQue (i : Nat)
  | poolRoom (i : Nat)

namespace RoomMgr
variable {m : RoomMgr} {r : Nat}

def At (m : RoomMgr) (r : Nat) : RoomPlace → Prop
  | .idMap k => m.idMap[k]? = some r
  | .finnalRoomQue i => m.finnalRoomQue[i]? = some r
  | .poolRoom i => m.poolRoom[i]? = some r

/-- Every room object that `popRoom` has returned is in exactly one place, and the rooms in `m_idMap` are there under their
own ids. -/
structure Conserved (m : RoomMgr) : Prop where
  place : ∀ r < m.rooms.next, ∃! x, m.At r x
  own : ∀ {k : Int} {r : Nat}, m.idMap[k]? = some r → (m.rooms r).roomid = k

/-- No room object is lost. -/
def Covered (m : RoomMgr) : Prop := ∀ r < m.rooms.next, (∃ k : Int, m.idMap[k]? = some r) ∨ r ∈ m.poolRoom

/-- The registry leaves open only whether a room is lost. -/
theorem Hosting.conserved_iff (h : m.Hosting) : m.Conserved ↔ m.Covered := by
  constructor
  · intro hc r hr
    obtain ⟨x, hx, -⟩ := hc.place r hr
    cases x with
    | idMap k => exact Or.inl ⟨k, hx⟩
    | finnalRoomQue i =>
      unfold At at hx
      rw [h.que] at hx
      cases hx
    | poolRoom i => exact Or.inr (List.mem_of_getElem? hx)
  · intro hc
    refine ⟨fun r hr => ?_, fun hk => (h.idMap hk).1⟩
    have hque : ∀ i, ¬ m.At r (.finnalRoomQue i) := by
      intro i hi
      unfold At at hi
      rw [h.que] at hi
      cases hi
    rcases hc r hr with ⟨k, hk⟩ | hpool
    · refine ⟨.idMap k, hk, fun x hx => ?_⟩
      cases x with
      | idMap k' => exact congrArg _ (h.inj hx hk)
      | finnalRoomQue i => exact absurd hx (hque i)
      | poolRoom i => exact absurd (List.mem_of_getElem? hx) (h.idMap hk).2.1
    · obtain ⟨i, hi, hget⟩ := List.getElem_of_mem hpool
      refine ⟨.poolRoom i, List.getElem?_eq_some_iff.mpr ⟨hi, hget⟩, fun x hx => ?_⟩
      cases x with
      | idMap k => exact absurd hpool (h.idMap hx).2.1
      | finnalRoomQue i => exact absurd hx (hque i)
      | poolRoom j =>
        obtain ⟨hj, hget'⟩ := List.getElem?_eq_some_iff.mp hx
        exact congrArg _ ((h.free.nodup.getElem_inj_iff).mp (hget'.trans hget.symm))

end RoomMgr

namespace GameNode
variable {pb : Pb} {g g' : GameNode} {o : GameOp} {outs : List Out}

/-! ## `NewRoom` -/

/-- The condition: no room is created under an id that is in use. -/
def Unused (g : GameNode) : GameOp → Prop
  | .newRoom pid body => (accepted body).isSome = true → g.rm.idMap[int32 pid]? = none
  | _ => True

instance (g : GameNode) (o : GameOp) : Decidable (g.Unused o) :=
  match o with
  | .newRoom pid body => inferInstanceAs (Decidable ((accepted body).isSome = true → g.rm.idMap[int32 pid]? = none))
  | .createConn _ _ _ _ | .scanTimeout _ | .delTimeout | .kcp _ | .overRoom _ _ | .offlineP _ | .enterP _ | .leaveP _
  | .allPReady _ | .api2003 _ _ | .update _ => isTrue trivial

theorem opened_pool {pid : Nat} {g₁ : GameNode} (h : g.rm.Hosting) (hopen : Quiet (g.openRoom pid) g₁) :
    (∀ q < g₁.rm.rooms.next, q < g.rm.rooms.next ∨ q = g.rm.popRoom.1) ∧ g.rm.rooms.next ≤ g₁.rm.rooms.next ∧
      (∀ q ∈ g.rm.poolRoom, q = g.rm.popRoom.1 ∨ q ∈ g₁.rm.poolRoom) ∧ ∀ q ∈ g₁.rm.poolRoom, q ∈ g.rm.poolRoom := by
  obtain ⟨rooms, poolRoom, hpop, hopened⟩ := g.openRoom_eq pid
  obtain ⟨-, -, -, -, hle, hsub, -, hnext⟩ := h.free.pop _ hpop
  rw [hopen.rm.next, hopen.rm.poolRoom, hopened]
  exact ⟨hnext, hle, fun q hq => mem_of_pop hpop hq, hsub⟩

theorem covered_newRoom {pid : Nat} {g₁ g₂ : GameNode} (h : g.rm.Hosting) (hc : g.rm.Covered)
    (hopen : Quiet (g.openRoom pid) g₁) (henter : g₁.rm.Entered g.rm.popRoom.1 g₂.rm) :
    (g₂.rm.appendR g.rm.popRoom.1).Covered ↔ g.rm.idMap[int32 pid]? = none := by
  have ho := opened h hopen
  obtain ⟨hnext, hle, hpool, hsub⟩ := opened_pool h hopen
  have hid := idMap_newRoom hopen henter
  set r := g.rm.popRoom.1
  have hpoolRoom : (g₂.rm.appendR r).poolRoom = g₁.rm.poolRoom := henter.poolRoom
  have hrooms : (g₂.rm.appendR r).rooms.next = g₁.rm.rooms.next := henter.next
  unfold RoomMgr.Covered
  rw [hid, hpoolRoom, hrooms]
  constructor
  · -- a room that is overwritten is lost
    intro hcov
    by_contra hused
    obtain ⟨q, hq⟩ := Option.ne_none_iff_exists'.mp hused
    obtain ⟨-, hqpool, hqlt⟩ := h.idMap hq
    rcases hcov q (lt_of_lt_of_le hqlt hle) with ⟨k, hk⟩ | hin
    · rcases insert_eq_some.mp hk with ⟨-, rfl⟩ | ⟨hne, hk⟩
      · exact ho.fresh _ hq
      · exact hne (h.inj hk hq)
    · exact hqpool (hsub q hin)
  · intro hunused q hq
    by_cases hqr : q = r
    · subst hqr
      exact Or.inl ⟨int32 pid, insert_eq_some.mpr (Or.inl ⟨rfl, rfl⟩)⟩
    · rcases hc q ((hnext q hq).resolve_right hqr) with ⟨k, hk⟩ | hin
      · refine Or.inl ⟨k, insert_eq_some.mpr (Or.inr ⟨?_, hk⟩)⟩
        intro hkid
        rw [hkid, hunused] at hk
        cases hk
      · exact Or.inr ((hpool q hin).resolve_left hqr)

/-- A room object that `NewRoom` does not use goes back to the pool. -/
theorem covered_badRoom {pid : Nat} {g₁ : GameNode} (h : g.rm.Hosting) (hc : g.rm.Covered)
    (hopen : Quiet (g.openRoom pid) g₁) : (g₁.rm.pushRoom g.rm.popRoom.1).Covered := by
  obtain ⟨hnext, -, hpool, -⟩ := opened_pool h hopen
  intro q hq
  unfold RoomMgr.pushRoom
  rw [(opened h hopen).idMap]
  by_cases hqr : q = g.rm.popRoom.1
  · exact Or.inr (List.mem_append_right _ (List.mem_singleton.mpr hqr))
  · rcases hc q ((hnext q hq).resolve_right hqr) with hk | hin
    · exact Or.inl hk
    · exact Or.inr (List.mem_append_left _ ((hpool q hin).resolve_left hqr))

/-! ## A pass -/

/-- A pass puts the finishing rooms in the pool, behind those that are there. -/
theorem update_pools {ms : Nat} (h : g.rm.Hosting) (heq : g.update ms = .ok (g', outs)) : (g' = g ∧ outs = []) ∨
    g'.rm.rooms.next = g.rm.rooms.next ∧
      g'.rm.poolRoom = g.rm.poolRoom ++ (g.finished g.rm.idMap.toList).map Prod.snd := by
  rcases update_eq_ok heq with hnone | ⟨g₁, outs₁, hloop, rfl, rfl⟩
  · exact Or.inl hnone
  · right
    have hup := updateRooms_spec (g := { g with rm := { g.rm with lastMs := ms } }) h.clock h.nodup_rooms hloop
    exact pools_of_loop h hup

theorem covered_update {ms : Nat} (h : g.rm.Hosting) (hc : g.rm.Covered) (heq : g.update ms = .ok (g', outs)) :
    g'.rm.Covered := by
  rcases update_pools h heq with ⟨rfl, -⟩ | ⟨hnext, hpool⟩
  · exact hc
  rcases update_spec h heq with ⟨rfl, -⟩ | hpass
  · exact hc
  intro r hr
  rw [hnext] at hr
  rw [hpool]
  rcases hc r hr with ⟨k, hk⟩ | hin
  · cases hfin : (g.room r).finishing with
    | true => exact Or.inr (List.mem_append_right _ (List.mem_map.mpr ⟨(k, r), mem_finished.mpr ⟨hk, hfin⟩, rfl⟩))
    | false => exact Or.inl ⟨k, hpass.idMap.mpr ⟨hk, hfin⟩⟩
  · exact Or.inr (List.mem_append_left _ hin)

/-! ## How a room ends -/

theorem finnals_outs (m : RoomMgr) {rs : List Nat} {r : Nat} (hr : r ∈ rs) :
    ∃ frametime frames, Out.updateFrameData (m.rooms r).roomid frametime frames ∈ (finnals m rs).2 := by
  induction rs generalizing m with
  | nil => cases hr
  | cons q rs ih =>
    rcases List.mem_cons.mp hr with rfl | hr
    · exact ⟨_, _, List.mem_cons_self⟩
    · obtain ⟨t, frames, hmem⟩ := ih ((m.finnal q).1.pushRoom q) hr
      have hid : (((m.finnal q).1.pushRoom q).rooms r).roomid = (m.rooms r).roomid :=
        (sameRooms_set (h := m.rooms) (r := q) (R := { m.rooms q with allOperMap := ∅ }) ⟨rfl, rfl, rfl, rfl⟩
          (fun hc => ⟨hc.1, hc.2, hc.3⟩) r).1.roomid
      rw [hid] at hmem
      exact ⟨t, frames, List.mem_cons_of_mem _ hmem⟩

theorem finnals_brun (m : RoomMgr) (rs : List Nat) (r : Nat) :
    ((finnals m rs).1.rooms r).brun = (m.rooms r).brun := by
  induction rs generalizing m with
  | nil => rfl
  | cons q rs ih =>
    refine (ih ((m.finnal q).1.pushRoom q)).trans ?_
    by_cases hr : r = q
    · subst hr
      show (((m.finnal r).1).rooms r).brun = _
      unfold RoomMgr.finnal
      rw [RoomMgr.modify_self]
    · show (((m.finnal q).1).rooms r).brun = _
      unfold RoomMgr.finnal
      rw [RoomMgr.modify_of_ne _ hr]

theorem brun_updateRoom {r ms : Nat} {ret : Int} (heq : g.updateRoom r ms = .ok (g', ret, outs)) (hret : ret = 1) :
    (g'.room r).brun = false := by
  cases updated_of_updateRoom heq with
  | gate hgate =>
    show ((g.rawOver r).1.rm.rooms r).brun = false
    rw [rawOver_rm, RoomMgr.modify_self]
  | idle hgate hidle => cases hret
  | first hgate hrun hsize hms => cases hret
  | tick hgate hrun hsize hms hadv hend => cases hret
  | @finish rm outs hgate hrun hsize hms hadv hend =>
    show ((({ g with rm } : GameNode).rawOver r).1.rm.rooms r).brun = false
    rw [rawOver_rm, RoomMgr.modify_self]

theorem brun_updateRooms {ms : Nat} {es : List (Int × Nat)} (hclock : ∀ q, (g.room q).Clock)
    (hnodup : (es.map Prod.snd).Nodup) (heq : g.updateRooms ms es = .ok (g', outs)) :
    ∀ e ∈ es, (g.room e.2).finishing = true → (g'.room e.2).brun = false := by
  induction es generalizing g outs with
  | nil =>
    intro e he
    cases he
  | cons e es ih =>
    obtain ⟨k, r⟩ := e
    obtain ⟨hnot, hnodup⟩ := List.nodup_cons.mp hnodup
    obtain ⟨⟨g₁, ret, outs₁⟩, hup, heq⟩ := bind_eq_ok.mp heq
    obtain ⟨⟨g₃, outs₂⟩, hrest, heq⟩ := bind_eq_ok.mp heq
    cases heq
    dsimp only at hrest ⊢
    obtain ⟨⟨msgs, R, hrm, hsame, hR⟩, hret, -, -⟩ := updateRoom_spec (hclock r) hup
    set g₂ : GameNode := if ret = 1 then
        { g₁ with rm := { g₁.rm with finnalRoomQue := g₁.rm.finnalRoomQue ++ [r], idMap := g₁.rm.idMap.erase k } }
      else g₁ with hg₂
    have hrooms : g₂.rm.rooms = g₁.rm.rooms := by
      rw [hg₂]
      split <;> rfl
    have hrooms₂ : g₂.rm.rooms = g.rm.rooms.set r R := by rw [hrooms, hrm]
    have hclock₂ : ∀ q, (g₂.room q).Clock := by
      intro q
      unfold room
      rw [hrooms₂]
      exact (sameRooms_set hsame hR q).2 (hclock q)
    intro e he hfin
    rcases List.mem_cons.mp he with rfl | he
    · rw [if_pos hfin] at hret
      rw [(updateRooms_spec hclock₂ hnodup hrest).others r hnot, room, hrooms]
      exact brun_updateRoom hup hret
    · refine ih hclock₂ hnodup hrest e he ?_
      have hne : e.2 ≠ r := fun her => hnot (List.mem_map.mpr ⟨e, he, her⟩)
      unfold room
      rw [hrooms₂, Heap.set_of_ne _ hne]
      exact hfin

/-- `RemoveP` takes its rid out of `m_ridPMap` and puts none in. -/
theorem ridPMap_removeP (pm : PlayerMgr) (kcp : KCPServer) {rid q : Nat} (h : rid = q ∨ pm.ridPMap[rid]? = none) :
    (pm.removeP kcp q).1.ridPMap[rid]? = none := by
  cases hq : pm.ridPMap[q]? with
  | none =>
    rw [PlayerMgr.removeP_of_none hq]
    rcases h with rfl | hnone
    · exact hq
    · exact hnone
  | some p =>
    rw [PlayerMgr.removeP_of_some hq, Option.eq_none_iff_forall_ne_some]
    intro p' hp'
    obtain ⟨hne, hp'⟩ := erase_eq_some.mp hp'
    rw [h.resolve_left hne] at hp'
    cases hp'

theorem ridPMap_removePs {rids : List Nat} {rid : Nat} (hrid : rid ∈ rids) :
    (g.removePs rids).pm.ridPMap[rid]? = none := by
  induction rids generalizing g with
  | nil => cases hrid
  | cons q rids ih =>
    by_cases hmem : rid ∈ rids
    · exact ih hmem
    · have hq : rid = q := (List.mem_cons.mp hrid).resolve_right hmem
      exact removePs_invariant (g := { g with pm := (g.pm.removeP g.kcp q).1, kcp := (g.pm.removeP g.kcp q).2 })
        (I := fun pm _ => pm.ridPMap[rid]? = none) rids (ridPMap_removeP _ _ (Or.inl hq))
        fun pm kcp hI q' _ _ _ => ridPMap_removeP pm kcp (Or.inr hI)

/-- The room of id `k` has gone through `RawOver`, which stops it and removes its players, and through `Finnal`, which
sends its record and puts it in the pool. -/
structure Finished (g g' : GameNode) (outs : List Out) (k : Int) (r : Nat) : Prop where
  finishing : (g.room r).finishing = true
  stopped : (g'.room r).brun = false
  removed : ∀ rid ∈ (g.room r).ridPMap.keys, g'.pm.ridPMap[rid]? = none
  recorded : ∃ frametime frames, Out.updateFrameData k frametime frames ∈ outs
  pooled : r ∈ g'.rm.poolRoom

theorem finished_update {ms : Nat} {k : Int} {r : Nat} (h : g.rm.Hosting) (heq : g.update ms = .ok (g', outs))
    (hk : g.rm.idMap[k]? = some r) : g'.rm.idMap[k]? = some r ∨ Finished g g' outs k r := by
  rcases update_pools h heq with ⟨rfl, -⟩ | ⟨-, hpool⟩
  · exact Or.inl hk
  rcases update_spec h heq with ⟨rfl, -⟩ | hpass
  · exact Or.inl hk
  rcases update_eq_ok heq with ⟨rfl, -⟩ | ⟨g₁, outs₁, hloop, rfl, rfl⟩
  · exact Or.inl hk
  cases hfin : (g.room r).finishing with
  | false => exact Or.inl (hpass.idMap.mpr ⟨hk, hfin⟩)
  | true =>
    have hmem : (k, r) ∈ g.rm.idMap.toList := Std.TreeMap.mem_toList_iff_getElem?_eq_some.mpr hk
    have hpooled : r ∈ (g.finished g.rm.idMap.toList).map Prod.snd :=
      List.mem_map.mpr ⟨(k, r), mem_finished.mpr ⟨hk, hfin⟩, rfl⟩
    have hup := updateRooms_spec (g := { g with rm := { g.rm with lastMs := ms } }) h.clock h.nodup_rooms hloop
    have hque : r ∈ g₁.rm.finnalRoomQue := by
      rw [hup.que]
      exact List.mem_append_right _ hpooled
    refine Or.inr ⟨hfin, ?_, fun rid hrid => ?_, ?_, ?_⟩
    · show ((updateFinnal g₁.rm).1.rooms r).brun = false
      rw [updateFinnal, finnals_brun]
      exact brun_updateRooms (g := { g with rm := { g.rm with lastMs := ms } }) h.clock h.nodup_rooms hloop _ hmem hfin
    · rw [hpass.removes.pm]
      exact ridPMap_removePs (List.mem_flatMap.mpr ⟨(k, r), hmem, Room.mem_finishedRids.mpr ⟨hfin, hrid⟩⟩)
    · obtain ⟨t, frames, hout⟩ := finnals_outs { g₁.rm with finnalRoomQue := [] } hque
      dsimp only at hout
      rw [(hup.rooms r).1.roomid] at hout
      dsimp only at hout
      rw [(h.idMap hk).1] at hout
      exact ⟨t, frames, List.mem_append_right _ hout⟩
    · rw [hpool]
      exact List.mem_append_right _ hpooled

/-! ## Every run -/

theorem covered_new : GameNode.new.rm.Covered := by
  intro r hr
  exact absurd hr (Nat.not_lt_zero r)

theorem places_stepped (hs : Stepped pb g o g') (hnew : ∀ pid body, o ≠ .newRoom pid body)
    (hupdate : ∀ ms, o ≠ .update ms) : g'.rm.idMap = g.rm.idMap ∧ g'.rm.poolRoom = g.rm.poolRoom ∧
      g'.rm.rooms.next = g.rm.rooms.next := by
  have hentered : ∀ {rm : RoomMgr} {r : Nat}, g.rm.Entered r rm →
      rm.idMap = g.rm.idMap ∧ rm.poolRoom = g.rm.poolRoom ∧ rm.rooms.next = g.rm.rooms.next :=
    fun he => ⟨he.idMap, he.poolRoom, he.next⟩
  cases hs with
  | createConn clifd buf msgs ms => exact ⟨rfl, rfl, rfl⟩
  | scanTimeout ms => exact ⟨rfl, rfl, rfl⟩
  | delTimeout => exact ⟨rfl, rfl, rfl⟩
  | quiet hq => exact ⟨hq.rm.idMap, hq.rm.poolRoom, hq.rm.next⟩
  | register hmsg hroom hrid hset => exact hentered (RoomMgr.entered_enterP _ _ _ _ _)
  | newRoom hbody hlen hopen henter => exact absurd rfl (hnew _ _)
  | badRoom hopen => exact absurd rfl (hnew _ _)
  | offline hp hq => exact ⟨hq.rm.idMap, hq.rm.poolRoom, hq.rm.next⟩
  | enter hroom hp => exact hentered (RoomMgr.entered_enterP _ _ _ _ _)
  | update hpass => exact absurd rfl (hupdate _)

theorem covered_stepped (hc : g.rm.Covered) (hs : Stepped pb g o g') (hnew : ∀ pid body, o ≠ .newRoom pid body)
    (hupdate : ∀ ms, o ≠ .update ms) : g'.rm.Covered := by
  obtain ⟨hid, hpool, hnext⟩ := places_stepped hs hnew hupdate
  unfold RoomMgr.Covered
  rw [hid, hpool, hnext]
  exact hc

/-- A step loses no room if and only if it meets the condition. -/
theorem covered_step (h : g.rm.Hosting) (hc : g.rm.Covered) (heq : g.exec pb o = .ok (g', outs)) :
    g'.rm.Covered ↔ g.Unused o := by
  have hs := stepped h (bind_eq_ok.mpr ⟨(g', outs), heq, rfl⟩)
  cases o with
  | newRoom pid body =>
    obtain ⟨g₂, hnew, heq⟩ := bind_eq_ok.mp heq
    cases heq
    obtain ⟨b, g₁, hbody, -, hopen, ⟨hlen, rfl⟩ | ⟨hlen, rfl⟩⟩ := newRoom_eq_ok hnew
    · rw [covered_newRoom h hc hopen (entered_enterNews _ _ _), Unused, accepted_of_parse hbody, if_pos hlen]
      exact ⟨fun hnone _ => hnone, fun hnone => hnone rfl⟩
    · rw [Unused, accepted_of_parse hbody, if_neg hlen]
      exact iff_of_true (covered_badRoom h hc hopen) fun hnone => nomatch hnone
  | update ms => exact iff_of_true (covered_update h hc heq) trivial
  | _ => exact iff_of_true (covered_stepped hc hs (fun _ _ => GameOp.noConfusion) fun _ => GameOp.noConfusion) trivial

/-- A registered room stays registered in a step that meets the condition, or it is finished. -/
theorem registered_step {k : Int} {r : Nat} (h : g.rm.Hosting) (hunused : g.Unused o)
    (heq : g.exec pb o = .ok (g', outs)) (hk : g.rm.idMap[k]? = some r) :
    g'.rm.idMap[k]? = some r ∨ (∃ ms, o = .update ms) ∧ Finished g g' outs k r := by
  have hs := stepped h (bind_eq_ok.mpr ⟨(g', outs), heq, rfl⟩)
  cases o with
  | newRoom pid body =>
    obtain ⟨g₂, hnew, heq⟩ := bind_eq_ok.mp heq
    cases heq
    obtain ⟨b, g₁, hbody, -, hopen, ⟨hlen, rfl⟩ | ⟨hlen, rfl⟩⟩ := newRoom_eq_ok hnew
    · rw [Unused, accepted_of_parse hbody, if_pos hlen] at hunused
      have hne : k ≠ int32 pid := by
        intro hkid
        rw [hkid, hunused rfl] at hk
        cases hk
      left
      show (RoomMgr.appendR _ _).idMap[k]? = some r
      rw [idMap_newRoom hopen (entered_enterNews _ _ _)]
      exact insert_eq_some.mpr (Or.inr ⟨hne, hk⟩)
    · left
      show g₁.rm.idMap[k]? = some r
      rw [(opened h hopen).idMap]
      exact hk
  | update ms => exact (finished_update h heq hk).imp_right fun hfin => ⟨⟨ms, rfl⟩, hfin⟩
  | _ => exact Or.inl ((places_stepped hs (fun _ _ => GameOp.noConfusion) fun _ => GameOp.noConfusion).1 ▸ hk)

theorem covered_of_reach (h : Reach (step pb) Unused .new g) : g.rm.Covered := by
  refine h.invariant_of (J := (·.rm.Covered)) (fun _ ht => hosting_of_reach ht) covered_new ?_
  intro s o t hhost hc hunused heq
  obtain ⟨⟨t', outs⟩, hexec, heq⟩ := bind_eq_ok.mp heq
  cases heq
  exact (covered_step hhost hc hexec).mpr hunused

/-- **No room is lost, with the exact condition.** In every run in which no room is created under an id that is in use,
every room object is in one place; the next step keeps it so if and only if it meets the condition, and then a registered
room stays registered unless it goes through `RawOver` and `Finnal`. -/
theorem rooms_conserved_iff (pb : Pb) (g : GameNode) (hg : Reach (step pb) Unused .new g) : g.rm.Conserved ∧
    ∀ o g' outs, g.exec pb o = .ok (g', outs) → (g'.rm.Conserved ↔ g.Unused o) ∧
      (g.Unused o → ∀ (k : Int) (r : Nat), g.rm.idMap[k]? = some r →
        g'.rm.idMap[k]? = some r ∨ (∃ ms, o = .update ms) ∧ Finished g g' outs k r) := by
  have h := hosting_of_reach hg
  have hc := covered_of_reach hg
  refine ⟨h.conserved_iff.mpr hc, fun o g' outs heq => ⟨?_, fun hunused k r hk => ?_⟩⟩
  · have hs := stepped h (bind_eq_ok.mpr ⟨(g', outs), heq, rfl⟩)
    rw [(hosting_stepped h hs).conserved_iff]
    exact covered_step h hc heq
  · exact registered_step h hunused heq hk

/-- One room is finished and one is registered. -/
theorem rooms_conserved_finishFirst : ∃ g : GameNode, g.live = [1] ∧ g.rm.poolRoom = [0] ∧ (g.rm.Conserved ∧
    ∀ o g' outs, g.exec ridParser o = .ok (g', outs) → (g'.rm.Conserved ↔ g.Unused o) ∧
      (g.Unused o → ∀ (k : Int) (r : Nat), g.rm.idMap[k]? = some r →
        g'.rm.idMap[k]? = some r ∨ (∃ ms, o = .update ms) ∧ Finished g g' outs k r)) := by
  obtain ⟨g, hg, hlive, hpool⟩ := exists_run (P := Unused) (finishFirst 7 8)
    (fun g => g.live = [1] ∧ g.rm.poolRoom = [0]) (by decide +kernel)
  exact ⟨g, hlive, hpool, rooms_conserved_iff ridParser g hg⟩

/-- A second room of id 1: the first one is nowhere. -/
theorem not_rooms_conserved : ∃ pb g, Reach (step pb) Env .new g ∧ ¬ g.rm.Conserved := by
  obtain ⟨g, hg, hnext, hid, hpool⟩ := exists_run (P := Env) [digitRoom 1 7, digitRoom 1 8]
    (fun g => g.rm.rooms.next = 2 ∧ (∀ r ∈ g.live, r ≠ 0) ∧ 0 ∉ g.rm.poolRoom) (by decide +kernel)
  refine ⟨ridParser, g, hg, fun hc => ?_⟩
  rcases (hosting_of_reach hg).conserved_iff.mp hc 0 (by omega) with ⟨k, hk⟩ | hin
  · exact hid 0 (mem_live.mpr ⟨k, hk⟩) rfl
  · exact hpool hin

end GameNode

end KcpServer
