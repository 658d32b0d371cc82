import KcpServer.Core.Finish

/-!
# Reading the log

Three readers of `m_allOperMap` answer a player or gate: `GetCacheFrames` sends what has been broadcast from an id on,
`GetFramesData` what has been broadcast under the ids that are asked for, and `Finnal` everything. The frames they send are
the broadcast ones, and the log is as it was behind the first two (`replies_agree`).
-/

namespace KcpServer
open Lib

namespace LogWorld

/-! ## Ids -/

section Ids
variable {t : Nat} {m : RoomMgr} {accepted : List Cmd} {sent : List (Nat × List Cmd)}

theorem Inv.filter_ge (h : Inv t m accepted sent) (beginid : Nat) :
    (sent.filter fun f => ¬ f.1 < beginid) = sent.drop beginid := by
  have hbefore : (sent.take beginid).filter (fun f => ¬ f.1 < beginid) = [] := by
    rw [List.filter_eq_nil_iff]
    intro f hf
    obtain ⟨k, hk, rfl⟩ := List.getElem_of_mem hf
    rw [List.length_take, lt_min_iff] at hk
    rw [List.getElem_take, h.ids k hk.2]
    simpa using hk.1
  have hbehind : (sent.drop beginid).filter (fun f => ¬ f.1 < beginid) = sent.drop beginid := by
    rw [List.filter_eq_self]
    intro f hf
    obtain ⟨k, hk, rfl⟩ := List.getElem_of_mem hf
    rw [List.length_drop] at hk
    rw [List.getElem_drop, h.ids (beginid + k) (by omega)]
    simp
  calc sent.filter (fun f => ¬ f.1 < beginid)
    _ = (sent.take beginid ++ sent.drop beginid).filter fun f => ¬ f.1 < beginid := by rw [List.take_append_drop]
    _ = sent.drop beginid := by rw [List.filter_append, hbefore, hbehind, List.nil_append]

theorem Inv.frameData_fst (h : Inv t m accepted sent) {k : Int} {f : Nat} (hf : (m.rooms t).allOperMap[k]? = some f) :
    (m.msgs.frameData f).1 = uint32 k := by
  have hentry := h.entry k
  rw [hf, Option.map_some] at hentry
  split at hentry
  · next hk =>
    obtain ⟨hlt, heq⟩ := List.getElem?_eq_some_iff.mp hentry.symm
    have hbound := h.bound
    rw [← heq, h.ids k.toNat hlt]
    unfold uint32
    omega
  · cases hentry

/-! ## The readers -/

theorem Inv.entry_int32 (h : Inv t m accepted sent) (fid : Nat) :
    (m.rooms t).allOperMap[int32 fid]?.map m.msgs.frameData = sent[uint32 fid]? := by
  have hbound := h.bound
  rw [h.entry]
  by_cases hfid : uint32 fid < 2 ^ 31
  · have heq : int32 fid = uint32 fid := by
      unfold uint32 at hfid ⊢
      rw [int32, Int.bmod_def]
      omega
    rw [heq, if_pos (by omega), Int.toNat_natCast]
  · have hneg : ¬ 0 ≤ int32 fid := by
      unfold uint32 at hfid
      rw [int32, Int.bmod_def]
      omega
    rw [if_neg hneg, List.getElem?_eq_none (by omega)]

theorem Inv.foundFrames (h : Inv t m accepted sent) (frameids : List Nat) :
    (m.foundFrames t frameids).map m.msgs.frameData = frameids.filterMap fun fid : Nat => sent[uint32 fid]? := by
  have hcast : (do let fid ← frameids; pure (fid : Int)) = frameids.map fun fid : Nat => (fid : Int) :=
    List.flatMap_pure_eq_map _ _
  rw [RoomMgr.foundFrames, hcast, List.filterMap_map, List.map_filterMap]
  exact List.filterMap_congr fun fid _ => h.entry_int32 fid

theorem Inv.frames (h : Inv t m accepted sent) :
    ((m.rooms t).allOperMap.toList.map fun e => m.msgs.frameData e.2) = sent := map_toList_of_dense h.entry

theorem Inv.getCacheFrames (h : Inv t m accepted sent) (players : Heap Player) (p beginid : Nat) :
    m.getCacheFrames players t p beginid = [.cacheFrames (players p).pid (sent.filter fun f => ¬ f.1 < beginid)] := by
  have hkeys : ∀ e ∈ (m.rooms t).allOperMap.toList, uint32 e.1 = (m.msgs.frameData e.2).1 := by
    intro e he
    exact (h.frameData_fst (Std.TreeMap.mem_toList_iff_getElem?_eq_some.mp he)).symm
  have hreply : ((m.rooms t).allOperMap.toList.filter fun e => ¬ uint32 e.1 < beginid).map
      (fun e => m.msgs.frameData e.2) = sent.filter fun f => ¬ f.1 < beginid := by
    rw [← h.frames, List.filter_map]
    congr 1
    apply List.filter_congr
    intro e he
    rw [hkeys e he]
    rfl
  show [Out.cacheFrames _ _] = _
  rw [hreply]

/-- The reply of `GetFramesData`, and that it leaves the log alone. -/
theorem Inv.getFramesData (h : Inv t m accepted sent) (pb : Pb) (players : Heap Player) (kcp : KCPServer) (p : Nat)
    (body : Bytes) :
    (m.getFramesData pb players kcp t p body).2 =
      (if (players p).sessid = 0 ∨ (players p).off then
        []
      else
        (kcp.rawGetConn (players p).sessid).toList.map fun c =>
          Out.repair c ((pb.frameids2002 body).filterMap fun fid : Nat => sent[uint32 fid]?)) ∧
    ((m.getFramesData pb players kcp t p body).1.rooms t).allOperMap = (m.rooms t).allOperMap ∧
    Inv t (m.getFramesData pb players kcp t p body).1 accepted sent := by
  obtain ⟨-, -, hrooms⟩ := h.owned.getFramesData (r := t) pb players kcp p body
  refine ⟨?_, by rw [hrooms], h.repaired pb players kcp t p body⟩
  rw [← h.foundFrames]
  rfl

end Ids

/-! ## The law -/

/-- **Replies and record agree with the broadcast.** After any history of a room, among the histories of the other rooms:
* the reply to a request of the frames from an id on lists the broadcast frames with that id or a greater one, in order, and
  with what is broadcast later it makes one run of consecutive ids;
* the reply to a list of ids has the broadcast frames with these ids, in the order of the list;
* behind either reply the log is as before;
* the record of the room is all broadcast frames, whose ids are those below `m_frameId`. -/
theorem replies_agree {pb : Pb} {g : GameNode} (hg : Reach (GameNode.logStep pb) (fun _ _ => True) .new g) {t : Nat}
    {roomid : Int} {w : LogWorld} (hw : Reach (step pb t) (fun _ o => Lasts t o) (start g t roomid) w) :
    (∀ p beginid, w.node.call pb t (.getCacheFrames p beginid) =
        .ok (w.node, [.cacheFrames (w.node.pm.players p).pid (w.sent.filter fun f => ¬ f.1 < beginid)]) ∧
      ∀ w', Reach (step pb t) (fun _ o => Lasts t o) w w' → ∃ later, w'.sent = w.sent ++ later ∧
        let first := min beginid w.sent.length
        (w.sent.filter (fun f => ¬ f.1 < beginid) ++ later).map Prod.fst = List.range' first (w'.sent.length - first)) ∧
    (∀ p body, ∃ node', w.node.call pb t (.getFramesData p body) =
        .ok (node', if (w.node.pm.players p).sessid = 0 ∨ (w.node.pm.players p).off then
            []
          else
            (w.node.kcp.rawGetConn (w.node.pm.players p).sessid).toList.map fun c =>
              .repair c ((pb.frameids2002 body).filterMap fun fid : Nat => w.sent[uint32 fid]?)) ∧
      (node'.room t).allOperMap = (w.node.room t).allOperMap ∧ node'.frames t = w.sent) ∧
    (∃ node', w.node.call pb t .finnal =
      .ok (node', [.updateFrameData (w.node.room t).roomid (w.node.room t).frameTick w.sent])) ∧
    w.sent.map Prod.fst = List.range (w.node.room t).frameId.toNat := by
  have hinv := inv_reach hg hw
  refine ⟨fun p beginid => ⟨?_, fun w' hw' => ?_⟩, fun p body => ?_, ?_, ?_⟩
  · rw [GameNode.call, hinv.getCacheFrames]
  · obtain ⟨later, hlater⟩ := prefix_sent hw'
    have hinv' : Inv t w'.node.rm w'.accepted w'.sent := by
      refine hw'.invariant (I := fun w => Inv t w.node.rm w.accepted w.sent) hinv ?_
      intro u o u' hu hlasts heq
      exact inv_step hu hlasts heq
    refine ⟨later, hlater.symm, ?_⟩
    have hmin : w.sent.drop beginid = w.sent.drop (min beginid w.sent.length) := by
      rw [List.drop_eq_drop_iff]
      omega
    rw [hinv.filter_ge, hmin, ← List.drop_append_of_le_length (min_le_right _ _), hlater, List.map_drop, hinv'.map_fst]
    rw [List.range_eq_range', List.drop_range']
    simp
  · obtain ⟨hreply, hmap, hafter⟩ := hinv.getFramesData pb w.node.pm.players w.node.kcp p body
    refine ⟨{ w.node with rm := (w.node.rm.getFramesData pb w.node.pm.players w.node.kcp t p body).1 }, ?_, hmap,
      hafter.frames⟩
    rw [← hreply]
    rfl
  · refine ⟨{ w.node with rm := (w.node.rm.finnal t).1 }, ?_⟩
    rw [← hinv.frames]
    rfl
  · have hid : (w.node.room t).frameId = w.sent.length := hinv.frameId
    rw [hid, Int.toNat_natCast]
    exact hinv.map_fst

/-- A room of 22 frames: a request of the frames from 20 on is answered with the last two. -/
theorem replies_agree_short : ∃ (pb : Pb) (w : LogWorld), w.sent.map Prod.fst = List.range 22 ∧
    w.node.call pb 0 (.getCacheFrames 0 20) =
      .ok (w.node, [.cacheFrames (w.node.pm.players 0).pid (w.sent.filter fun f => ¬ f.1 < 20)]) := by
  obtain ⟨w, hw, -, hlen, -⟩ := exists_record ⟨fun _ => .clear, fun _ => [], fun _ => 0, fun _ => 0⟩ 1500 (by decide)
  obtain ⟨hcache, -, -, hids⟩ := replies_agree .refl hw
  have hid : (w.node.room 0).frameId = w.sent.length := (inv_reach .refl hw).frameId
  refine ⟨_, w, ?_, (hcache 0 20).1⟩
  rw [hids, hid, hlen]
  rfl

end LogWorld

end KcpServer
