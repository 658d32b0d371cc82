import KcpServer.Ikcp.Calls

/-!
# The counters of the queues

`nsnd_buf`, `nsnd_que`, `nrcv_buf` and `nrcv_que` are kept beside the four queues. They count them, whatever comes in.
-/

namespace KcpServer.Ikcp
open Lib

/-- The counters are the lengths of the queues. -/
structure Counted (kcp : IKCPCB) : Prop where
  sndBuf : kcp.nsndBuf = UInt32.ofNat kcp.sndBuf.length
  sndQueue : kcp.nsndQue = UInt32.ofNat kcp.sndQueue.length
  rcvBuf : kcp.nrcvBuf = UInt32.ofNat kcp.rcvBuf.length
  rcvQueue : kcp.nrcvQue = UInt32.ofNat kcp.rcvQueue.length

/-- A counter that goes down with its queue. -/
theorem ofNat_sub_ofNat {n m : ℕ} (h : m ≤ n) : UInt32.ofNat n - UInt32.ofNat m = UInt32.ofNat (n - m) := by
  rw [← UInt32.toNat_inj, UInt32.toNat_sub, UInt32.toNat_ofNat', UInt32.toNat_ofNat', UInt32.toNat_ofNat']
  omega

theorem ofNat_add_ofNat (n m : ℕ) : UInt32.ofNat n + UInt32.ofNat m = UInt32.ofNat (n + m) := by simp

namespace IKCPCB
variable {kcp kcp' : IKCPCB} {segs : List IKCPSEG}

/-! ## `ikcp_input` -/

theorem length_ackLoop (sn : UInt32) (segs : List IKCPSEG) :
    segs.length = (ackLoop sn segs).1.length + if (ackLoop sn segs).2 then 1 else 0 := by
  induction segs with
  | nil => rfl
  | cons seg segs ih =>
    unfold ackLoop
    split
    · rfl
    split
    · rfl
    · dsimp only
      rw [List.length_cons, List.length_cons, ih]
      omega

theorem counted_parseAck (h : Counted kcp) (sn : UInt32) : Counted (kcp.parseAck sn) := by
  unfold parseAck
  split
  · exact h
  refine ⟨?_, h.sndQueue, h.rcvBuf, h.rcvQueue⟩
  have hlen := length_ackLoop sn kcp.sndBuf
  dsimp only
  rw [h.sndBuf]
  split
  · next hfound =>
    rw [if_pos hfound] at hlen
    rw [hlen]
    exact ofNat_sub_ofNat (Nat.le_add_left 1 _)
  · next hfound =>
    rw [if_neg hfound] at hlen
    rw [hlen, Nat.add_zero]

theorem counted_parseUna (h : Counted kcp) (una : UInt32) : Counted (kcp.parseUna una) := by
  refine ⟨?_, h.sndQueue, h.rcvBuf, h.rcvQueue⟩
  have hle := (List.dropWhile_sublist (l := kcp.sndBuf) fun seg => itimediff una seg.sn > 0).length_le
  unfold parseUna
  dsimp only
  rw [h.sndBuf, ofNat_sub_ofNat (Nat.sub_le _ _), Nat.sub_sub_self hle]

theorem length_fastackLoop (sn : UInt32) (segs : List IKCPSEG) : (fastackLoop sn segs).length = segs.length := by
  induction segs with
  | nil => rfl
  | cons seg segs ih =>
    unfold fastackLoop
    split
    · rfl
    · rw [List.length_cons, ih, List.length_cons]

theorem counted_parseFastack (h : Counted kcp) (sn : UInt32) : Counted (kcp.parseFastack sn) := by
  unfold parseFastack
  split
  · exact h
  · refine ⟨?_, h.sndQueue, h.rcvBuf, h.rcvQueue⟩
    rw [length_fastackLoop]
    exact h.sndBuf

theorem length_placeRev {seg : IKCPSEG} {segs' : List IKCPSEG} (h : placeRev seg segs = some segs') :
    segs'.length = segs.length + 1 := by
  induction segs generalizing segs' with
  | nil =>
    cases h
    rfl
  | cons seg' segs ih =>
    unfold placeRev at h
    split at h
    · cases h
    split at h
    · cases h
      rfl
    · obtain ⟨tail, htail, rfl⟩ := Option.map_eq_some_iff.mp h
      rw [List.length_cons, ih htail, List.length_cons]

theorem counted_moveLoop (hsndBuf : kcp.nsndBuf = UInt32.ofNat kcp.sndBuf.length)
    (hsndQueue : kcp.nsndQue = UInt32.ofNat kcp.sndQueue.length) (hrcvBuf : kcp.nrcvBuf = UInt32.ofNat segs.length)
    (hrcvQueue : kcp.nrcvQue = UInt32.ofNat kcp.rcvQueue.length) : Counted (kcp.moveLoop segs) := by
  induction segs generalizing kcp with
  | nil => exact ⟨hsndBuf, hsndQueue, hrcvBuf, hrcvQueue⟩
  | cons seg segs ih =>
    unfold moveLoop
    split
    · refine ih hsndBuf hsndQueue ?_ ?_
      · rw [takeSeg, hrcvBuf, List.length_cons]
        exact ofNat_sub_ofNat (m := 1) (by omega)
      · rw [takeSeg, hrcvQueue, List.length_append, List.length_singleton]
        exact ofNat_add_ofNat _ 1
    · exact ⟨hsndBuf, hsndQueue, hrcvBuf, hrcvQueue⟩

theorem counted_moveData (h : Counted kcp) : Counted kcp.moveData :=
  counted_moveLoop h.sndBuf h.sndQueue h.rcvBuf h.rcvQueue

theorem counted_parseData (h : Counted kcp) (seg : IKCPSEG) : Counted (kcp.parseData seg) := by
  unfold parseData
  split
  · exact h
  split
  · exact counted_moveData h
  · next segs hplace =>
    refine counted_moveLoop h.sndBuf h.sndQueue ?_ h.rcvQueue
    have hlen := length_placeRev hplace
    rw [List.length_reverse] at hlen
    dsimp only
    rw [List.length_reverse, hlen, h.rcvBuf]
    exact ofNat_add_ofNat _ 1

theorem counted_shrinkBuf (h : Counted kcp) : Counted kcp.shrinkBuf := ⟨h.sndBuf, h.sndQueue, h.rcvBuf, h.rcvQueue⟩

theorem counted_ackRtt {ts : UInt32} (h : Counted kcp) (hrtt : kcp.ackRtt ts = .ok kcp') : Counted kcp' := by
  obtain ⟨_, _, _, rfl⟩ := ackRtt_eq hrtt
  exact ⟨h.sndBuf, h.sndQueue, h.rcvBuf, h.rcvQueue⟩

theorem counted_inputPush (h : Counted kcp) (hd : SegHeader) (data : Bytes) : Counted (kcp.inputPush hd data) := by
  have hack : Counted (kcp.ackPush hd.sn hd.ts) := ⟨h.sndBuf, h.sndQueue, h.rcvBuf, h.rcvQueue⟩
  rcases inputPush_cases kcp hd data with heq | heq | heq
  · rwa [heq]
  · rwa [heq]
  · rw [heq]
    exact counted_parseData hack _

theorem counted_inputSeg {hd : SegHeader} {data : Bytes} {maxack maxack' : Option UInt32} (h : Counted kcp)
    (hin : kcp.inputSeg hd data maxack = .ok (kcp', maxack')) : Counted kcp' := by
  have hwnd : Counted { kcp with rmtWnd := hd.wnd } := ⟨h.sndBuf, h.sndQueue, h.rcvBuf, h.rcvQueue⟩
  have huna := counted_shrinkBuf (counted_parseUna hwnd hd.una)
  obtain ⟨kcp₁, rfl, hcases⟩ := inputSeg_cases hin
  rcases hcases with ⟨-, kcp₂, hrtt, rfl⟩ | ⟨-, hpush⟩ | ⟨probe, rfl⟩
  · exact counted_shrinkBuf (counted_parseAck (counted_ackRtt huna hrtt) hd.sn)
  · rw [hpush]
    exact counted_inputPush huna hd data
  · exact ⟨huna.sndBuf, huna.sndQueue, huna.rcvBuf, huna.rcvQueue⟩

theorem counted_input {d : Bytes} {ret : Int} (h : Counted kcp) (hin : kcp.input d = .ok (kcp', ret)) : Counted kcp' := by
  refine input_keeps ?_ ?_ ?_ h hin
  · exact fun _ _ _ _ _ _ hkcp hseg => counted_inputSeg hkcp hseg
  · exact fun _ sn hkcp => counted_parseFastack hkcp sn
  · exact fun _ _ _ hkcp => ⟨hkcp.sndBuf, hkcp.sndQueue, hkcp.rcvBuf, hkcp.rcvQueue⟩

/-! ## `ikcp_update` -/

theorem counted_numberLoop {cwnd : UInt32} (hsndBuf : kcp.nsndBuf = UInt32.ofNat kcp.sndBuf.length)
    (hsndQueue : kcp.nsndQue = UInt32.ofNat segs.length) (hrcvBuf : kcp.nrcvBuf = UInt32.ofNat kcp.rcvBuf.length)
    (hrcvQueue : kcp.nrcvQue = UInt32.ofNat kcp.rcvQueue.length) : Counted (kcp.numberLoop cwnd segs) := by
  induction segs generalizing kcp with
  | nil => exact ⟨hsndBuf, hsndQueue, hrcvBuf, hrcvQueue⟩
  | cons seg segs ih =>
    unfold numberLoop
    split
    · refine ih ?_ ?_ hrcvBuf hrcvQueue
      · rw [numberSeg, hsndBuf, List.length_append, List.length_singleton]
        exact ofNat_add_ofNat _ 1
      · rw [numberSeg, hsndQueue, List.length_cons]
        exact ofNat_sub_ofNat (m := 1) (by omega)
    · exact ⟨hsndBuf, hsndQueue, hrcvBuf, hrcvQueue⟩

theorem counted_flush {ds : List Bytes} (h : Counted kcp) (hflush : kcp.flush = .ok (kcp', ds)) : Counted kcp' := by
  obtain ⟨kcp₁, kcp₂, ⟨_, _, hkcp₁⟩, hkcp₂, ⟨_, _, _, _, _, _, hkcp'⟩, hresent, -⟩ := flush_emits hflush
  have h₂ : Counted kcp₂ := by
    rw [hkcp₂]
    subst hkcp₁
    exact counted_numberLoop h.sndBuf h.sndQueue h.rcvBuf h.rcvQueue
  have hlen := hresent.length_eq
  subst hkcp'
  exact ⟨h₂.sndBuf.trans (congrArg UInt32.ofNat hlen), h₂.sndQueue, h₂.rcvBuf, h₂.rcvQueue⟩

theorem counted_update {ds : List Bytes} {current : UInt32} (h : Counted kcp)
    (hupdate : kcp.update current = .ok (kcp', ds)) : Counted kcp' := by
  have htick : Counted (kcp.tick current) := ⟨h.sndBuf, h.sndQueue, h.rcvBuf, h.rcvQueue⟩
  unfold update at hupdate
  split at hupdate
  · exact counted_flush htick hupdate
  · obtain ⟨rfl, -⟩ := Prod.mk.inj (Except.ok.inj hupdate)
    exact htick

/-! ## The user's calls -/

theorem counted_appendLast (h : Counted kcp) (buffer : Bytes) : Counted (kcp.appendLast buffer) := by
  have hlen : (kcp.appendLast buffer).sndQueue.length = kcp.sndQueue.length := by
    rcases appendLast_queue kcp buffer with ⟨hqueue, -⟩ | ⟨segs, old, data, hold, hnew, -⟩
    · rw [hqueue]
    · rw [hold, hnew, List.length_append, List.length_append, List.length_singleton, List.length_singleton]
  obtain ⟨sndQueue, heq⟩ := appendLast_eq kcp buffer
  rw [heq] at hlen ⊢
  exact ⟨h.sndBuf, h.sndQueue.trans (congrArg UInt32.ofNat hlen.symm), h.rcvBuf, h.rcvQueue⟩

theorem counted_send {buffer : Bytes} {ret : Int} (h : Counted kcp) (hsend : kcp.send buffer = .ok (kcp', ret)) :
    Counted kcp' := by
  have hlast := counted_appendLast h buffer
  obtain ⟨-, rest, -, hcases⟩ := send_cases hsend
  rcases hcases with ⟨-, -, rfl, -⟩ | ⟨rfl, -⟩ | ⟨-, rfl, -⟩
  · exact hlast
  · exact hlast
  · refine ⟨hlast.sndBuf, ?_, hlast.rcvBuf, hlast.rcvQueue⟩
    rw [pushMsg, hlast.sndQueue, List.length_append, length_fragment]
    exact ofNat_add_ofNat _ _

theorem counted_popMsg (h : Counted kcp) (len : Int) : Counted (kcp.popMsg len) := by
  unfold popMsg
  split
  · exact h
  · refine ⟨h.sndBuf, h.sndQueue, h.rcvBuf, ?_⟩
    have hsplit := congrArg List.length (splitMsg_append kcp.rcvQueue)
    rw [List.length_append] at hsplit
    dsimp only
    rw [h.rcvQueue, ofNat_sub_ofNat (by omega)]
    congr 1
    omega

theorem counted_recv {bytes : Bytes} {ret len : Int} (h : Counted kcp) (hrecv : kcp.recv len = .ok (kcp', ret, bytes)) :
    Counted kcp' := by
  rcases recv_cases hrecv with ⟨-, rfl, -⟩ | ⟨-, -, -, -, rfl⟩
  · exact h
  · have hmove := counted_moveData (counted_popMsg h len)
    obtain ⟨_, htell⟩ := tellWnd_eq (kcp.popMsg len).moveData (kcp.nrcvQue ≥ kcp.rcvWnd)
    rw [htell]
    exact ⟨hmove.sndBuf, hmove.sndQueue, hmove.rcvBuf, hmove.rcvQueue⟩

end IKCPCB

end KcpServer.Ikcp
