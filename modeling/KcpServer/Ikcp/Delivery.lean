import KcpServer.Ikcp.Pair

/-!
# What is delivered

In every run of two ends, whatever the network loses, delays, repeats or puts in another order, and whenever the user and
the clock call:

* `got_prefix_sent` : the bytes that come out are the first of those that went in;
* `msgs_prefix_sent` : without `stream`, the messages that come out are the first of those that went in;
* `nothing_lost` : what has not come out is on one of the two sides;
* `sent_eq_of_waitsnd` : once `ikcp_waitsnd` is 0, all of it is on the other side.
-/

namespace KcpServer.Ikcp
open Lib

namespace Pair
variable {conv : UInt32} {stream : Side → Int} {w w' : Pair} {arq : Side → Arq Frag} {taken : Side → List Frag}

/-- Two messages go from left to right; the second one comes first, and twice. Then the acknowledgements go back. -/
def twoMessages : List PairOp :=
  let dgram (sn len : UInt8) (data : Bytes) : Bytes :=
    [7, 0, 0, 0, 81, 0, 32, 0, 0, 0, 0, 0, sn, 0, 0, 0, 0, 0, 0, 0, len, 0, 0, 0] ++ data
  let ack (sn : UInt8) : Bytes := [7, 0, 0, 0, 82, 0, 31, 0, 0, 0, 0, 0, sn, 0, 0, 0, 2, 0, 0, 0, 0, 0, 0, 0]
  [.setmtu .left 50, .nodelay .left 1 10 2 1, .send .left [1, 2, 3], .send .left [4], .update .left 0,
    .input .right (dgram 1 1 [4]), .input .right (dgram 1 1 [4]), .input .right (dgram 0 3 [1, 2, 3]),
    .recv .right 8, .update .right 0, .input .left (ack 1 ++ ack 1 ++ ack 0)]

theorem reach_twoMessages : ∃ w, Reach step Allowed (new 7 fun _ => 0) w ∧ w.got .right = [[1, 2, 3]] ∧
    w.sent .left = [[1, 2, 3], [4]] ∧ (w.peer .left).waitsnd = 0 ∧
      ∃ d ∈ w.net .left, ((w.peer .right).input d).isOk = true := by
  have h : (runIf step (fun w op => decide (w.Allowed op)) (new 7 fun _ => 0) twoMessages).any (fun w =>
      decide (w.got .right = [[1, 2, 3]] ∧ w.sent .left = [[1, 2, 3], [4]] ∧ (w.peer .left).waitsnd = 0 ∧
        ∃ d ∈ w.net .left, ((w.peer .right).input d).isOk = true)) = true := by
    decide +kernel
  obtain ⟨w, hw, hq⟩ := Reach.of_runIf_any (fun _ _ ho => of_decide_eq_true ho) h
  exact ⟨w, hw, of_decide_eq_true hq⟩

theorem Follows.taken_prefix (h : Follows conv stream w arq taken) (s : Side) : taken s <+: w.items arq s.other := by
  have hlog : taken s <+: (arq s.other).log := by
    refine List.IsPrefix.trans ?_ (List.take_prefix (arq s.other).next _)
    rw [h.log_take s]
    exact List.prefix_append _ _
  exact hlog.trans (List.prefix_append _ _)

/-- What has been returned at one end is a prefix of what has been accepted at the other. -/
theorem got_prefix_sent (h : Reach step Allowed (new conv stream) w) (s : Side) :
    (w.got s).flatten <+: (w.sent s.other).flatten := by
  obtain ⟨arq, taken, hf⟩ := follows_of_reach h
  rw [← hf.gotBytes s, ← hf.sentBytes s.other]
  obtain ⟨rest, hrest⟩ := hf.taken_prefix s
  rw [← hrest, List.flatMap_append]
  exact List.prefix_append _ _

theorem got_prefix_sent_twoMessages : ∃ w, Reach step Allowed (new 7 fun _ => 0) w ∧ w.got .right = [[1, 2, 3]] ∧
    (w.got .right).flatten <+: (w.sent .left).flatten := by
  obtain ⟨w, hw, hgot, -⟩ := reach_twoMessages
  exact ⟨w, hw, hgot, got_prefix_sent hw .right⟩

theorem Follows.msgs_prefix (h : Follows conv stream w arq taken) {s : Side} (hstream : stream s.other = 0) :
    w.got s <+: w.sent s.other := by
  have hstream := (h.stream_eq s.other).trans hstream
  obtain ⟨rest, hrest⟩ := h.taken_prefix s
  obtain ⟨msgs, hmsgs, -⟩ := (h.gotMsgs s hstream).append_rest (hrest ▸ h.sentMsgs s.other hstream)
  rw [hmsgs]
  exact List.prefix_append _ _

/-- Without `stream`, messages are returned as they have been accepted. -/
theorem msgs_prefix_sent (h : Reach step Allowed (new conv stream) w) (s : Side) (hstream : stream s.other = 0) :
    w.got s <+: w.sent s.other := by
  obtain ⟨arq, taken, hf⟩ := follows_of_reach h
  exact hf.msgs_prefix hstream

theorem msgs_prefix_sent_twoMessages : ∃ w, Reach step Allowed (new 7 fun _ => 0) w ∧ w.got .right = [[1, 2, 3]] ∧
    w.got .right <+: w.sent .left := by
  obtain ⟨w, hw, hgot, -⟩ := reach_twoMessages
  exact ⟨w, hw, hgot, msgs_prefix_sent hw .right rfl⟩

/-- What has been accepted, from the front on: it has been returned, it can be returned, it is on its way, it waits. -/
theorem Follows.sent_eq (h : Follows conv stream w arq taken) (s : Side) :
    (w.sent s).flatten = (w.got s.other).flatten ++ IKCPCB.dataOf (w.peer s.other).rcvQueue ++
      ((arq s).log.drop (arq s).next).flatMap Prod.snd ++ IKCPCB.dataOf (w.peer s).sndQueue := by
  have htake := h.log_take s.other
  rw [Side.other_other] at htake
  rw [← h.sentBytes s, ← h.gotBytes s.other, items, List.flatMap_append, ← IKCPCB.dataOf_eq]
  congr 1
  calc (arq s).log.flatMap Prod.snd
    _ = ((arq s).log.take (arq s).next ++ (arq s).log.drop (arq s).next).flatMap Prod.snd := by
      rw [List.take_append_drop]
    _ = _ := by rw [htake, List.flatMap_append, List.flatMap_append, ← IKCPCB.dataOf_eq]

/-- Nothing is lost: a segment on its way is held by its sender, or waits for its turn at the other end. -/
theorem nothing_lost (h : Reach step Allowed (new conv stream) w) (s : Side) : ∃ fs : List Frag,
    (w.sent s).flatten = (w.got s.other).flatten ++ IKCPCB.dataOf (w.peer s.other).rcvQueue ++ fs.flatMap Prod.snd ++
      IKCPCB.dataOf (w.peer s).sndQueue ∧
    ∀ n (hn : n < fs.length), ∃ seg, (seg ∈ (w.peer s).sndBuf ∨ seg ∈ (w.peer s.other).rcvBuf) ∧
      seg.sn = (w.peer s.other).rcvNxt + UInt32.ofNat n ∧ seg.frag = fs[n] := by
  obtain ⟨arq, taken, hf⟩ := follows_of_reach h
  refine ⟨_, hf.sent_eq s, fun n hn => ?_⟩
  have hreceives := hf.receives s.other
  rw [Side.other_other] at hreceives
  have hserial : (w.peer s.other).rcvNxt + UInt32.ofNat n = serial ((arq s).next + n) := by
    rw [hreceives.nxt]
    exact serial_add _ _
  rw [List.length_drop] at hn
  have hlt : (arq s).next + n < (arq s).log.length := by omega
  have hget : ((arq s).log.drop (arq s).next)[n] = (arq s).log[(arq s).next + n] := List.getElem_drop
  rw [hserial, hget]
  by_cases hheld : ∀ e ∈ (arq s).held, e.1 ≠ (arq s).next + n
  · rcases (hf.inv s).has _ hlt hheld with hlt' | ⟨a, ha⟩
    · omega
    obtain ⟨seg, hseg, hsn, hfrag⟩ := hreceives.buf.exists_seg ha
    have hlog := (hf.inv s).early_log _ ha
    rw [List.getElem?_eq_getElem hlt] at hlog
    exact ⟨seg, .inr hseg, hsn, hfrag.trans (Option.some.inj hlog).symm⟩
  · push Not at hheld
    obtain ⟨e, he, hn'⟩ := hheld
    obtain ⟨seg, hseg, hsn, hfrag⟩ := (hf.sends s).buf.exists_seg he
    refine ⟨seg, .inl hseg, by rw [hsn, hn'], ?_⟩
    have hlog := (hf.inv s).held_log e he
    rw [hn', List.getElem?_eq_getElem hlt] at hlog
    rw [hfrag, Option.some.inj hlog]

theorem nothing_lost_twoMessages : ∃ w, Reach step Allowed (new 7 fun _ => 0) w ∧ w.got .right = [[1, 2, 3]] ∧
    ∃ fs : List Frag,
      (w.sent .left).flatten = (w.got .right).flatten ++ IKCPCB.dataOf (w.peer .right).rcvQueue ++ fs.flatMap Prod.snd ++
        IKCPCB.dataOf (w.peer .left).sndQueue ∧
      ∀ n (hn : n < fs.length), ∃ seg, (seg ∈ (w.peer .left).sndBuf ∨ seg ∈ (w.peer .right).rcvBuf) ∧
        seg.sn = (w.peer .right).rcvNxt + UInt32.ofNat n ∧ seg.frag = fs[n] := by
  obtain ⟨w, hw, hgot, -⟩ := reach_twoMessages
  exact ⟨w, hw, hgot, nothing_lost hw .left⟩

theorem Follows.queues_nil (h : Follows conv stream w arq taken) {s : Side} (hwait : (w.peer s).waitsnd = 0) :
    (arq s).held = [] ∧ (w.peer s).sndQueue = [] := by
  have hroom := h.room s
  have hheld : (w.peer s).sndBuf.length = (arq s).held.length := (h.sends s).buf.length_eq
  have hle : (arq s).held.length ≤ (arq s).log.length := (h.inv s).length_held_le
  rw [items, List.length_append, List.length_map] at hroom
  unfold IKCPCB.waitsnd at hwait
  rw [(h.counted s).sndBuf, (h.counted s).sndQueue, ofNat_add_ofNat, ← UInt32.toNat_inj, UInt32.toNat_ofNat'] at hwait
  have hzero : (0 : UInt32).toNat = 0 := rfl
  exact ⟨List.length_eq_zero_iff.mp (by omega), List.length_eq_zero_iff.mp (by omega)⟩

/-- Once nothing waits to be sent or to be acknowledged, the other end has everything. -/
theorem sent_eq_of_waitsnd (h : Reach step Allowed (new conv stream) w) (s : Side) (hwait : (w.peer s).waitsnd = 0) :
    (w.sent s).flatten = (w.got s.other).flatten ++ IKCPCB.dataOf (w.peer s.other).rcvQueue ++
      IKCPCB.dataOf (w.peer s.other).rcvBuf := by
  obtain ⟨arq, taken, hf⟩ := follows_of_reach h
  obtain ⟨hheld, hqueue⟩ := hf.queues_nil hwait
  have hreceives := hf.receives s.other
  rw [Side.other_other] at hreceives
  have hbuf := hreceives.buf.map_frag
  rw [hf.sent_eq s, hqueue, ← (hf.inv s).early_eq_drop hheld, ← hbuf, ← IKCPCB.dataOf_eq]
  simp [IKCPCB.dataOf]

theorem sent_eq_of_waitsnd_twoMessages : ∃ w, Reach step Allowed (new 7 fun _ => 0) w ∧
    w.sent .left = [[1, 2, 3], [4]] ∧
    (w.sent .left).flatten = (w.got .right).flatten ++ IKCPCB.dataOf (w.peer .right).rcvQueue ++
      IKCPCB.dataOf (w.peer .right).rcvBuf := by
  obtain ⟨w, hw, -, hsent, hwait, -⟩ := reach_twoMessages
  exact ⟨w, hw, hsent, sent_eq_of_waitsnd hw .left hwait⟩

/-- What one end has sent is accepted by the other. -/
theorem input_accepts (h : Reach step Allowed (new conv stream) w) {s : Side} {d : Bytes} (hd : d ∈ w.net s.other)
    {kcp : IKCPCB} {ret : Int} (hinput : (w.peer s).input d = .ok (kcp, ret)) : ret = 0 := by
  obtain ⟨arq, taken, hf⟩ := follows_of_reach h
  have hsaid := hf.net s.other d hd
  rw [Side.other_other, ← hf.conv_eq s] at hsaid
  exact (IKCPCB.moved_input (hf.halves s) hsaid hinput).1

theorem input_accepts_twoMessages : ∃ w d kcp ret, Reach step Allowed (new 7 fun _ => 0) w ∧ d ∈ w.net .left ∧
    (w.peer .right).input d = .ok (kcp, ret) ∧ ret = 0 := by
  obtain ⟨w, hw, -, -, -, d, hd, hok⟩ := reach_twoMessages
  cases hinput : (w.peer .right).input d with
  | error e =>
    rw [hinput] at hok
    cases hok
  | ok r => exact ⟨w, d, r.1, r.2, hw, hd, hinput, input_accepts hw (s := .right) hd hinput⟩

end Pair

end KcpServer.Ikcp
