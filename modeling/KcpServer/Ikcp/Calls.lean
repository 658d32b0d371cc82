import KcpServer.Ikcp.Emit

/-!
# What the user's calls do

`ikcp_send` puts bytes at the end of `snd_queue` and `ikcp_recv` takes the first message out of `rcv_queue`.

* `dataOf_send` : the bytes in the queue, with those that have been accepted behind them;
* `took_recv` : the bytes that are returned stood in front, and the next items may follow.
-/

namespace KcpServer.Ikcp
open Lib

namespace IKCPCB
variable {kcp kcp' : IKCPCB} {buffer bytes : Bytes} {ret len : Int} {seg : IKCPSEG} {segs : List IKCPSEG}

@[simp] theorem dataOf_append (segs segs' : List IKCPSEG) : dataOf (segs ++ segs') = dataOf segs ++ dataOf segs' := by
  simp [dataOf]

theorem dataOf_eq (segs : List IKCPSEG) : dataOf segs = (segs.map IKCPSEG.frag).flatMap Prod.snd := by
  rw [dataOf, List.flatMap_map]
  rfl

/-! ## Settings -/

theorem setmtu_eq (kcp : IKCPCB) (n : Int) : ∃ mtu mss, (kcp.setmtu n).1 = { kcp with mtu, mss } := by
  unfold setmtu
  split <;> exact ⟨_, _, rfl⟩

theorem wndsize_eq (kcp : IKCPCB) (sndwnd rcvwnd : Int) : ∃ sndWnd rcvWnd,
    kcp.wndsize sndwnd rcvwnd = { kcp with sndWnd, rcvWnd } := by
  unfold wndsize
  split <;> split <;> exact ⟨_, _, rfl⟩

theorem setNodelay_eq (kcp : IKCPCB) (delay every resend nc : Int) : ∃ nodelay rxMinrto interval fastresend nocwnd,
    kcp.setNodelay delay every resend nc = { kcp with nodelay, rxMinrto, interval, fastresend, nocwnd } := by
  unfold setNodelay
  dsimp only
  split <;> split <;> split <;> split <;> exact ⟨_, _, _, _, _, rfl⟩

theorem config_inputPush (kcp : IKCPCB) (hd : SegHeader) (data : Bytes) :
    (kcp.inputPush hd data).config = kcp.config := by
  have hack : (kcp.ackPush hd.sn hd.ts).config = kcp.config := rfl
  rcases inputPush_cases kcp hd data with heq | heq | heq
  · rw [heq]
  · rw [heq, hack]
  · rw [heq, (parseData_same (kcp.ackPush hd.sn hd.ts) (segOf hd data)).2, hack]

theorem config_inputSeg {hd : SegHeader} {data : Bytes} {maxack maxack' : Option UInt32}
    (h : kcp.inputSeg hd data maxack = .ok (kcp', maxack')) : kcp'.config = kcp.config := by
  obtain ⟨kcp₁, hkcp₁, hcases⟩ := inputSeg_cases h
  have hconfig : kcp₁.config = kcp.config := by
    rw [hkcp₁]
    unfold parseUna
    generalize List.dropWhile _ _ = sndBuf
    rfl
  rw [← hconfig]
  rcases hcases with ⟨-, kcp₂, hrtt, rfl⟩ | ⟨-, hpush⟩ | ⟨probe, rfl⟩
  · rw [(parseAck_same kcp₂ hd.sn).2.1]
    obtain ⟨_, _, _, rfl⟩ := ackRtt_eq hrtt
    rfl
  · rw [hpush]
    exact config_inputPush kcp₁ hd data
  · rfl

theorem config_input {d : Bytes} {ret : Int} (h : kcp.input d = .ok (kcp', ret)) : kcp'.config = kcp.config := by
  refine input_keeps (P := fun kcp₁ => kcp₁.config = kcp.config) ?_ ?_ ?_ rfl h
  · exact fun _ _ _ _ _ _ hkcp hseg => (config_inputSeg hseg).trans hkcp
  · intro kcp₁ sn hkcp
    unfold parseFastack
    split <;> exact hkcp
  · exact fun _ _ _ hkcp => hkcp

theorem config_update {current : UInt32} {ds : List Bytes} (h : kcp.update current = .ok (kcp', ds)) :
    kcp'.config = kcp.config := by
  have htick : (kcp.tick current).config = kcp.config := rfl
  unfold update at h
  split at h
  · obtain ⟨kcp₁, kcp₂, ⟨_, _, hkcp₁⟩, hkcp₂, ⟨_, _, _, _, _, _, hkcp'⟩, -⟩ := flush_emits h
    obtain ⟨_, _, _, _, _, hnumber⟩ := numberLoop_eq kcp₁ (kcp.tick current).flushWnd (kcp.tick current).sndQueue
    rw [hkcp', hkcp₂, hnumber, hkcp₁]
    exact htick
  · cases h
    exact htick

/-! ## Fragments -/

theorem dataOf_fragment {count : ℕ} (h : buffer.length ≤ count * kcp.mss.toNat) :
    dataOf (kcp.fragment count buffer) = buffer := by
  induction count generalizing buffer with
  | zero =>
    rw [Nat.zero_mul, Nat.le_zero, List.length_eq_zero_iff] at h
    rw [h]
    rfl
  | succ count ih =>
    rw [Nat.succ_mul] at h
    have hrest : dataOf (kcp.fragment count (buffer.drop kcp.mss.toNat)) = buffer.drop kcp.mss.toNat :=
      ih (by rw [List.length_drop]; omega)
    calc dataOf (kcp.fragment (count + 1) buffer)
      _ = buffer.take kcp.mss.toNat ++ dataOf (kcp.fragment count (buffer.drop kcp.mss.toNat)) := rfl
      _ = buffer := by rw [hrest, List.take_append_drop]

theorem length_fragment (kcp : IKCPCB) (count : ℕ) (buffer : Bytes) : (kcp.fragment count buffer).length = count := by
  induction count generalizing buffer with
  | zero => rfl
  | succ count ih => rw [fragment, List.length_cons, ih]

theorem le_fragCount (hmss : kcp.mss > 0) (len : ℕ) : len ≤ kcp.fragCount len * kcp.mss.toNat := by
  have hpos : 0 < kcp.mss.toNat := UInt32.lt_iff_toNat_lt.mp hmss
  unfold fragCount
  split
  · omega
  · have hdiv := Nat.div_add_mod (len + kcp.mss.toNat - 1) kcp.mss.toNat
    have hmod := Nat.mod_lt (len + kcp.mss.toNat - 1) hpos
    rw [Nat.mul_comm] at hdiv
    omega

theorem of_mem_fragment {count : ℕ} (h : seg ∈ kcp.fragment count buffer) :
    ∃ i < count, ∃ data : Bytes, data.length ≤ kcp.mss.toNat ∧
      seg = { frg := if kcp.stream = 0 then UInt32.ofNat i else 0, data } := by
  induction count generalizing buffer with
  | zero => cases h
  | succ count ih =>
    rcases List.mem_cons.mp h with rfl | h
    · exact ⟨count, Nat.lt_succ_self _, _, List.length_take_le _ _, rfl⟩
    · obtain ⟨i, hi, hseg⟩ := ih h
      exact ⟨i, Nat.lt_succ_of_lt hi, hseg⟩

/-! ## `ikcp_send` -/

theorem appendLast_eq (kcp : IKCPCB) (buffer : Bytes) : ∃ sndQueue, kcp.appendLast buffer = { kcp with sndQueue } := by
  unfold appendLast
  split
  · exact ⟨_, rfl⟩
  split
  · exact ⟨_, rfl⟩
  split <;> exact ⟨_, rfl⟩

/-- The last segment is a longer one, and the bytes behind the others are those that have been appended. -/
theorem appendLast_queue (kcp : IKCPCB) (buffer : Bytes) :
    (kcp.appendLast buffer).sndQueue = kcp.sndQueue ∧ kcp.extend buffer.length = 0 ∨
      ∃ segs old data, kcp.sndQueue = segs ++ [old] ∧ (kcp.appendLast buffer).sndQueue = segs ++ [{ frg := 0, data }] ∧
        data.length ≤ kcp.mss.toNat ∧ data = old.data ++ buffer.take (kcp.extend buffer.length) := by
  unfold appendLast extend
  split
  · exact .inl ⟨rfl, rfl⟩
  cases hlast : kcp.sndQueue.getLast? with
  | none => exact .inl ⟨rfl, rfl⟩
  | some old =>
    dsimp only
    split
    · next hroom =>
      refine .inr ⟨kcp.sndQueue.dropLast, old, _, ?_, rfl, ?_, rfl⟩
      · exact (List.dropLast_append_getLast? old hlast).symm
      · rw [List.length_append, List.length_take]
        omega
    · next hroom => exact .inl ⟨rfl, by omega⟩

/-- What `ikcp_send` does: it fills the last segment, and then there is nothing left, or too much, or the rest is cut. -/
theorem send_cases (h : kcp.send buffer = .ok (kcp', ret)) : kcp.mss > 0 ∧ ∃ rest,
    rest = buffer.drop (kcp.extend buffer.length) ∧
      (kcp.stream ≠ 0 ∧ rest = [] ∧ kcp' = kcp.appendLast buffer ∧ ret = 0 ∨
        kcp' = kcp.appendLast buffer ∧ ret = -2 ∨
        kcp.fragCount rest.length ≤ 255 ∧ kcp' = (kcp.appendLast buffer).pushMsg (kcp.fragCount rest.length) rest ∧
          ret = 0) := by
  obtain ⟨u, hmss, h⟩ := bind_eq_ok.mp h
  rw [assert_eq_ok, decide_eq_true_eq] at hmss
  refine ⟨hmss, _, rfl, ?_⟩
  obtain ⟨sndQueue, hlast⟩ := appendLast_eq kcp buffer
  have hfield : (kcp.appendLast buffer).stream = kcp.stream ∧
      ∀ n, (kcp.appendLast buffer).fragCount n = kcp.fragCount n := by
    rw [hlast]
    exact ⟨rfl, fun _ => rfl⟩
  dsimp only at h
  rw [hfield.1, hfield.2] at h
  generalize kcp.appendLast buffer = kcp₁ at h ⊢
  split at h
  · next hdone =>
    obtain ⟨rfl, rfl⟩ := Prod.mk.inj (Except.ok.inj h)
    exact .inl ⟨hdone.1, hdone.2, rfl, rfl⟩
  split at h
  · obtain ⟨rfl, rfl⟩ := Prod.mk.inj (Except.ok.inj h)
    exact .inr (.inl ⟨rfl, rfl⟩)
  · next hcount =>
    obtain ⟨rfl, rfl⟩ := Prod.mk.inj (Except.ok.inj h)
    exact .inr (.inr ⟨not_lt.mp hcount, rfl, rfl⟩)

def accepted (kcp : IKCPCB) (buffer : Bytes) (ret : Int) : List Bytes :=
  if ret = 0 then [buffer] else if kcp.stream = 0 then [] else [buffer.take (kcp.extend buffer.length)]

theorem send_eq (h : kcp.send buffer = .ok (kcp', ret)) : ∃ sndQueue nsndQue, kcp' = { kcp with sndQueue, nsndQue } := by
  obtain ⟨-, rest, -, hcases⟩ := send_cases h
  obtain ⟨sndQueue, hlast⟩ := appendLast_eq kcp buffer
  rw [hlast] at hcases
  rcases hcases with ⟨-, -, rfl, -⟩ | ⟨rfl, -⟩ | ⟨-, rfl, -⟩
  · exact ⟨_, _, rfl⟩
  · exact ⟨_, _, rfl⟩
  · exact ⟨_, _, rfl⟩

theorem dataOf_appendLast (kcp : IKCPCB) (buffer : Bytes) :
    dataOf (kcp.appendLast buffer).sndQueue = dataOf kcp.sndQueue ++ buffer.take (kcp.extend buffer.length) := by
  rcases appendLast_queue kcp buffer with ⟨hqueue, hextend⟩ | ⟨segs, old, data, hold, hnew, -, hdata⟩
  · rw [hqueue, hextend, List.take_zero, List.append_nil]
  · rw [hold, hnew, dataOf_append, dataOf_append, List.append_assoc]
    simp [dataOf, hdata]

theorem dataOf_pushMsg (kcp : IKCPCB) (count : ℕ) (buffer : Bytes) :
    dataOf (kcp.pushMsg count buffer).sndQueue = dataOf kcp.sndQueue ++ dataOf (kcp.fragment count buffer) :=
  dataOf_append _ _

/-- What has been accepted stands at the end of the queue. -/
theorem dataOf_send (h : kcp.send buffer = .ok (kcp', ret)) :
    dataOf kcp'.sndQueue = dataOf kcp.sndQueue ++ (kcp.accepted buffer ret).flatten := by
  obtain ⟨hmss, rest, hrest, hcases⟩ := send_cases h
  have hlast := dataOf_appendLast kcp buffer
  have hsplit : buffer.take (kcp.extend buffer.length) ++ rest = buffer := by rw [hrest, List.take_append_drop]
  unfold accepted
  rcases hcases with ⟨-, hnil, rfl, rfl⟩ | ⟨rfl, rfl⟩ | ⟨-, rfl, rfl⟩
  · rw [hnil, List.append_nil] at hsplit
    rw [hlast, hsplit]
    simp
  · rw [hlast, if_neg (by decide)]
    split
    · next hstream => simp [extend, hstream]
    · simp
  · obtain ⟨sndQueue, heq⟩ := appendLast_eq kcp buffer
    have hfrag : dataOf ((kcp.appendLast buffer).fragment (kcp.fragCount rest.length) rest) = rest := by
      refine dataOf_fragment ?_
      rw [heq]
      exact le_fragCount hmss rest.length
    rw [dataOf_pushMsg, hlast, hfrag, List.append_assoc, hsplit]
    simp

theorem forall_send {P : IKCPSEG → Prop} (h : kcp.send buffer = .ok (kcp', ret))
    (hnew : ∀ frg (data : Bytes), frg < 255 → data.length ≤ kcp.mss.toNat → P { frg, data })
    (hold : ∀ seg ∈ kcp.sndQueue, P seg) : ∀ seg ∈ kcp'.sndQueue, P seg := by
  have hlast : ∀ seg ∈ (kcp.appendLast buffer).sndQueue, P seg := by
    rcases appendLast_queue kcp buffer with ⟨hqueue, -⟩ | ⟨segs, old, data, hq, hq', hlen, -⟩
    · rw [hqueue]
      exact hold
    · rw [hq] at hold
      rw [hq']
      intro seg hseg
      rcases List.mem_append.mp hseg with hseg | hseg
      · exact hold seg (List.mem_append_left _ hseg)
      · rw [List.mem_singleton.mp hseg]
        exact hnew 0 data (by decide) hlen
  obtain ⟨-, rest, -, hcases⟩ := send_cases h
  rcases hcases with ⟨-, -, rfl, -⟩ | ⟨rfl, -⟩ | ⟨hcount, rfl, -⟩
  · exact hlast
  · exact hlast
  · intro seg hseg
    rcases List.mem_append.mp hseg with hseg | hseg
    · exact hlast seg hseg
    obtain ⟨i, hi, data, hlen, rfl⟩ := of_mem_fragment hseg
    obtain ⟨sndQueue, heq⟩ := appendLast_eq kcp buffer
    rw [heq] at hlen
    refine hnew _ data ?_ hlen
    split
    · rw [UInt32.lt_iff_toNat_lt, UInt32.toNat_ofNat']
      exact (Nat.mod_le _ _).trans_lt (by rw [show (255 : UInt32).toNat = 255 from rfl]; omega)
    · decide

theorem length_send (h : kcp.send buffer = .ok (kcp', ret)) : kcp'.sndQueue.length ≤ kcp.sndQueue.length + 255 := by
  have hlast : (kcp.appendLast buffer).sndQueue.length = kcp.sndQueue.length := by
    rcases appendLast_queue kcp buffer with ⟨hqueue, -⟩ | ⟨segs, old, data, hold, hnew, -⟩
    · rw [hqueue]
    · rw [hold, hnew, List.length_append, List.length_append, List.length_singleton, List.length_singleton]
  obtain ⟨-, rest, -, hcases⟩ := send_cases h
  rcases hcases with ⟨-, -, rfl, -⟩ | ⟨rfl, -⟩ | ⟨hcount, rfl, -⟩
  · omega
  · omega
  · rw [pushMsg, List.length_append, length_fragment]
    omega

/-! ## `ikcp_recv` -/

/-- What `ikcp_recv` does: nothing, or it returns the first message and moves what has become free. -/
theorem recv_cases (h : kcp.recv len = .ok (kcp', ret, bytes)) :
    ret < 0 ∧ kcp' = kcp ∧ bytes = [] ∨
      kcp.rcvQueue ≠ [] ∧ 0 ≤ kcp.peeksize ∧ ret = bytes.length ∧ bytes = dataOf (splitMsg kcp.rcvQueue).1 ∧
        kcp' = (kcp.popMsg len).moveData.tellWnd (kcp.nrcvQue ≥ kcp.rcvWnd) := by
  unfold recv at h
  split at h
  · obtain ⟨rfl, hret⟩ := Prod.mk.inj (Except.ok.inj h)
    obtain ⟨rfl, rfl⟩ := Prod.mk.inj hret
    exact .inl ⟨by decide, rfl, rfl⟩
  split at h
  · obtain ⟨rfl, hret⟩ := Prod.mk.inj (Except.ok.inj h)
    obtain ⟨rfl, rfl⟩ := Prod.mk.inj hret
    exact .inl ⟨by decide, rfl, rfl⟩
  split at h
  · obtain ⟨rfl, hret⟩ := Prod.mk.inj (Except.ok.inj h)
    obtain ⟨rfl, rfl⟩ := Prod.mk.inj hret
    exact .inl ⟨by decide, rfl, rfl⟩
  next hnil hpeek _ =>
  obtain ⟨u, -, h⟩ := bind_eq_ok.mp h
  obtain ⟨rfl, hret⟩ := Prod.mk.inj (Except.ok.inj h)
  obtain ⟨rfl, rfl⟩ := Prod.mk.inj hret
  exact .inr ⟨hnil, not_lt.mp hpeek, rfl, rfl, rfl⟩

theorem popMsg_eq (kcp : IKCPCB) (len : Int) : ∃ rcvQueue nrcvQue, kcp.popMsg len = { kcp with rcvQueue, nrcvQue } := by
  unfold popMsg
  split <;> exact ⟨_, _, rfl⟩

theorem tellWnd_eq (kcp : IKCPCB) (recover : Prop) [Decidable recover] : ∃ probe,
    kcp.tellWnd recover = { kcp with probe } := by
  unfold tellWnd
  split <;> exact ⟨_, rfl⟩

theorem recv_eq (h : kcp.recv len = .ok (kcp', ret, bytes)) : ∃ rcvQueue nrcvQue nrcvBuf rcvNxt rcvBuf probe,
    kcp' = { kcp with rcvQueue, nrcvQue, nrcvBuf, rcvNxt, rcvBuf, probe } := by
  rcases recv_cases h with ⟨-, rfl, -⟩ | ⟨-, -, -, -, rfl⟩
  · exact ⟨_, _, _, _, _, _, rfl⟩
  · obtain ⟨_, _, hpop⟩ := popMsg_eq kcp len
    obtain ⟨_, _, _, _, _, hmove⟩ := moveLoop_eq (kcp.popMsg len) (kcp.popMsg len).rcvBuf
    obtain ⟨_, htell⟩ := tellWnd_eq (kcp.popMsg len).moveData (kcp.nrcvQue ≥ kcp.rcvWnd)
    rw [htell, moveData, hmove, hpop]
    exact ⟨_, _, _, _, _, _, rfl⟩

theorem took_recv {s : Arq Frag} (hs : Arq.Inv s) (hlog : s.log.length < 2 ^ 31) (h : Receives kcp s) (len : Int)
    (recover : Prop) [Decidable recover] :
    ∃ s', Took (kcp.popMsg len) ((kcp.popMsg len).moveData.tellWnd recover) s s' := by
  obtain ⟨_, _, hpop⟩ := popMsg_eq kcp len
  have hpop' : Receives (kcp.popMsg len) s := by
    rw [hpop]
    exact ⟨h.nxt, h.buf, h.acks⟩
  obtain ⟨s', htook⟩ := took_moveData hs hlog hpop'
  generalize (kcp.popMsg len).moveData = kcp₁ at htook ⊢
  obtain ⟨_, htell⟩ := tellWnd_eq kcp₁ recover
  rw [htell]
  exact ⟨s', htook.run, htook.log, htook.held, htook.receives.congr ⟨rfl, rfl, rfl, rfl⟩, htook.queue⟩

theorem splitMsg_append (segs : List IKCPSEG) : (splitMsg segs).1 ++ (splitMsg segs).2 = segs := by
  induction segs with
  | nil => rfl
  | cons seg segs ih =>
    unfold splitMsg
    split
    · rfl
    · rw [List.cons_append, ih]

end IKCPCB

end KcpServer.Ikcp
