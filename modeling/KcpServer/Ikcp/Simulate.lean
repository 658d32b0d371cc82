import KcpServer.Ikcp.Queues

/-!
# One control block and the abstract protocol

`Sends kcp s` and `Receives kcp s` : what `kcp` sends, or what it receives, is what `s` sends or receives. Both are about
numbers without end, and hold as long as there are no more than `2 ^ 31` of them.
-/

namespace KcpServer.Ikcp
open Lib

/-- The header has room for what a segment carries. -/
def Fits (seg : IKCPSEG) : Prop := seg.frg < 256 ∧ seg.data.length < 2 ^ 32

def IsPush (conv : UInt32) (seg : IKCPSEG) : Prop := seg.conv = conv ∧ seg.cmd = IKCP_CMD_PUSH ∧ Fits seg

structure Sends (kcp : IKCPCB) (s : Arq Frag) : Prop where
  nxt : kcp.sndNxt = serial s.log.length
  una : kcp.sndUna = serial s.una
  buf : Tracks kcp.sndBuf s.held
  push : ∀ seg ∈ kcp.sndBuf, IsPush kcp.conv seg
  queue : ∀ seg ∈ kcp.sndQueue, Fits seg

structure Receives (kcp : IKCPCB) (s : Arq Frag) : Prop where
  nxt : kcp.rcvNxt = serial s.next
  buf : Tracks kcp.rcvBuf s.early
  acks : ∀ a ∈ kcp.acklist, ∃ n, a.1 = serial n ∧ s.Has n

structure SameSnd (kcp kcp' : IKCPCB) : Prop where
  conv : kcp'.conv = kcp.conv
  sndNxt : kcp'.sndNxt = kcp.sndNxt
  sndUna : kcp'.sndUna = kcp.sndUna
  sndBuf : kcp'.sndBuf = kcp.sndBuf
  sndQueue : kcp'.sndQueue = kcp.sndQueue

structure SameRcv (kcp kcp' : IKCPCB) : Prop where
  rcvNxt : kcp'.rcvNxt = kcp.rcvNxt
  rcvBuf : kcp'.rcvBuf = kcp.rcvBuf
  rcvQueue : kcp'.rcvQueue = kcp.rcvQueue
  acklist : kcp'.acklist = kcp.acklist

section Frame
variable {kcp kcp' kcp'' : IKCPCB} {s : Arq Frag}

theorem SameRcv.trans (h : SameRcv kcp kcp') (h' : SameRcv kcp' kcp'') : SameRcv kcp kcp'' where
  rcvNxt := h'.rcvNxt.trans h.rcvNxt
  rcvBuf := h'.rcvBuf.trans h.rcvBuf
  rcvQueue := h'.rcvQueue.trans h.rcvQueue
  acklist := h'.acklist.trans h.acklist

theorem Sends.congr (h : Sends kcp s) (hsame : SameSnd kcp kcp') : Sends kcp' s where
  nxt := hsame.sndNxt.trans h.nxt
  una := hsame.sndUna.trans h.una
  buf := hsame.sndBuf ▸ h.buf
  push seg hseg := hsame.conv ▸ h.push seg (hsame.sndBuf ▸ hseg)
  queue seg hseg := h.queue seg (hsame.sndQueue ▸ hseg)

theorem Receives.congr (h : Receives kcp s) (hsame : SameRcv kcp kcp') : Receives kcp' s where
  nxt := hsame.rcvNxt.trans h.nxt
  buf := hsame.rcvBuf ▸ h.buf
  acks a ha := h.acks a (hsame.acklist ▸ ha)

end Frame

namespace IKCPCB
variable {kcp kcp' : IKCPCB} {s : Arq Frag} {n : ℕ}

/-! ## Acknowledgements -/

theorem mem_held (hs : Arq.Inv s) {e : ℕ × Frag} (he : e ∈ s.held) : s.una ≤ e.1 ∧ e.1 < s.log.length := by
  refine ⟨?_, (List.getElem?_eq_some_iff.mp (hs.held_log e he)).1⟩
  unfold Arq.una
  cases hheld : s.held with
  | nil =>
    rw [hheld] at he
    cases he
  | cons e' es =>
    rw [hheld] at he
    rcases List.mem_cons.mp he with rfl | he
    · exact le_rfl
    · have hasc := hheld ▸ hs.held_ascending
      exact ((List.pairwise_cons.mp hasc).1 e he).le

theorem una_le (hs : Arq.Inv s) : s.una ≤ s.log.length := by
  unfold Arq.una
  cases hheld : s.held with
  | nil => exact le_rfl
  | cons e es => exact (mem_held hs (e := e) (by rw [hheld]; exact List.mem_cons_self)).2.le

/-- `ikcp_shrink_buf` finds the first item that is held. -/
theorem sends_shrinkBuf (hnxt : kcp.sndNxt = serial s.log.length) (hbuf : Tracks kcp.sndBuf s.held)
    (hpush : ∀ seg ∈ kcp.sndBuf, IsPush kcp.conv seg) (hqueue : ∀ seg ∈ kcp.sndQueue, Fits seg) :
    Sends kcp.shrinkBuf s := by
  refine ⟨hnxt, ?_, hbuf, hpush, hqueue⟩
  have hbuf := hbuf
  simp only [shrinkBuf, Arq.una]
  cases hsnd : kcp.sndBuf with
  | nil =>
    rw [hsnd, Tracks, List.forall₂_nil_left_iff] at hbuf
    simp [hbuf, hnxt]
  | cons seg segs =>
    rw [hsnd] at hbuf
    obtain ⟨e, es, hhead, -, hheld⟩ := List.forall₂_cons_left_iff.mp hbuf
    simp [hheld, hhead.1]

theorem sends_parseUna (hs : Arq.Inv s) (hlog : s.log.length < 2 ^ 31) (h : Sends kcp s) {u : ℕ} (hu : u ≤ s.next) :
    Sends (kcp.parseUna (serial u)).shrinkBuf { s with held := s.held.filter (u ≤ ·.1) } := by
  have hle := hs.next_le
  refine sends_shrinkBuf h.nxt (h.buf.dropWhile hs.held_ascending fun e he => ?_) (fun seg hseg => ?_) h.queue
  · have := mem_held hs he
    unfold Near
    omega
  · exact h.push seg (List.dropWhile_subset _ hseg)

theorem ackLoop_subset (sn : UInt32) (segs : List IKCPSEG) : (ackLoop sn segs).1 ⊆ segs := by
  induction segs with
  | nil => exact List.Subset.refl _
  | cons seg segs ih =>
    unfold ackLoop
    split
    · exact List.subset_cons_self _ _
    split
    · exact List.Subset.refl _
    · exact List.cons_subset_cons _ ih

theorem lt_of_has (hs : Arq.Inv s) (hn : s.Has n) : n < s.log.length := by
  rcases hn with hlt | ⟨a, ha⟩
  · exact hlt.trans_le hs.next_le
  · exact (List.getElem?_eq_some_iff.mp (hs.early_log _ ha)).1

theorem tracks_parseAck (hs : Arq.Inv s) (hlog : s.log.length < 2 ^ 31) (h : Sends kcp s) (hn : n < s.log.length) :
    Tracks (kcp.parseAck (serial n)).sndBuf (s.held.filter (·.1 ≠ n)) := by
  have hune := una_le hs
  unfold parseAck
  rw [h.una, h.nxt, itimediff, serialDiff_serial (by unfold Near; omega), itimediff,
    serialDiff_serial (by unfold Near; omega)]
  split
  · next hout =>
    rw [List.filter_eq_self.mpr fun e he => ?_]
    · exact h.buf
    · have := mem_held hs he
      simp only [decide_eq_true_eq]
      omega
  · refine h.buf.ackLoop hs.held_ascending fun e he => ?_
    have := mem_held hs he
    unfold Near
    omega

theorem sends_parseAck (hs : Arq.Inv s) (hlog : s.log.length < 2 ^ 31) (h : Sends kcp s) (hn : n < s.log.length) :
    Sends (kcp.parseAck (serial n)).shrinkBuf { s with held := s.held.filter (·.1 ≠ n) } := by
  refine sends_shrinkBuf ?_ (tracks_parseAck hs hlog h hn) ?_ ?_
  · unfold parseAck
    split <;> exact h.nxt
  · unfold parseAck
    split
    · exact h.push
    · exact fun seg hseg => h.push seg (ackLoop_subset _ _ hseg)
  · unfold parseAck
    split <;> exact h.queue

/-! ## Data -/

/-- Moving segments to `rcv_queue` is no matter for what is sent. -/
theorem moveLoop_eq (kcp : IKCPCB) (segs : List IKCPSEG) : ∃ nrcvBuf rcvQueue nrcvQue rcvNxt rcvBuf,
    kcp.moveLoop segs = { kcp with nrcvBuf, rcvQueue, nrcvQue, rcvNxt, rcvBuf } := by
  induction segs generalizing kcp with
  | nil => exact ⟨_, _, _, _, _, rfl⟩
  | cons seg segs ih =>
    unfold moveLoop
    split
    · obtain ⟨_, _, _, _, _, heq⟩ := ih (kcp.takeSeg seg)
      rw [heq]
      exact ⟨_, _, _, _, _, rfl⟩
    · exact ⟨_, _, _, _, _, rfl⟩

/-- What the receiving half has done: it has taken the next items, and put them behind the others in `rcv_queue`. -/
structure Took (kcp kcp' : IKCPCB) (s s' : Arq Frag) : Prop where
  run : Arq.Run s s'
  log : s'.log = s.log
  held : s'.held = s.held
  receives : Receives kcp' s'
  queue : ∃ segs, kcp'.rcvQueue = kcp.rcvQueue ++ segs ∧ s.log.take s'.next = s.log.take s.next ++ segs.map IKCPSEG.frag

theorem Took.trans {kcp'' : IKCPCB} {s' s'' : Arq Frag} (h : Took kcp kcp' s s') (h' : Took kcp' kcp'' s' s'') :
    Took kcp kcp'' s s'' := by
  obtain ⟨segs, hqueue, htake⟩ := h.queue
  obtain ⟨segs', hqueue', htake'⟩ := h'.queue
  refine ⟨h.run.trans h'.run, h'.log.trans h.log, h'.held.trans h.held, h'.receives, segs ++ segs', ?_, ?_⟩
  · rw [hqueue', hqueue, List.append_assoc]
  · rw [← h.log, htake', h.log, htake, List.map_append, List.append_assoc]

theorem took_moveLoop {segs : List IKCPSEG} (hs : Arq.Inv s) (hlog : s.log.length < 2 ^ 31)
    (hnxt : kcp.rcvNxt = serial s.next) (hbuf : Tracks segs s.early)
    (hacks : ∀ a ∈ kcp.acklist, ∃ n, a.1 = serial n ∧ s.Has n) : ∃ s', Took kcp (kcp.moveLoop segs) s s' := by
  induction segs generalizing kcp s with
  | nil => exact ⟨s, .refl, rfl, rfl, ⟨hnxt, hbuf, hacks⟩, [], by simp [moveLoop], by simp⟩
  | cons seg segs ih =>
    obtain ⟨e, es, hhead, htail, hearly⟩ := List.forall₂_cons_left_iff.mp hbuf
    have hmem : e ∈ s.early := hearly ▸ List.mem_cons_self
    have hget := List.getElem?_eq_some_iff.mp (hs.early_log e hmem)
    have hnear : Near e.1 s.next := near_of_lt (hget.1.trans hlog) (by have := hs.next_le; omega)
    unfold moveLoop
    split
    · next hready =>
      have heq : e.1 = s.next := (serial_inj hnear).mp (hhead.1.symm.trans (hready.1.trans hnxt))
      have hstep := Arq.Step.take s e.2 es (heq ▸ hearly)
      have hnxt' : (kcp.takeSeg seg).rcvNxt = serial (s.next + 1) := by rw [takeSeg, hnxt, serial_add_one]
      obtain ⟨s', htook⟩ := ih (hs.step hstep) hlog hnxt' htail
        fun a ha => (hacks a ha).imp fun n hn => ⟨hn.1, hstep.has hn.2⟩
      obtain ⟨segs', hqueue, htake⟩ := htook.queue
      refine ⟨s', htook.run.head hstep, htook.log, htook.held, htook.receives, seg :: segs', ?_, ?_⟩
      · rw [hqueue, takeSeg, List.append_assoc]
        rfl
      · have hlast : s.log.take (s.next + 1) = s.log.take s.next ++ [e.2] := by
          rw [List.take_add_one, ← heq, hs.early_log e hmem]
          rfl
        rw [htake, hlast, List.append_assoc, List.map_cons, hhead.2, List.singleton_append]
    · exact ⟨s, .refl, rfl, rfl, ⟨hnxt, hbuf, hacks⟩, [], by simp, by simp⟩

theorem took_moveData (hs : Arq.Inv s) (hlog : s.log.length < 2 ^ 31) (h : Receives kcp s) :
    ∃ s', Took kcp kcp.moveData s s' := took_moveLoop hs hlog h.nxt h.buf h.acks

/-- A segment that has come is in its place, unless the window is closed to it. -/
theorem took_parseData {seg : IKCPSEG} (hs : Arq.Inv s) (hlog : s.log.length < 2 ^ 31) (h : Receives kcp s)
    (hsn : seg.sn = serial n) (hn : s.log[n]? = some seg.frag) (hge : s.next ≤ n)
    (hwnd : itimediff seg.sn (kcp.rcvNxt + kcp.rcvWnd) < 0) : ∃ s', Took kcp (kcp.parseData seg) s s' ∧ s'.Has n := by
  have hlt := (List.getElem?_eq_some_iff.mp hn).1
  have hnear : ∀ e ∈ s.early, Near n e.1 := by
    intro e he
    have hget := List.getElem?_eq_some_iff.mp (hs.early_log e he)
    have := hget.1
    exact near_of_lt (by omega) (by omega)
  have hnot : ¬ (itimediff seg.sn (kcp.rcvNxt + kcp.rcvWnd) ≥ 0 ∨ itimediff seg.sn kcp.rcvNxt < 0) := by
    have hle := hs.next_le
    rw [h.nxt, hsn] at *
    rw [itimediff, itimediff, serialDiff_serial (near_of_lt (by omega) (by omega))] at *
    omega
  have hplace := h.buf.placeRev hsn hs.early_ascending hnear
  have hstep := Arq.Step.store s n seg.frag hn hge
  have hhas : Arq.Has { s with early := insertItem n seg.frag s.early } n :=
    .inr (exists_mem_insertItem n seg.frag s.early)
  have hacks := fun a ha => (h.acks a ha).imp fun n hn => (⟨hn.1, hstep.has hn.2⟩ : a.1 = serial n ∧ _)
  unfold parseData
  rw [if_neg hnot]
  cases hfind : placeRev seg kcp.rcvBuf.reverse with
  | none =>
    rw [hfind] at hplace
    obtain ⟨s', htook⟩ := took_moveData (hs.step hstep) hlog ⟨h.nxt, hplace, hacks⟩
    exact ⟨s', ⟨htook.run.head hstep, htook.log, htook.held, htook.receives, htook.queue⟩, htook.run.has hhas⟩
  | some segs =>
    rw [hfind] at hplace
    have hreceives : Receives { kcp with rcvBuf := segs.reverse, nrcvBuf := kcp.nrcvBuf + 1 }
        { s with early := insertItem n seg.frag s.early } := ⟨h.nxt, hplace, hacks⟩
    obtain ⟨s', htook⟩ := took_moveData (hs.step hstep) hlog hreceives
    exact ⟨s', ⟨htook.run.head hstep, htook.log, htook.held, htook.receives, htook.queue⟩, htook.run.has hhas⟩

/-! ## A datagram -/

end IKCPCB

/-- A segment of one side is true: `send` is what that side sends, `recv` what it receives. -/
structure SegSays (conv : UInt32) (send recv : Arq Frag) (seg : IKCPSEG) : Prop where
  conv : seg.conv = conv
  known : KnownCmd seg.cmd
  frg : seg.frg < 256
  len : seg.data.length < 2 ^ 32
  una : ∃ u, seg.una = serial u ∧ u ≤ recv.next
  ack : seg.cmd = IKCP_CMD_ACK → ∃ n, seg.sn = serial n ∧ recv.Has n
  push : seg.cmd = IKCP_CMD_PUSH → ∃ n, seg.sn = serial n ∧ send.log[n]? = some seg.frag

def MadeOf (P : IKCPSEG → Prop) (d : Bytes) : Prop :=
  ∃ segs : List IKCPSEG, d = segs.flatMap IKCPSEG.bytes ∧ ∀ seg ∈ segs, P seg

theorem MadeOf.mono {P Q : IKCPSEG → Prop} {d : Bytes} (h : MadeOf P d) (hPQ : ∀ seg, P seg → Q seg) : MadeOf Q d :=
  h.imp fun _ hd => ⟨hd.1, fun seg hseg => hPQ seg (hd.2 seg hseg)⟩

/-- A datagram is made of true segments. -/
def Says (conv : UInt32) (send recv : Arq Frag) (d : Bytes) : Prop := d ≠ [] ∧ MadeOf (SegSays conv send recv) d

section Says
variable {conv : UInt32} {send recv send' recv' : Arq Frag}

theorem SegSays.mono {seg : IKCPSEG} (h : SegSays conv send recv seg) (hsend : Arq.Run send send')
    (hrecv : Arq.Run recv recv') : SegSays conv send' recv' seg where
  conv := h.conv
  known := h.known
  frg := h.frg
  len := h.len
  una := h.una.imp fun _ hu => ⟨hu.1, hu.2.trans hrecv.next_le⟩
  ack hcmd := (h.ack hcmd).imp fun _ hn => ⟨hn.1, hrecv.has hn.2⟩
  push hcmd := (h.push hcmd).imp fun _ hn => ⟨hn.1, hsend.log_eq_some hn.2⟩

theorem Says.mono {d : Bytes} (h : Says conv send recv d) (hsend : Arq.Run send send') (hrecv : Arq.Run recv recv') :
    Says conv send' recv' d := ⟨h.1, h.2.mono fun _ hseg => hseg.mono hsend hrecv⟩

theorem SegSays.header {seg : IKCPSEG} (h : SegSays conv send recv seg) :
    seg.header = ⟨seg.conv, seg.cmd, seg.frg, seg.wnd % 65536, seg.ts, seg.sn, seg.una, seg.len⟩ := by
  have hcmd : seg.cmd % 256 = seg.cmd := by
    rcases h.known with heq | heq | heq | heq <;> rw [heq] <;> rfl
  have hfrg : seg.frg % 256 = seg.frg := by
    have := UInt32.lt_iff_toNat_lt.mp h.frg
    rw [← UInt32.toNat_inj, UInt32.toNat_mod]
    exact Nat.mod_eq_of_lt this
  rw [IKCPSEG.header, hcmd, hfrg]

end Says

/-- What a datagram does to both halves: items are acknowledged, and items are taken. -/
structure Moved (kcp kcp' : IKCPCB) (snd snd' rcv rcv' : Arq Frag) : Prop where
  config : kcp'.config = kcp.config
  sndQueue : kcp'.sndQueue = kcp.sndQueue
  run : Arq.Run snd snd'
  log : snd'.log = snd.log
  next : snd'.next = snd.next
  early : snd'.early = snd.early
  sends : Sends kcp' snd'
  took : IKCPCB.Took kcp kcp' rcv rcv'

section Moved
variable {kcp kcp' kcp'' : IKCPCB} {snd snd' snd'' rcv rcv' rcv'' : Arq Frag}

theorem Moved.trans (h : Moved kcp kcp' snd snd' rcv rcv') (h' : Moved kcp' kcp'' snd' snd'' rcv' rcv'') :
    Moved kcp kcp'' snd snd'' rcv rcv'' where
  config := h'.config.trans h.config
  sndQueue := h'.sndQueue.trans h.sndQueue
  run := h.run.trans h'.run
  log := h'.log.trans h.log
  next := h'.next.trans h.next
  early := h'.early.trans h.early
  sends := h'.sends
  took := h.took.trans h'.took

structure Halves (kcp : IKCPCB) (snd rcv : Arq Frag) : Prop where
  sndInv : Arq.Inv snd
  sndLog : snd.log.length < 2 ^ 31
  sends : Sends kcp snd
  rcvInv : Arq.Inv rcv
  rcvLog : rcv.log.length < 2 ^ 31
  receives : Receives kcp rcv

theorem Moved.halves (h : Moved kcp kcp' snd snd' rcv rcv') (hh : Halves kcp snd rcv) : Halves kcp' snd' rcv' where
  sndInv := hh.sndInv.run h.run
  sndLog := h.log ▸ hh.sndLog
  sends := h.sends
  rcvInv := hh.rcvInv.run h.took.run
  rcvLog := h.took.log ▸ hh.rcvLog
  receives := h.took.receives

theorem Halves.moved_of_sameRcv (hh : Halves kcp snd rcv) (hsame : SameRcv kcp kcp') (hconfig : kcp'.config = kcp.config)
    (hqueue : kcp'.sndQueue = kcp.sndQueue) (hrun : Arq.Run snd snd') (hlog : snd'.log = snd.log)
    (hnext : snd'.next = snd.next) (hearly : snd'.early = snd.early) (hsends : Sends kcp' snd') :
    Moved kcp kcp' snd snd' rcv rcv :=
  ⟨hconfig, hqueue, hrun, hlog, hnext, hearly, hsends, .refl, rfl, rfl, hh.receives.congr hsame, [], by
    simp [hsame.rcvQueue], by simp⟩

end Moved

namespace IKCPCB
variable {kcp kcp' : IKCPCB} {snd rcv : Arq Frag} {seg : IKCPSEG}

theorem moved_una (hh : Halves kcp snd rcv) (wnd : UInt32) {u : ℕ} (hu : u ≤ snd.next) :
    ∃ snd', Moved kcp ({ kcp with rmtWnd := wnd }.parseUna (serial u)).shrinkBuf snd snd' rcv rcv := by
  have hsends : Sends { kcp with rmtWnd := wnd } snd := hh.sends.congr ⟨rfl, rfl, rfl, rfl, rfl⟩
  exact ⟨_, hh.moved_of_sameRcv ⟨rfl, rfl, rfl, rfl⟩ rfl rfl (.single (.ackBelow snd u hu)) rfl rfl rfl
    (sends_parseUna hh.sndInv hh.sndLog hsends hu)⟩

/-- Acknowledgements are no matter for what is received, nor for the settings. -/
theorem parseAck_same (kcp : IKCPCB) (sn : UInt32) : SameRcv kcp (kcp.parseAck sn).shrinkBuf ∧
    (kcp.parseAck sn).shrinkBuf.config = kcp.config ∧ (kcp.parseAck sn).shrinkBuf.sndQueue = kcp.sndQueue := by
  unfold parseAck
  split
  · exact ⟨⟨rfl, rfl, rfl, rfl⟩, rfl, rfl⟩
  · exact ⟨⟨rfl, rfl, rfl, rfl⟩, rfl, rfl⟩

theorem parseFastack_same (kcp : IKCPCB) (sn : UInt32) : SameRcv kcp (kcp.parseFastack sn) := by
  unfold parseFastack
  split <;> exact ⟨rfl, rfl, rfl, rfl⟩

/-- Of what is received, only data changes anything. -/
theorem inputSeg_rcv {hd : SegHeader} {data : Bytes} {maxack maxack' : Option UInt32}
    (h : kcp.inputSeg hd data maxack = .ok (kcp', maxack')) : SameRcv kcp kcp' ∨
      hd.cmd = IKCP_CMD_PUSH ∧ ∃ kcp₁, SameRcv kcp kcp₁ ∧ kcp' = kcp₁.inputPush hd data := by
  obtain ⟨kcp₁, hkcp₁, hcases⟩ := inputSeg_cases h
  have hsame : SameRcv kcp kcp₁ := by
    rw [hkcp₁]
    exact ⟨rfl, rfl, rfl, rfl⟩
  rcases hcases with ⟨-, kcp₂, hrtt, rfl⟩ | ⟨hcmd, hpush⟩ | ⟨probe, rfl⟩
  · have hsame₂ : SameRcv kcp₁ kcp₂ := by
      obtain ⟨_, _, _, rfl⟩ := ackRtt_eq hrtt
      exact ⟨rfl, rfl, rfl, rfl⟩
    exact .inl ((hsame.trans hsame₂).trans (parseAck_same kcp₂ hd.sn).1)
  · exact .inr ⟨hcmd, kcp₁, hsame, hpush⟩
  · exact .inl ⟨hsame.rcvNxt, hsame.rcvBuf, hsame.rcvQueue, hsame.acklist⟩

theorem moved_parseAck (hh : Halves kcp snd rcv) {n : ℕ} (hn : snd.Has n) :
    ∃ snd', Moved kcp (kcp.parseAck (serial n)).shrinkBuf snd snd' rcv rcv := by
  obtain ⟨hsame, hconfig, hqueue⟩ := parseAck_same kcp (serial n)
  have hsends := sends_parseAck hh.sndInv hh.sndLog hh.sends (lt_of_has hh.sndInv hn)
  have hrun : Arq.Run snd _ := .single (.ack snd n hn)
  exact ⟨_, hh.moved_of_sameRcv hsame hconfig hqueue hrun rfl rfl rfl hsends⟩

theorem moved_of_same (hh : Halves kcp snd rcv) (hsnd : SameSnd kcp kcp') (hrcv : SameRcv kcp kcp')
    (hconfig : kcp'.config = kcp.config) : Moved kcp kcp' snd snd rcv rcv :=
  hh.moved_of_sameRcv hrcv hconfig hsnd.sndQueue .refl rfl rfl rfl (hh.sends.congr hsnd)

theorem moved_refl (hh : Halves kcp snd rcv) : Moved kcp kcp snd snd rcv rcv :=
  moved_of_same hh ⟨rfl, rfl, rfl, rfl, rfl⟩ ⟨rfl, rfl, rfl, rfl⟩ rfl

theorem moved_inputAck (hh : Halves kcp snd rcv) {n : ℕ} (hn : snd.Has n) {ts : UInt32} (h : kcp.ackRtt ts = .ok kcp') :
    ∃ snd', Moved kcp (kcp'.parseAck (serial n)).shrinkBuf snd snd' rcv rcv := by
  obtain ⟨rxSrtt, rxRttval, rxRto, rfl⟩ := ackRtt_eq h
  have hmoved : Moved kcp { kcp with rxSrtt, rxRttval, rxRto } snd snd rcv rcv :=
    moved_of_same hh ⟨rfl, rfl, rfl, rfl, rfl⟩ ⟨rfl, rfl, rfl, rfl⟩ rfl
  obtain ⟨snd', hmoved'⟩ := moved_parseAck (hmoved.halves hh) hn
  exact ⟨snd', hmoved.trans hmoved'⟩

theorem moved_of_took {rcv' : Arq Frag} (hh : Halves kcp snd rcv) (hsnd : SameSnd kcp kcp')
    (hconfig : kcp'.config = kcp.config) (htook : Took kcp kcp' rcv rcv') : Moved kcp kcp' snd snd rcv rcv' :=
  ⟨hconfig, hsnd.sndQueue, .refl, rfl, rfl, rfl, hh.sends.congr hsnd, htook⟩

theorem parseData_same (kcp : IKCPCB) (seg : IKCPSEG) : SameSnd kcp (kcp.parseData seg) ∧
    (kcp.parseData seg).config = kcp.config := by
  unfold parseData
  split
  · exact ⟨⟨rfl, rfl, rfl, rfl, rfl⟩, rfl⟩
  split
  · obtain ⟨_, _, _, _, _, heq⟩ := moveLoop_eq kcp kcp.rcvBuf
    rw [moveData, heq]
    exact ⟨⟨rfl, rfl, rfl, rfl, rfl⟩, rfl⟩
  · next segs _ =>
    obtain ⟨_, _, _, _, _, heq⟩ := moveLoop_eq { kcp with rcvBuf := segs.reverse, nrcvBuf := kcp.nrcvBuf + 1 } segs.reverse
    rw [moveData, heq]
    exact ⟨⟨rfl, rfl, rfl, rfl, rfl⟩, rfl⟩

theorem moved_ackPush (hh : Halves kcp snd rcv) {n : ℕ} (hn : rcv.Has n) (ts : UInt32) :
    Moved kcp (kcp.ackPush (serial n) ts) snd snd rcv rcv := by
  refine moved_of_took hh ⟨rfl, rfl, rfl, rfl, rfl⟩ rfl
    ⟨.refl, rfl, rfl, ⟨hh.receives.nxt, hh.receives.buf, fun a ha => ?_⟩, [], by simp [ackPush], by simp⟩
  rcases List.mem_append.mp ha with ha | ha
  · exact hh.receives.acks a ha
  · rw [List.mem_singleton.mp ha]
    exact ⟨n, rfl, hn⟩

theorem moveLoop_ackPush (kcp : IKCPCB) (sn ts : UInt32) (segs : List IKCPSEG) :
    (kcp.ackPush sn ts).moveLoop segs = (kcp.moveLoop segs).ackPush sn ts := by
  induction segs generalizing kcp with
  | nil => rfl
  | cons seg segs ih =>
    by_cases hready : seg.sn = kcp.rcvNxt ∧ kcp.nrcvQue < kcp.rcvWnd
    · calc (kcp.ackPush sn ts).moveLoop (seg :: segs)
        _ = ((kcp.takeSeg seg).ackPush sn ts).moveLoop segs := if_pos hready
        _ = ((kcp.takeSeg seg).moveLoop segs).ackPush sn ts := ih _
        _ = (kcp.moveLoop (seg :: segs)).ackPush sn ts := by rw [moveLoop, if_pos hready]
    · calc (kcp.ackPush sn ts).moveLoop (seg :: segs)
        _ = { kcp.ackPush sn ts with rcvBuf := seg :: segs } := if_neg hready
        _ = (kcp.moveLoop (seg :: segs)).ackPush sn ts := by
          rw [moveLoop, if_neg hready]
          rfl

/-- It makes no difference that the acknowledgement is noted first. -/
theorem parseData_ackPush (kcp : IKCPCB) (sn ts : UInt32) (seg : IKCPSEG) :
    (kcp.ackPush sn ts).parseData seg = (kcp.parseData seg).ackPush sn ts := by
  by_cases hout : itimediff seg.sn (kcp.rcvNxt + kcp.rcvWnd) ≥ 0 ∨ itimediff seg.sn kcp.rcvNxt < 0
  · rw [parseData, parseData, if_pos hout]
    exact if_pos hout
  · have hout' : ¬ (itimediff seg.sn ((kcp.ackPush sn ts).rcvNxt + (kcp.ackPush sn ts).rcvWnd) ≥ 0 ∨
        itimediff seg.sn (kcp.ackPush sn ts).rcvNxt < 0) := hout
    have hbuf : (kcp.ackPush sn ts).rcvBuf = kcp.rcvBuf := rfl
    rw [parseData, if_neg hout', hbuf, parseData, if_neg hout]
    cases placeRev seg kcp.rcvBuf.reverse with
    | none => exact moveLoop_ackPush kcp sn ts _
    | some segs => exact moveLoop_ackPush { kcp with rcvBuf := segs.reverse, nrcvBuf := kcp.nrcvBuf + 1 } sn ts _

/-- Data comes and is acknowledged, or is there already, or finds the window closed. -/
theorem moved_inputPush (hh : Halves kcp snd rcv) {hd : SegHeader} {data : Bytes} {n : ℕ} (hsn : hd.sn = serial n)
    (hn : rcv.log[n]? = some (hd.frg, data)) : ∃ rcv', Moved kcp (kcp.inputPush hd data) snd snd rcv rcv' := by
  have hlt := (List.getElem?_eq_some_iff.mp hn).1
  have hle := hh.rcvInv.next_le
  have hlog := hh.rcvLog
  have hdiff : itimediff hd.sn kcp.rcvNxt = n - rcv.next := by
    rw [hsn, hh.receives.nxt]
    exact serialDiff_serial (near_of_lt (by omega) (by omega))
  unfold inputPush
  split
  swap
  · exact ⟨rcv, moved_refl hh⟩
  next hwnd =>
  dsimp only
  split
  · next hge =>
    have hge : rcv.next ≤ n := by
      change itimediff hd.sn kcp.rcvNxt ≥ 0 at hge
      omega
    have hsn' : (segOf hd data).sn = serial n := hsn
    obtain ⟨rcv', htook, hhas⟩ := took_parseData hh.rcvInv hlog hh.receives hsn' hn hge hwnd
    obtain ⟨hsame, hconfig⟩ := parseData_same kcp (segOf hd data)
    have hmoved := moved_of_took hh hsame hconfig htook
    rw [parseData_ackPush, hsn]
    exact ⟨rcv', hmoved.trans (moved_ackPush (hmoved.halves hh) hhas hd.ts)⟩
  · next hge =>
    have hhas : rcv.Has n := by
      left
      change ¬ itimediff hd.sn kcp.rcvNxt ≥ 0 at hge
      omega
    rw [hsn]
    exact ⟨rcv, moved_ackPush hh hhas hd.ts⟩

theorem moved_inputSeg (hh : Halves kcp snd rcv) (hsaid : SegSays kcp.conv rcv snd seg) {maxack maxack' : Option UInt32}
    (h : kcp.inputSeg seg.header seg.data maxack = .ok (kcp', maxack')) :
    ∃ snd' rcv', Moved kcp kcp' snd snd' rcv rcv' := by
  obtain ⟨u, huna, hu⟩ := hsaid.una
  obtain ⟨snd₁, h₁⟩ := moved_una hh (seg.wnd % 65536) hu
  have hh₁ := h₁.halves hh
  rw [hsaid.header, huna] at h
  obtain ⟨kcp₁, hkcp₁, hcases⟩ := inputSeg_cases h
  dsimp only at hkcp₁ hcases
  rw [← hkcp₁] at h₁ hh₁
  rcases hcases with ⟨hcmd, kcp₂, hrtt, rfl⟩ | ⟨hcmd, hpush⟩ | ⟨probe, rfl⟩
  · obtain ⟨n, hsn, hn⟩ := hsaid.ack hcmd
    obtain ⟨snd₂, h₂⟩ := moved_inputAck hh₁ (h₁.run.has hn) hrtt
    exact ⟨snd₂, rcv, h₁.trans (hsn ▸ h₂)⟩
  · obtain ⟨n, hsn, hn⟩ := hsaid.push hcmd
    have hsn' : (SegHeader.mk seg.conv seg.cmd seg.frg (seg.wnd % 65536) seg.ts seg.sn (serial u) seg.len).sn =
      serial n := hsn
    obtain ⟨rcv', h₂⟩ := moved_inputPush hh₁ hsn' hn
    rw [hpush]
    exact ⟨snd₁, rcv', h₁.trans h₂⟩
  · exact ⟨snd₁, rcv, h₁.trans (moved_of_same hh₁ ⟨rfl, rfl, rfl, rfl, rfl⟩ ⟨rfl, rfl, rfl, rfl⟩ rfl)⟩

theorem moved_inputLoop {segs : List IKCPSEG} (hh : Halves kcp snd rcv)
    (hsaid : ∀ seg ∈ segs, SegSays kcp.conv rcv snd seg) {maxack maxack' : Option UInt32} {err : Option Int}
    (h : kcp.inputLoop (segs.flatMap IKCPSEG.bytes) maxack = .ok (kcp', err, maxack')) :
    err = none ∧ ∃ snd' rcv', Moved kcp kcp' snd snd' rcv rcv' := by
  induction segs generalizing kcp snd rcv maxack with
  | nil =>
    rw [inputLoop] at h
    obtain ⟨rfl, hret⟩ := Prod.mk.inj (Except.ok.inj h)
    obtain ⟨rfl, -⟩ := Prod.mk.inj hret
    exact ⟨rfl, snd, rcv, moved_refl hh⟩
  | cons seg segs ih =>
    have hseg := hsaid seg List.mem_cons_self
    have hcmd : KnownCmd (seg.cmd % 256) := by
      rcases hseg.known with heq | heq | heq | heq <;> rw [heq] <;> decide
    rw [List.flatMap_cons, inputLoop_bytes hseg.conv hcmd hseg.len] at h
    obtain ⟨⟨kcp₁, maxack₁⟩, hin, h⟩ := bind_eq_ok.mp h
    obtain ⟨snd₁, rcv₁, h₁⟩ := moved_inputSeg hh hseg hin
    have hconv : kcp₁.conv = kcp.conv := congrArg Config.conv h₁.config
    obtain ⟨herr, snd', rcv', h₂⟩ := ih (h₁.halves hh)
      (fun seg' hseg' => hconv ▸ (hsaid seg' (List.mem_cons_of_mem _ hseg')).mono h₁.took.run h₁.run) h
    exact ⟨herr, snd', rcv', h₁.trans h₂⟩

theorem moved_parseFastack (hh : Halves kcp snd rcv) (sn : UInt32) : Moved kcp (kcp.parseFastack sn) snd snd rcv rcv := by
  unfold parseFastack
  split
  · exact moved_refl hh
  · refine hh.moved_of_sameRcv ⟨rfl, rfl, rfl, rfl⟩ rfl rfl .refl rfl rfl rfl
      ⟨hh.sends.nxt, hh.sends.una, hh.sends.buf.fastackLoop sn, ?_, hh.sends.queue⟩
    exact forall_fastackLoop sn hh.sends.push fun seg hseg => hseg

/-- A true datagram is accepted, and does nothing but acknowledge items and take them. -/
theorem moved_input (hh : Halves kcp snd rcv) {d : Bytes} (hsaid : Says kcp.conv rcv snd d) {ret : Int}
    (h : kcp.input d = .ok (kcp', ret)) : ret = 0 ∧ ∃ snd' rcv', Moved kcp kcp' snd snd' rcv rcv' := by
  obtain ⟨hne, segs, rfl, hsegs⟩ := hsaid
  rcases input_cases h with ⟨hlt, -⟩ | ⟨kcp₁, err, maxack, hloop, hend⟩
  · cases segs with
    | nil => exact absurd rfl hne
    | cons seg segs =>
      have hover : IKCP_OVERHEAD = 24 := rfl
      rw [List.flatMap_cons, List.length_append, seg.length_bytes] at hlt
      omega
  obtain ⟨rfl, snd', rcv', h₁⟩ := moved_inputLoop hh hsegs hloop
  rcases hend with ⟨herr, -⟩ | ⟨-, hret, cwnd, incr, rfl⟩
  · cases herr
  have hh₁ := h₁.halves hh
  have h₂ : Moved kcp₁ (kcp₁.inputFastack maxack) snd' snd' rcv' rcv' := by
    cases maxack with
    | none => exact moved_refl hh₁
    | some maxack => exact moved_parseFastack hh₁ maxack
  exact ⟨hret, snd', rcv', h₁.trans (h₂.trans
    (moved_of_same (h₂.halves hh₁) ⟨rfl, rfl, rfl, rfl, rfl⟩ ⟨rfl, rfl, rfl, rfl⟩ rfl))⟩

end IKCPCB

end KcpServer.Ikcp
