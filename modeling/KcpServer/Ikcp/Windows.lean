import KcpServer.Ikcp.Counters
import KcpServer.Lib.Transition

/-!
# The windows

What holds of a control block whatever is put into it, be it from the other end or from anyone else. `Within base n segs` :
the numbers of the segments go up, from `base` on and below `base + n`.

* `windows_of_reach` : the receiving window and the sending window hold in every run;
* `flush_ok` : `ikcp_flush` does not write behind its buffer, and no datagram is longer than `mtu`;
* `call_error` : no call can fail, but for an estimate of the round trip that is out of range.
-/

namespace KcpServer.Ikcp
open Lib

/-- The segments have numbers from `base` on, in ascending order and below `base + n`. -/
def Within (base n : ℕ) (segs : List IKCPSEG) : Prop :=
  ∃ es, Tracks segs es ∧ Ascending es ∧ ∀ e ∈ es, base ≤ e.1 ∧ e.1 < base + n

section Within
variable {base n : ℕ} {segs segs' : List IKCPSEG} {seg : IKCPSEG}

theorem Within.length_le (h : Within base n segs) : segs.length ≤ n := by
  obtain ⟨es, htracks, hasc, hes⟩ := h
  rw [htracks.length_eq]
  exact hasc.length_le hes

theorem Tracks.sublist {es : List (ℕ × Frag)} (hsub : segs'.Sublist segs) (h : Tracks segs es) :
    ∃ es', es'.Sublist es ∧ Tracks segs' es' := by
  induction hsub generalizing es with
  | slnil => exact ⟨es, .refl _, h⟩
  | cons seg _ ih =>
    obtain ⟨e, es, -, htail, rfl⟩ := List.forall₂_cons_left_iff.mp h
    obtain ⟨es', hsub', htracks⟩ := ih htail
    exact ⟨es', hsub'.cons e, htracks⟩
  | cons_cons seg _ ih =>
    obtain ⟨e, es, hhead, htail, rfl⟩ := List.forall₂_cons_left_iff.mp h
    obtain ⟨es', hsub', htracks⟩ := ih htail
    exact ⟨e :: es', hsub'.cons_cons e, .cons hhead htracks⟩

theorem Within.sublist (h : Within base n segs) (hsub : segs'.Sublist segs) : Within base n segs' := by
  obtain ⟨es, htracks, hasc, hes⟩ := h
  obtain ⟨es', hsub', htracks'⟩ := htracks.sublist hsub
  exact ⟨es', htracks', hasc.sublist hsub', fun e he => hes e (hsub'.subset he)⟩

theorem Within.congr (h : Within base n segs)
    (hsame : List.Forall₂ (fun seg seg' => seg'.sn = seg.sn ∧ seg'.frag = seg.frag) segs segs') : Within base n segs' := by
  obtain ⟨es, htracks, hasc, hes⟩ := h
  refine ⟨es, ?_, hasc, hes⟩
  clear hasc hes
  induction hsame generalizing es with
  | nil => exact htracks
  | cons hhead _ ih =>
    obtain ⟨e, es, hhead', htail, rfl⟩ := List.forall₂_cons_left_iff.mp htracks
    exact .cons ⟨hhead.1.trans hhead'.1, hhead.2.trans hhead'.2⟩ (ih _ htail)

end Within

namespace IKCPCB
variable {kcp kcp' : IKCPCB} {segs : List IKCPSEG} {seg : IKCPSEG}

/-! ## The receiving window -/

/-- The part of `Windows` that is about receiving, for the segments of `rcv_buf` that are still to be looked at. -/
structure RcvWindow (kcp : IKCPCB) (segs : List IKCPSEG) : Prop where
  rcvWnd : kcp.rcvWnd.toNat < 2 ^ 31
  nrcvQue : kcp.nrcvQue = UInt32.ofNat kcp.rcvQueue.length
  rcvQueue : kcp.rcvQueue.length ≤ kcp.rcvWnd.toNat
  rcvBuf : ∃ nxt, kcp.rcvNxt = serial nxt ∧ Within nxt kcp.rcvWnd.toNat segs

/-- Nothing is moved into a full window. -/
theorem rcvWindow_moveLoop (h : RcvWindow kcp segs) : RcvWindow (kcp.moveLoop segs) (kcp.moveLoop segs).rcvBuf := by
  induction segs generalizing kcp with
  | nil => exact ⟨h.rcvWnd, h.nrcvQue, h.rcvQueue, h.rcvBuf⟩
  | cons seg segs ih =>
    unfold moveLoop
    split
    swap
    · exact ⟨h.rcvWnd, h.nrcvQue, h.rcvQueue, h.rcvBuf⟩
    next hready =>
    refine ih ⟨h.rcvWnd, ?_, ?_, ?_⟩
    · rw [takeSeg, h.nrcvQue, List.length_append, List.length_singleton]
      exact ofNat_add_ofNat _ 1
    · have hlt := UInt32.lt_iff_toNat_lt.mp hready.2
      have hle := h.rcvQueue
      have hwnd := h.rcvWnd
      rw [h.nrcvQue, UInt32.toNat_ofNat', Nat.mod_eq_of_lt (by omega)] at hlt
      rw [takeSeg, List.length_append, List.length_singleton]
      exact hlt
    · obtain ⟨nxt, hnxt, es, htracks, hasc, hes⟩ := h.rcvBuf
      obtain ⟨e, es, hhead, htail, rfl⟩ := List.forall₂_cons_left_iff.mp htracks
      obtain ⟨hfirst, hasc⟩ := List.pairwise_cons.mp hasc
      have hwnd := h.rcvWnd
      have hrange := hes e List.mem_cons_self
      have heq : e.1 = nxt :=
        (serial_inj (by unfold Near; omega)).mp (hhead.1.symm.trans (hready.1.trans hnxt))
      refine ⟨nxt + 1, by rw [takeSeg, hnxt, serial_add_one], es, htail, hasc, fun e' he' => ?_⟩
      have hgt := hfirst e' he'
      have hlt := hes e' (List.mem_cons_of_mem _ he')
      change nxt + 1 ≤ e'.1 ∧ e'.1 < nxt + 1 + kcp.rcvWnd.toNat
      omega

/-- A segment is stored only if it is in the window. -/
theorem rcvWindow_parseData (h : RcvWindow kcp kcp.rcvBuf) (seg : IKCPSEG) :
    RcvWindow (kcp.parseData seg) (kcp.parseData seg).rcvBuf := by
  unfold parseData
  split
  · exact h
  next hin =>
  obtain ⟨nxt, hnxt, es, htracks, hasc, hes⟩ := h.rcvBuf
  have hwnd := h.rcvWnd
  obtain ⟨n, hn, hsn⟩ := exists_serial nxt seg.sn
  have hlow : (seg.sn - serial nxt).toNat < 2 ^ 31 := by
    by_contra hge
    have hneg := serialDiff_of_le (x := seg.sn) (y := serial nxt) (by omega)
    rw [hnxt] at hin
    exact hin (.inr hneg)
  have hhigh : n < nxt + kcp.rcvWnd.toNat := by
    have hsum : kcp.rcvNxt + kcp.rcvWnd = serial (nxt + kcp.rcvWnd.toNat) := by
      rw [hnxt, ← serial_add, serial, serial, UInt32.ofNat_toNat]
    have hdiff : itimediff seg.sn (kcp.rcvNxt + kcp.rcvWnd) = n - (nxt + kcp.rcvWnd.toNat : ℕ) := by
      rw [hsum, hsn]
      exact serialDiff_serial (by unfold Near; omega)
    omega
  have hnear : ∀ e ∈ es, Near n e.1 := by
    intro e he
    have := hes e he
    unfold Near
    omega
  have hplace := htracks.placeRev hsn hasc hnear
  have hes' : ∀ e ∈ insertItem n seg.frag es, nxt ≤ e.1 ∧ e.1 < nxt + kcp.rcvWnd.toNat := by
    intro e he
    rcases mem_insertItem he with rfl | he
    · exact ⟨by omega, hhigh⟩
    · exact hes e he
  split
  · exact rcvWindow_moveLoop h
  · next segs' hfind =>
    rw [hfind] at hplace
    exact rcvWindow_moveLoop ⟨h.rcvWnd, h.nrcvQue, h.rcvQueue, nxt, hnxt, _, hplace, hasc.insertItem n seg.frag, hes'⟩

/-! ## The sending window -/

/-- The part of `Windows` that is about sending. -/
def SndWindow (kcp : IKCPCB) : Prop :=
  ∃ una n, kcp.sndUna = serial una ∧ kcp.sndNxt = serial (una + n) ∧ n ≤ kcp.sndWnd.toNat ∧ Within una n kcp.sndBuf

theorem sndWindow_shrinkBuf (h : kcp.SndWindow) (hsub : segs.Sublist kcp.sndBuf) (nsndBuf : UInt32) :
    ({ kcp with sndBuf := segs, nsndBuf } : IKCPCB).shrinkBuf.SndWindow := by
  obtain ⟨una, n, huna, hnxt, hle, hwithin⟩ := h
  obtain ⟨es, htracks, hasc, hes⟩ := hwithin.sublist hsub
  cases htracks with
  | nil => exact ⟨una + n, 0, hnxt, hnxt, Nat.zero_le _, [], .nil, .nil, fun _ h => nomatch h⟩
  | @cons seg e segs es hhead htail =>
    have hrange := hes e List.mem_cons_self
    obtain ⟨hfirst, -⟩ := List.pairwise_cons.mp hasc
    have hsum : e.1 + (una + n - e.1) = una + n := by omega
    refine ⟨e.1, una + n - e.1, hhead.1, by rw [hsum]; exact hnxt, ?_, e :: es, .cons hhead htail, hasc, fun e' he' => ?_⟩
    · change una + n - e.1 ≤ kcp.sndWnd.toNat
      omega
    · refine ⟨?_, by rw [hsum]; exact (hes e' he').2⟩
      rcases List.mem_cons.mp he' with rfl | he'
      · exact le_rfl
      · exact (hfirst e' he').le

theorem ackLoop_sublist (sn : UInt32) (segs : List IKCPSEG) : (ackLoop sn segs).1.Sublist segs := by
  induction segs with
  | nil => exact .refl _
  | cons seg segs ih =>
    unfold ackLoop
    split
    · exact List.sublist_cons_self _ _
    split
    · exact .refl _
    · exact ih.cons_cons seg

theorem fastackLoop_same (sn : UInt32) (segs : List IKCPSEG) :
    List.Forall₂ (fun seg seg' => seg'.sn = seg.sn ∧ seg'.frag = seg.frag) segs (fastackLoop sn segs) := by
  have hrefl (segs : List IKCPSEG) :
      List.Forall₂ (fun seg seg' : IKCPSEG => seg'.sn = seg.sn ∧ seg'.frag = seg.frag) segs segs :=
    List.forall₂_same.mpr fun _ _ => ⟨rfl, rfl⟩
  induction segs with
  | nil => exact .nil
  | cons seg segs ih =>
    unfold fastackLoop
    split
    · exact hrefl _
    · refine .cons ?_ ih
      split <;> exact ⟨rfl, rfl⟩

theorem sndWindow_numberLoop {cwnd : UInt32} (hwnd : kcp.sndWnd.toNat < 2 ^ 31) (hcwnd : cwnd ≤ kcp.sndWnd)
    (h : kcp.SndWindow) : (kcp.numberLoop cwnd segs).SndWindow := by
  induction segs generalizing kcp with
  | nil => exact h
  | cons seg segs ih =>
    unfold numberLoop
    split
    swap
    · exact h
    next hroom =>
    refine ih hwnd hcwnd ?_
    obtain ⟨una, n, huna, hnxt, hle, es, htracks, hasc, hes⟩ := h
    have hcwnd' := UInt32.le_iff_toNat_le.mp hcwnd
    have hlt : n < cwnd.toNat := by
      have hsum : kcp.sndUna + cwnd = serial (una + cwnd.toNat) := by
        rw [huna, ← serial_add, serial, serial, UInt32.ofNat_toNat]
      have hdiff : itimediff kcp.sndNxt (kcp.sndUna + cwnd) = (una + n : ℕ) - (una + cwnd.toNat : ℕ) := by
        rw [hsum, hnxt]
        exact serialDiff_serial (by unfold Near; omega)
      omega
    refine ⟨una, n + 1, huna, ?_, ?_, es ++ [(una + n, seg.frag)], htracks.append (tracks_singleton hnxt rfl), ?_, ?_⟩
    · rw [numberSeg, hnxt, serial_add_one, Nat.add_assoc]
    · exact (Nat.succ_le_of_lt hlt).trans hcwnd'
    · refine List.pairwise_append.mpr ⟨hasc, List.pairwise_singleton _ _, fun e he e' he' => ?_⟩
      rw [List.mem_singleton.mp he']
      exact (hes e he).2
    · intro e he
      rcases List.mem_append.mp he with he | he
      · have := hes e he
        omega
      · rw [List.mem_singleton.mp he]
        dsimp only
        omega

/-! ## Every call -/

/-- What holds in every run. -/
structure Windows (kcp : IKCPCB) : Prop where
  counted : Counted kcp
  sndWnd : kcp.sndWnd.toNat < 2 ^ 31
  rcv : RcvWindow kcp kcp.rcvBuf
  snd : SndWindow kcp
  mss : kcp.mss > 0
  mtu : kcp.mtu.toNat = kcp.mss.toNat + 24
  buffer : (kcp.mtu.toNat + 24) * 3 < 2 ^ 32
  queueSizes : ∀ seg ∈ kcp.sndQueue, seg.data.length ≤ kcp.mss.toNat
  bufSizes : ∀ seg ∈ kcp.sndBuf, seg.data.length ≤ kcp.mss.toNat

theorem Windows.congr_rcv (h : Windows kcp) (hcounted : Counted kcp') (hconfig : kcp'.config = kcp.config)
    (hsnd : SameSnd kcp kcp') (hrcv : RcvWindow kcp' kcp'.rcvBuf) : Windows kcp' := by
  have hmss : kcp'.mss = kcp.mss := congrArg Config.mss hconfig
  have hmtu : kcp'.mtu = kcp.mtu := congrArg Config.mtu hconfig
  have hsndWnd : kcp'.sndWnd = kcp.sndWnd := congrArg Config.sndWnd hconfig
  refine ⟨hcounted, hsndWnd ▸ h.sndWnd, hrcv, ?_, hmss ▸ h.mss, ?_, hmtu ▸ h.buffer, ?_, ?_⟩
  · unfold SndWindow
    rw [hsnd.sndUna, hsnd.sndNxt, hsndWnd, hsnd.sndBuf]
    exact h.snd
  · rw [hmtu, hmss]
    exact h.mtu
  · rw [hsnd.sndQueue, hmss]
    exact h.queueSizes
  · rw [hsnd.sndBuf, hmss]
    exact h.bufSizes

theorem RcvWindow.congr (h : RcvWindow kcp kcp.rcvBuf) (hcounted : Counted kcp') (hconfig : kcp'.config = kcp.config)
    (hrcv : SameRcv kcp kcp') : RcvWindow kcp' kcp'.rcvBuf := by
  have hrcvWnd : kcp'.rcvWnd = kcp.rcvWnd := congrArg Config.rcvWnd hconfig
  refine ⟨hrcvWnd ▸ h.rcvWnd, hcounted.rcvQueue, ?_, ?_⟩
  · rw [hrcv.rcvQueue, hrcvWnd]
    exact h.rcvQueue
  · rw [hrcv.rcvNxt, hrcvWnd, hrcv.rcvBuf]
    exact h.rcvBuf

theorem Windows.congr (h : Windows kcp) (hcounted : Counted kcp') (hconfig : kcp'.config = kcp.config)
    (hsnd : SameSnd kcp kcp') (hrcv : SameRcv kcp kcp') : Windows kcp' :=
  h.congr_rcv hcounted hconfig hsnd (h.rcv.congr hcounted hconfig hrcv)

theorem windows_shrinkBuf (h : Windows kcp) (hsub : segs.Sublist kcp.sndBuf) (nsndBuf : UInt32)
    (hcounted : Counted { kcp with sndBuf := segs, nsndBuf }) :
    Windows ({ kcp with sndBuf := segs, nsndBuf } : IKCPCB).shrinkBuf :=
  { h with
    counted := counted_shrinkBuf hcounted
    rcv := h.rcv.congr (counted_shrinkBuf hcounted) rfl ⟨rfl, rfl, rfl, rfl⟩
    snd := sndWindow_shrinkBuf h.snd hsub nsndBuf
    bufSizes := fun seg hseg => h.bufSizes seg (hsub.subset hseg) }

theorem windows_parseUna (h : Windows kcp) (una : UInt32) : Windows (kcp.parseUna una).shrinkBuf :=
  windows_shrinkBuf h (List.dropWhile_sublist _) _ (counted_parseUna h.counted una)

theorem windows_parseAck (h : Windows kcp) (sn : UInt32) : Windows (kcp.parseAck sn).shrinkBuf := by
  have hcounted := counted_parseAck h.counted sn
  unfold parseAck at hcounted ⊢
  split
  · exact windows_shrinkBuf h (.refl _) kcp.nsndBuf h.counted
  · next hin =>
    rw [if_neg hin] at hcounted
    exact windows_shrinkBuf h (ackLoop_sublist sn kcp.sndBuf) _ hcounted

theorem windows_parseFastack (h : Windows kcp) (sn : UInt32) : Windows (kcp.parseFastack sn) := by
  have hcounted := counted_parseFastack h.counted sn
  unfold parseFastack at hcounted ⊢
  split
  · exact h
  · next hin =>
    rw [if_neg hin] at hcounted
    obtain ⟨una, n, huna, hnxt, hle, hwithin⟩ := h.snd
    exact { h with
      counted := hcounted
      rcv := h.rcv.congr hcounted rfl ⟨rfl, rfl, rfl, rfl⟩
      snd := ⟨una, n, huna, hnxt, hle, hwithin.congr (fastackLoop_same sn kcp.sndBuf)⟩
      bufSizes := forall_fastackLoop sn h.bufSizes fun seg hseg => hseg }

theorem windows_parseData (h : Windows kcp) (seg : IKCPSEG) : Windows (kcp.parseData seg) :=
  h.congr_rcv (counted_parseData h.counted seg) (parseData_same kcp seg).2 (parseData_same kcp seg).1
    (rcvWindow_parseData h.rcv seg)

theorem windows_inputPush (h : Windows kcp) (hd : SegHeader) (data : Bytes) : Windows (kcp.inputPush hd data) := by
  have hack : Windows (kcp.ackPush hd.sn hd.ts) :=
    { h with
      counted := { h.counted with }
      rcv := { h.rcv with } }
  rcases inputPush_cases kcp hd data with heq | heq | heq
  · rwa [heq]
  · rwa [heq]
  · rw [heq]
    exact windows_parseData hack _

theorem windows_inputSeg {hd : SegHeader} {data : Bytes} {maxack maxack' : Option UInt32} (h : Windows kcp)
    (hin : kcp.inputSeg hd data maxack = .ok (kcp', maxack')) : Windows kcp' := by
  have hwnd : Windows { kcp with rmtWnd := hd.wnd } := by
    refine h.congr ?_ rfl ⟨rfl, rfl, rfl, rfl, rfl⟩ ⟨rfl, rfl, rfl, rfl⟩
    exact { h.counted with }
  have huna := windows_parseUna hwnd hd.una
  obtain ⟨kcp₁, rfl, hcases⟩ := inputSeg_cases hin
  rcases hcases with ⟨-, kcp₂, hrtt, rfl⟩ | ⟨-, hpush⟩ | ⟨probe, rfl⟩
  · have hcounted := counted_ackRtt huna.counted hrtt
    obtain ⟨_, _, _, rfl⟩ := ackRtt_eq hrtt
    exact windows_parseAck (huna.congr hcounted rfl ⟨rfl, rfl, rfl, rfl, rfl⟩ ⟨rfl, rfl, rfl, rfl⟩) hd.sn
  · rw [hpush]
    exact windows_inputPush huna hd data
  · refine huna.congr ?_ rfl ⟨rfl, rfl, rfl, rfl, rfl⟩ ⟨rfl, rfl, rfl, rfl⟩
    exact { huna.counted with }

theorem windows_input {d : Bytes} {ret : Int} (h : Windows kcp) (hin : kcp.input d = .ok (kcp', ret)) : Windows kcp' := by
  refine input_keeps ?_ ?_ ?_ h hin
  · exact fun _ _ _ _ _ _ hkcp hseg => windows_inputSeg hkcp hseg
  · exact fun _ sn hkcp => windows_parseFastack hkcp sn
  · intro kcp cwnd incr hkcp
    refine hkcp.congr ?_ rfl ⟨rfl, rfl, rfl, rfl, rfl⟩ ⟨rfl, rfl, rfl, rfl⟩
    exact { hkcp.counted with }

theorem forall_numberLoop {P : IKCPSEG → Prop} (cwnd : UInt32) (hbuf : ∀ seg ∈ kcp.sndBuf, P seg)
    (hsegs : ∀ seg ∈ segs, P seg) (hP : ∀ seg conv cmd wnd ts sn una resendts rto fastack xmit, P seg →
      P { seg with conv, cmd, wnd, ts, sn, una, resendts, rto, fastack, xmit }) :
    (∀ seg ∈ (kcp.numberLoop cwnd segs).sndBuf, P seg) ∧ ∀ seg ∈ (kcp.numberLoop cwnd segs).sndQueue, P seg := by
  induction segs generalizing kcp with
  | nil => exact ⟨hbuf, fun _ h => nomatch h⟩
  | cons seg segs ih =>
    obtain ⟨hseg, hrest⟩ := List.forall_mem_cons.mp hsegs
    unfold numberLoop
    split
    · refine ih (fun seg' hseg' => ?_) hrest
      rcases List.mem_append.mp hseg' with hseg' | hseg'
      · exact hbuf seg' hseg'
      · rw [List.mem_singleton.mp hseg']
        exact hP seg _ _ _ _ _ _ _ _ _ _ hseg
    · exact ⟨hbuf, hsegs⟩

theorem flushWnd_le (kcp : IKCPCB) : kcp.flushWnd ≤ kcp.sndWnd := by
  rw [UInt32.le_iff_toNat_le]
  unfold flushWnd
  dsimp only
  split
  · rw [toNat_min, toNat_min]
    exact (min_le_right _ _).trans (min_le_left _ _)
  · rw [toNat_min]
    exact min_le_left _ _

theorem windows_flush {ds : List Bytes} (h : Windows kcp) (hflush : kcp.flush = .ok (kcp', ds)) : Windows kcp' := by
  have hcounted := counted_flush h.counted hflush
  obtain ⟨kcp₁, kcp₂, ⟨tsProbe, probeWait, hkcp₁⟩, hkcp₂, ⟨_, _, _, _, _, _, hkcp'⟩, hresent, -⟩ := flush_emits hflush
  have hsnd₁ : kcp₁.SndWindow := by
    rw [hkcp₁]
    exact h.snd
  have hsndWnd₁ : kcp₁.sndWnd = kcp.sndWnd := by rw [hkcp₁]
  have hsnd₂ : kcp₂.SndWindow := by
    rw [hkcp₂]
    exact sndWindow_numberLoop (hsndWnd₁ ▸ h.sndWnd) (hsndWnd₁ ▸ flushWnd_le kcp) hsnd₁
  have hsizes : (∀ seg ∈ kcp₂.sndBuf, seg.data.length ≤ kcp.mss.toNat) ∧
      ∀ seg ∈ kcp₂.sndQueue, seg.data.length ≤ kcp.mss.toNat := by
    rw [hkcp₂]
    refine forall_numberLoop _ ?_ h.queueSizes fun _ _ _ _ _ _ _ _ _ _ _ hseg => hseg
    rw [hkcp₁]
    exact h.bufSizes
  obtain ⟨_, _, _, _, _, hframe⟩ := numberLoop_eq kcp₁ kcp.flushWnd kcp.sndQueue
  have hframe := hkcp₂.trans hframe
  have hconfig : kcp'.config = kcp.config := by
    rw [hkcp', hframe, hkcp₁]
    rfl
  have hmss : kcp'.mss = kcp.mss := congrArg Config.mss hconfig
  have hmtu : kcp'.mtu = kcp.mtu := congrArg Config.mtu hconfig
  have hsndWnd : kcp'.sndWnd = kcp.sndWnd := congrArg Config.sndWnd hconfig
  refine ⟨hcounted, hsndWnd ▸ h.sndWnd, ?_, ?_, hmss ▸ h.mss, ?_, hmtu ▸ h.buffer, ?_, ?_⟩
  · rw [hkcp', hframe, hkcp₁]
    exact ⟨h.rcv.rcvWnd, h.rcv.nrcvQue, h.rcv.rcvQueue, h.rcv.rcvBuf⟩
  · obtain ⟨una, n, huna, hnxt, hle, hwithin⟩ := hsnd₂
    have hwithin' := hwithin.congr (hresent.imp fun _ _ hres => ⟨hres.sn, hres.frag⟩)
    rw [hkcp'] at hwithin' ⊢
    exact ⟨una, n, huna, hnxt, hle, hwithin'⟩
  · rw [hmtu, hmss]
    exact h.mtu
  · rw [hmss, hkcp']
    exact hsizes.2
  · intro seg' hseg'
    obtain ⟨seg, hseg, hres⟩ := exists_of_forall₂ hresent hseg'
    have hdata : seg'.data = seg.data := (Prod.mk.inj hres.frag).2
    rw [hmss, hdata]
    exact hsizes.1 seg hseg

theorem windows_update {ds : List Bytes} {current : UInt32} (h : Windows kcp)
    (hupdate : kcp.update current = .ok (kcp', ds)) : Windows kcp' := by
  obtain ⟨hsnd, hrcv, hconfig⟩ := tick_same kcp current
  have htick : Windows (kcp.tick current) :=
    h.congr { h.counted with } hconfig hsnd hrcv
  unfold update at hupdate
  split at hupdate
  · exact windows_flush htick hupdate
  · obtain ⟨rfl, -⟩ := Prod.mk.inj (Except.ok.inj hupdate)
    exact htick

theorem windows_send {buffer : Bytes} {ret : Int} (h : Windows kcp) (hsend : kcp.send buffer = .ok (kcp', ret)) :
    Windows kcp' := by
  have hcounted := counted_send h.counted hsend
  have hsizes : ∀ seg ∈ kcp'.sndQueue, seg.data.length ≤ kcp.mss.toNat :=
    forall_send hsend (fun _ _ _ hlen => hlen) h.queueSizes
  obtain ⟨_, _, rfl⟩ := send_eq hsend
  exact { h with
    counted := hcounted
    rcv := h.rcv.congr hcounted rfl ⟨rfl, rfl, rfl, rfl⟩
    queueSizes := hsizes }

theorem windows_recv {bytes : Bytes} {ret len : Int} (h : Windows kcp) (hrecv : kcp.recv len = .ok (kcp', ret, bytes)) :
    Windows kcp' := by
  have hcounted := counted_recv h.counted hrecv
  rcases recv_cases hrecv with ⟨-, rfl, -⟩ | ⟨-, -, -, -, hkcp'⟩
  · exact h
  have hpop : RcvWindow (kcp.popMsg len) (kcp.popMsg len).rcvBuf := by
    have hcounted := counted_popMsg h.counted len
    refine ⟨?_, hcounted.rcvQueue, ?_, ?_⟩
    · obtain ⟨_, _, heq⟩ := popMsg_eq kcp len
      rw [heq]
      exact h.rcv.rcvWnd
    · unfold popMsg
      split
      · exact h.rcv.rcvQueue
      · have hsplit := congrArg List.length (splitMsg_append kcp.rcvQueue)
        rw [List.length_append] at hsplit
        have hle := h.rcv.rcvQueue
        dsimp only
        omega
    · obtain ⟨_, _, heq⟩ := popMsg_eq kcp len
      rw [heq]
      exact h.rcv.rcvBuf
  have hmove : RcvWindow (kcp.popMsg len).moveData (kcp.popMsg len).moveData.rcvBuf := rcvWindow_moveLoop hpop
  have hrcv : RcvWindow kcp' kcp'.rcvBuf := by
    generalize (kcp.popMsg len).moveData = kcp₁ at hkcp' hmove
    obtain ⟨_, htell⟩ := tellWnd_eq kcp₁ (kcp.nrcvQue ≥ kcp.rcvWnd)
    rw [hkcp', htell]
    exact ⟨hmove.rcvWnd, hmove.nrcvQue, hmove.rcvQueue, hmove.rcvBuf⟩
  obtain ⟨_, _, _, _, _, _, rfl⟩ := recv_eq hrecv
  exact ⟨hcounted, h.sndWnd, hrcv, h.snd, h.mss, h.mtu, h.buffer, h.queueSizes, h.bufSizes⟩

end IKCPCB

/-! ## The buffer of `ikcp_flush` -/

namespace OutBuf
variable {o : OutBuf} {seg : IKCPSEG} {mtu : UInt32}

def Sized (mtu : UInt32) (o : OutBuf) : Prop := o.buffer.length ≤ mtu.toNat ∧ ∀ d ∈ o.sent, d.length ≤ mtu.toNat

theorem sized_empty (mtu : UInt32) : Sized mtu {} := ⟨Nat.zero_le _, fun _ h => nomatch h⟩

theorem Sized.output (h : Sized mtu o) : Sized mtu o.output := by
  refine ⟨Nat.zero_le _, fun d hd => ?_⟩
  unfold OutBuf.output at hd
  dsimp only at hd
  split at hd
  · exact h.2 d hd
  · rcases List.mem_append.mp hd with hd | hd
    · exact h.2 d hd
    · rw [List.mem_singleton.mp hd]
      exact h.1

theorem Sized.put (h : Sized mtu o) (hbuffer : (mtu.toNat + 24) * 3 < 2 ^ 32) (hseg : 24 + seg.data.length ≤ mtu.toNat) :
    ∃ o', o.put mtu seg = .ok o' ∧ Sized mtu o' := by
  have hover : IKCP_OVERHEAD = 24 := rfl
  have hroom : Sized mtu (o.room mtu (IKCP_OVERHEAD + seg.data.length)) ∧
      (o.room mtu (IKCP_OVERHEAD + seg.data.length)).buffer.length + (24 + seg.data.length) ≤ mtu.toNat := by
    unfold OutBuf.room
    split
    · refine ⟨h.output, ?_⟩
      change 0 + (24 + seg.data.length) ≤ mtu.toNat
      omega
    · exact ⟨h, by omega⟩
  have hsize : ((mtu + 24) * 3).toNat = (mtu.toNat + 24) * 3 := by
    rw [UInt32.toNat_mul, UInt32.toNat_add]
    change (mtu.toNat + 24) % 2 ^ 32 * 3 % 2 ^ 32 = _
    omega
  unfold OutBuf.put
  dsimp only
  generalize o.room mtu (IKCP_OVERHEAD + seg.data.length) = o₁ at hroom
  have hlen := seg.length_bytes
  rw [if_pos (by omega)]
  refine ⟨_, rfl, ?_, hroom.1.2⟩
  rw [List.length_append]
  omega

end OutBuf

namespace IKCPCB
variable {kcp kcp' : IKCPCB} {segs : List IKCPSEG} {seg : IKCPSEG} {o : OutBuf} {mtu : UInt32}

theorem flushAcks_ok (hbuffer : (mtu.toNat + 24) * 3 < 2 ^ 32) (hmtu : 24 ≤ mtu.toNat) (hseg : seg.data = [])
    (ho : OutBuf.Sized mtu o) (acks : List (UInt32 × UInt32)) :
    ∃ o' seg', flushAcks mtu o seg acks = .ok (o', seg') ∧ OutBuf.Sized mtu o' ∧ seg'.data = [] := by
  induction acks generalizing o seg with
  | nil => exact ⟨o, seg, rfl, ho, hseg⟩
  | cons a acks ih =>
    obtain ⟨sn, ts⟩ := a
    have hdata : ({ seg with sn, ts } : IKCPSEG).data = [] := hseg
    have hsize : 24 + ({ seg with sn, ts } : IKCPSEG).data.length ≤ mtu.toNat := by
      rw [hdata]
      exact hmtu
    obtain ⟨o₁, hput, ho₁⟩ := ho.put hbuffer hsize
    obtain ⟨o', seg', hrest, ho', hseg'⟩ := ih hdata ho₁
    refine ⟨o', seg', ?_, ho', hseg'⟩
    rw [flushAcks, hput, ok_bind]
    exact hrest

theorem flushProbe_ok (hbuffer : (kcp.mtu.toNat + 24) * 3 < 2 ^ 32) (hmtu : 24 ≤ kcp.mtu.toNat) (hseg : seg.data = [])
    (ho : OutBuf.Sized kcp.mtu o) (ask cmd : UInt32) :
    ∃ o', kcp.flushProbe ask cmd o seg = .ok o' ∧ OutBuf.Sized kcp.mtu o' := by
  unfold flushProbe
  split
  · exact ho.put hbuffer (by simpa [hseg] using hmtu)
  · exact ⟨o, rfl, ho⟩

theorem flushCtrl_ok (h : Windows kcp) : ∃ kcp' o, kcp.flushCtrl = .ok (kcp', o) ∧ OutBuf.Sized kcp.mtu o := by
  have hmtu : 24 ≤ kcp.mtu.toNat := h.mtu ▸ Nat.le_add_left _ _
  obtain ⟨o₁, seg, hacks, ho₁, hseg⟩ :=
    flushAcks_ok h.buffer hmtu (show kcp.ctrlSeg.data = [] from rfl) (OutBuf.sized_empty kcp.mtu) kcp.acklist
  obtain ⟨tsProbe, probeWait, probe, hprobe⟩ := probeWindow_eq { kcp with acklist := [] }
  have hmtu' : ({ kcp with acklist := [] } : IKCPCB).probeWindow.mtu = kcp.mtu := by rw [hprobe]
  unfold flushCtrl
  rw [hacks, ok_bind]
  dsimp only
  generalize ({ kcp with acklist := [] } : IKCPCB).probeWindow = kcp₁ at hmtu' ⊢
  rw [← hmtu'] at ho₁ hmtu
  have hbuffer := hmtu' ▸ h.buffer
  obtain ⟨o₂, hask, ho₂⟩ := flushProbe_ok hbuffer hmtu hseg ho₁ IKCP_ASK_SEND IKCP_CMD_WASK
  obtain ⟨o₃, htell, ho₃⟩ := flushProbe_ok hbuffer hmtu hseg ho₂ IKCP_ASK_TELL IKCP_CMD_WINS
  rw [flushProbes, hask, ok_bind, htell, ok_bind]
  exact ⟨_, _, rfl, hmtu' ▸ ho₃⟩

theorem flushData_ok (resent : UInt32) (f : FlushState) (hbuffer : (kcp.mtu.toNat + 24) * 3 < 2 ^ 32)
    (hsegs : ∀ seg ∈ segs, 24 + seg.data.length ≤ kcp.mtu.toNat) (ho : OutBuf.Sized kcp.mtu f.out) :
    ∃ f' segs', kcp.flushData resent f segs = .ok (f', segs') ∧ OutBuf.Sized kcp.mtu f'.out := by
  induction segs generalizing f with
  | nil => exact ⟨f, [], rfl, ho⟩
  | cons seg segs ih =>
    obtain ⟨hseg, hrest⟩ := List.forall_mem_cons.mp hsegs
    obtain ⟨f₁, seg₁, hone, ho₁⟩ : ∃ f₁ seg₁, kcp.flushSeg resent f seg = .ok (f₁, seg₁) ∧ OutBuf.Sized kcp.mtu f₁.out := by
      unfold flushSeg
      split
      · exact ⟨_, _, rfl, ho⟩
      · next why _ =>
        have hdata := (resend_resent kcp seg why kcp.current kcp.wndUnused kcp.rcvNxt).frag
        have hdata := (Prod.mk.inj hdata).2
        obtain ⟨o', hput, ho'⟩ := ho.put hbuffer (hdata.symm ▸ hseg)
        dsimp only
        rw [hput, ok_bind]
        exact ⟨_, _, rfl, ho'⟩
    obtain ⟨f₂, segs₂, htail, ho₂⟩ := ih f₁ hrest ho₁
    refine ⟨f₂, seg₁ :: segs₂, ?_, ho₂⟩
    rw [flushData, hone, ok_bind]
    dsimp only
    rw [htail]
    rfl

/-- `ikcp_flush` stays in its buffer, and no datagram is longer than `mtu`. -/
theorem flush_ok (h : Windows kcp) : ∃ kcp' ds, kcp.flush = .ok (kcp', ds) ∧ ∀ d ∈ ds, d.length ≤ kcp.mtu.toNat := by
  obtain ⟨kcp₁, o, hctrl, ho⟩ := flushCtrl_ok h
  obtain ⟨⟨_, _, hkcp₁⟩, -⟩ := flushCtrl_eq hctrl []
  have hfield : kcp₁.mtu = kcp.mtu ∧ kcp₁.sndQueue = kcp.sndQueue ∧ kcp₁.sndBuf = kcp.sndBuf := by
    rw [hkcp₁]
    exact ⟨rfl, rfl, rfl⟩
  have hbufSizes : ∀ seg ∈ kcp₁.sndBuf, seg.data.length ≤ kcp.mss.toNat := hfield.2.2 ▸ h.bufSizes
  have hsizes := (forall_numberLoop kcp₁.flushWnd hbufSizes (hfield.2.1 ▸ h.queueSizes)
    fun _ _ _ _ _ _ _ _ _ _ _ hseg => hseg).1
  obtain ⟨_, _, _, _, _, hnumber⟩ := numberLoop_eq kcp₁ kcp₁.flushWnd kcp₁.sndQueue
  have hmtu₂ : (kcp₁.numberLoop kcp₁.flushWnd kcp₁.sndQueue).mtu = kcp.mtu := by
    rw [hnumber]
    exact hfield.1
  unfold flush
  rw [hctrl, ok_bind]
  dsimp only
  generalize kcp₁.numberLoop kcp₁.flushWnd kcp₁.sndQueue = kcp₂ at hsizes hmtu₂ ⊢
  have hsegs : ∀ seg ∈ kcp₂.sndBuf, 24 + seg.data.length ≤ kcp₂.mtu.toNat := by
    intro seg hseg
    have hle := hsizes seg hseg
    rw [hmtu₂, h.mtu]
    omega
  have hbuffer₂ : (kcp₂.mtu.toNat + 24) * 3 < 2 ^ 32 := hmtu₂ ▸ h.buffer
  obtain ⟨f, sndBuf, hdata, hout⟩ :=
    flushData_ok kcp₂.resent { out := o, xmit := kcp₂.xmit, state := kcp₂.state } hbuffer₂ hsegs (hmtu₂ ▸ ho)
  rw [hdata, ok_bind]
  exact ⟨_, _, rfl, hmtu₂ ▸ hout.output.2⟩

theorem update_ok (h : Windows kcp) (current : UInt32) :
    ∃ kcp' ds, kcp.update current = .ok (kcp', ds) ∧ ∀ d ∈ ds, d.length ≤ kcp.mtu.toNat := by
  obtain ⟨hsnd, hrcv, hconfig⟩ := tick_same kcp current
  have htick : Windows (kcp.tick current) :=
    h.congr { h.counted with } hconfig hsnd hrcv
  have hmtu : (kcp.tick current).mtu = kcp.mtu := congrArg Config.mtu hconfig
  unfold update
  split
  · obtain ⟨kcp', ds, hflush, hds⟩ := flush_ok htick
    exact ⟨kcp', ds, hflush, hmtu ▸ hds⟩
  · exact ⟨_, [], rfl, fun _ hd => nomatch hd⟩

theorem length_le_of_update (h : Windows kcp) {current : UInt32} {ds : List Bytes}
    (hupdate : kcp.update current = .ok (kcp', ds)) : ∀ d ∈ ds, d.length ≤ kcp.mtu.toNat := by
  obtain ⟨_, _, hok, hds⟩ := update_ok h current
  rw [hupdate] at hok
  cases hok
  exact hds

/-! ## The other calls -/

end IKCPCB

/-! ## Runs -/

/-- The calls on a control block that has been set up; a datagram may hold anything. -/
inductive Call
  | send (buffer : Bytes)
  | recv (len : Int)
  | update (current : UInt32)
  | input (d : Bytes)

namespace IKCPCB

def call (kcp : IKCPCB) : Call → Except Fault IKCPCB
  | .send buffer => Prod.fst <$> kcp.send buffer
  | .recv len => Prod.fst <$> kcp.recv len
  | .update current => Prod.fst <$> kcp.update current
  | .input d => Prod.fst <$> kcp.input d

/-- A control block that has been created and set up. The arguments are of type `int`, and the buffer of `ikcp_setmtu`
has a length that does not wrap. -/
inductive SetUp : IKCPCB → Prop
  | create (conv : UInt32) : SetUp (create conv)
  | setmtu {kcp : IKCPCB} {mtu : Int} (h : SetUp kcp) (hmtu : (mtu + 24) * 3 < 2 ^ 32) : SetUp (kcp.setmtu mtu).1
  | nodelay {kcp : IKCPCB} {nodelay interval resend nc : Int} (h : SetUp kcp) :
    SetUp (kcp.setNodelay nodelay interval resend nc)
  | wndsize {kcp : IKCPCB} {sndwnd rcvwnd : Int} (h : SetUp kcp) (hsnd : sndwnd < 2 ^ 31) (hrcv : rcvwnd < 2 ^ 31) :
    SetUp (kcp.wndsize sndwnd rcvwnd)
  | stream {kcp : IKCPCB} {stream : Int} (h : SetUp kcp) : SetUp { kcp with stream }

variable {kcp kcp' kcp₀ : IKCPCB}

theorem toNat_ofInt {n : Int} (hn : 0 ≤ n) (hlt : n < 2 ^ 32) : ((UInt32.ofInt n).toNat : Int) = n := by
  rw [UInt32.ofInt, UInt32.toNat_ofNat']
  omega

/-- A control block that has been set up has not sent or received anything. -/
structure Idle (kcp : IKCPCB) : Prop where
  counters : kcp.nsndBuf = 0 ∧ kcp.nsndQue = 0 ∧ kcp.nrcvBuf = 0 ∧ kcp.nrcvQue = 0
  sndWnd : kcp.sndWnd.toNat < 2 ^ 31
  rcvWnd : kcp.rcvWnd.toNat < 2 ^ 31
  mss : kcp.mss > 0
  mtu : kcp.mtu.toNat = kcp.mss.toNat + 24
  buffer : (kcp.mtu.toNat + 24) * 3 < 2 ^ 32
  una : kcp.sndUna = 0
  nxt : kcp.sndNxt = 0
  rcvNxt : kcp.rcvNxt = 0
  queues : kcp.sndQueue = [] ∧ kcp.sndBuf = [] ∧ kcp.rcvQueue = [] ∧ kcp.rcvBuf = []
  acklist : kcp.acklist = []

theorem SetUp.idle (h : SetUp kcp) : Idle kcp := by
  induction h with
  | create conv =>
    refine ⟨⟨rfl, rfl, rfl, rfl⟩, ?_, ?_, ?_, ?_, ?_, rfl, rfl, rfl, ⟨rfl, rfl, rfl, rfl⟩, rfl⟩
    all_goals
      simp only [IKCPCB.create]
      decide
  | @setmtu kcp mtu _ hmtu ih =>
    unfold IKCPCB.setmtu
    split
    · exact ih
    · next hge =>
      have hlt : ((UInt32.ofInt mtu).toNat : Int) = mtu := toNat_ofInt (by omega) (by omega)
      have hmss : ((UInt32.ofInt mtu - 24).toNat : Int) = mtu - 24 := by
        rw [UInt32.toNat_sub]
        change (((2 ^ 32 - 24 + (UInt32.ofInt mtu).toNat) % 2 ^ 32 : ℕ) : Int) = mtu - 24
        omega
      refine ⟨ih.counters, ih.sndWnd, ih.rcvWnd, ?_, ?_, ?_, ih.una, ih.nxt, ih.rcvNxt, ih.queues, ih.acklist⟩
      · refine UInt32.lt_iff_toNat_lt.mpr ?_
        change 0 < (UInt32.ofInt mtu - 24).toNat
        omega
      · dsimp only
        omega
      · dsimp only
        omega
  | @nodelay kcp delay every resend nc _ ih =>
    obtain ⟨_, _, _, _, _, heq⟩ := setNodelay_eq kcp delay every resend nc
    rw [heq]
    exact { ih with }
  | @wndsize kcp sndwnd rcvwnd _ hsnd hrcv ih =>
    have hofInt {n : Int} (hn : n > 0) (hlt : n < 2 ^ 31) : (UInt32.ofInt n).toNat < 2 ^ 31 := by
      have := toNat_ofInt (n := n) (by omega) (by omega)
      omega
    unfold IKCPCB.wndsize
    dsimp only
    split <;> split
    · next hr hs =>
      exact { ih with sndWnd := hofInt hs hsnd, rcvWnd := hofInt hr hrcv }
    · next hr hs =>
      exact { ih with rcvWnd := hofInt hr hrcv }
    · next hr hs =>
      exact { ih with sndWnd := hofInt hs hsnd }
    · exact ih
  | stream _ ih =>
    exact { ih with }

theorem Idle.windows (h : Idle kcp) : Windows kcp := by
  obtain ⟨hsndQueue, hsndBuf, hrcvQueue, hrcvBuf⟩ := h.queues
  have hcounted : Counted kcp := by
    obtain ⟨hnsndBuf, hnsndQue, hnrcvBuf, hnrcvQue⟩ := h.counters
    exact ⟨by rw [hnsndBuf, hsndBuf]; rfl, by rw [hnsndQue, hsndQueue]; rfl, by rw [hnrcvBuf, hrcvBuf]; rfl,
      by rw [hnrcvQue, hrcvQueue]; rfl⟩
  refine ⟨hcounted, h.sndWnd, ⟨h.rcvWnd, hcounted.rcvQueue, ?_, 0, h.rcvNxt, ?_⟩, ⟨0, 0, h.una, h.nxt, Nat.zero_le _, ?_⟩,
    h.mss, h.mtu, h.buffer, ?_, ?_⟩
  · rw [hrcvQueue]
    exact Nat.zero_le _
  · rw [hrcvBuf]
    exact ⟨[], .nil, .nil, fun _ h => nomatch h⟩
  · rw [hsndBuf]
    exact ⟨[], .nil, .nil, fun _ h => nomatch h⟩
  · rw [hsndQueue]
    exact fun _ h => nomatch h
  · rw [hsndBuf]
    exact fun _ h => nomatch h

theorem exists_of_map_fst {α : Type} {x : Except Fault (IKCPCB × α)} (h : Prod.fst <$> x = .ok kcp') :
    ∃ r, x = .ok (kcp', r) := by
  cases x with
  | error e => cases h
  | ok r =>
    obtain ⟨kcp₁, r⟩ := r
    cases h
    exact ⟨r, rfl⟩

theorem windows_call (h : Windows kcp) {c : Call} (hcall : kcp.call c = .ok kcp') : Windows kcp' := by
  cases c with
  | send buffer =>
    obtain ⟨ret, hsend⟩ := exists_of_map_fst hcall
    exact windows_send h hsend
  | recv len =>
    obtain ⟨⟨ret, bytes⟩, hrecv⟩ := exists_of_map_fst hcall
    exact windows_recv h hrecv
  | update current =>
    obtain ⟨ds, hupdate⟩ := exists_of_map_fst hcall
    exact windows_update h hupdate
  | input d =>
    obtain ⟨ret, hinput⟩ := exists_of_map_fst hcall
    exact windows_input h hinput

/-- In every run both windows hold, whatever the datagrams are. -/
theorem windows_of_reach (h₀ : SetUp kcp₀) (h : Reach call (fun _ _ => True) kcp₀ kcp) : Windows kcp :=
  h.invariant h₀.idle.windows fun _ _ _ hkcp _ hcall => windows_call hkcp hcall

/-- What is kept is bounded by the windows: the segments on their way, those that come early and those that wait to be
returned. -/
theorem bounded_of_reach (h₀ : SetUp kcp₀) (h : Reach call (fun _ _ => True) kcp₀ kcp) :
    kcp.sndBuf.length ≤ (kcp.sndNxt - kcp.sndUna).toNat ∧ (kcp.sndNxt - kcp.sndUna).toNat ≤ kcp.sndWnd.toNat ∧
      kcp.rcvBuf.length ≤ kcp.rcvWnd.toNat ∧ kcp.rcvQueue.length ≤ kcp.rcvWnd.toNat := by
  have hw := windows_of_reach h₀ h
  obtain ⟨una, n, huna, hnxt, hle, hsnd⟩ := hw.snd
  obtain ⟨_, _, hrcv⟩ := hw.rcv.rcvBuf
  have hwnd := hw.sndWnd
  have hflight : (kcp.sndNxt - kcp.sndUna).toNat = n := by
    rw [huna, hnxt, toNat_sub_serial (Nat.le_add_right _ _) (by omega), Nat.add_sub_cancel_left]
  rw [hflight]
  exact ⟨hsnd.length_le, hle, hrcv.length_le, hw.rcv.rcvQueue⟩

/-- The acknowledgement of the first segment, which claims to be from time 0. -/
def ackOfTime0 : Bytes := [7, 0, 0, 0, 82, 0, 32, 0, 0, 0, 0, 0, 0, 0, 0, 0, 0, 0, 0, 0, 0, 0, 0, 0]

/-- A control block sends three bytes at a late time, and gets an acknowledgement that claims to be from time 0. -/
theorem reach_lateAck : ∃ kcp, Reach call (fun _ _ => True) ((create 7).setNodelay 1 10 2 1) kcp ∧
    kcp.sndBuf.length = 1 ∧ kcp.call (.input ackOfTime0) = .error .overflow := by
  have h : (runIf call (fun _ _ => true) ((create 7).setNodelay 1 10 2 1) [.send [1, 2, 3], .update 1073741824]).any
      (fun kcp => decide (kcp.sndBuf.length = 1 ∧ kcp.call (.input ackOfTime0) = .error .overflow)) = true := by
    decide +kernel
  obtain ⟨kcp, hkcp, hq⟩ := Reach.of_runIf_any (fun _ _ _ => trivial) h
  exact ⟨kcp, hkcp, of_decide_eq_true hq⟩

theorem bounded_of_reach_lateAck : ∃ kcp, Reach call (fun _ _ => True) ((create 7).setNodelay 1 10 2 1) kcp ∧
    kcp.sndBuf.length = 1 ∧ kcp.sndBuf.length ≤ (kcp.sndNxt - kcp.sndUna).toNat ∧
      (kcp.sndNxt - kcp.sndUna).toNat ≤ kcp.sndWnd.toNat ∧ kcp.rcvBuf.length ≤ kcp.rcvWnd.toNat ∧
        kcp.rcvQueue.length ≤ kcp.rcvWnd.toNat := by
  obtain ⟨kcp, hkcp, hlen, -⟩ := reach_lateAck
  exact ⟨kcp, hkcp, hlen, bounded_of_reach (SetUp.create 7).nodelay hkcp⟩

end IKCPCB

end KcpServer.Ikcp
