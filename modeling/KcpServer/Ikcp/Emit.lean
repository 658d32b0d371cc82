import KcpServer.Ikcp.Simulate

/-!
# What `ikcp_flush` does

`flush_emits` says what is in the datagrams of `ikcp_flush` and what has become of the control block: segments of
`snd_queue` have got their numbers, and nothing else has changed but times and counts.

* `flushed_update` : what is sent is true, and what has got a number was the front of `snd_queue`.
-/

namespace KcpServer.Ikcp
open Lib

namespace OutBuf

/-- Everything that is put together is made of segments of one kind. -/
def MadeOf (P : IKCPSEG → Prop) (o : OutBuf) : Prop :=
  Ikcp.MadeOf P o.buffer ∧ ∀ d ∈ o.sent, d ≠ [] ∧ Ikcp.MadeOf P d

variable {P : IKCPSEG → Prop} {o o' : OutBuf} {seg : IKCPSEG} {mtu : UInt32}

theorem madeOf_empty (P : IKCPSEG → Prop) : OutBuf.MadeOf P {} :=
  ⟨⟨[], rfl, fun _ h => nomatch h⟩, fun _ h => nomatch h⟩

theorem MadeOf.output (h : o.MadeOf P) : o.output.MadeOf P := by
  refine ⟨⟨[], rfl, fun _ h => nomatch h⟩, fun d hd => ?_⟩
  unfold OutBuf.output at hd
  dsimp only at hd
  split at hd
  · exact h.2 d hd
  · next hlen =>
    rcases List.mem_append.mp hd with hd | hd
    · exact h.2 d hd
    · rw [List.mem_singleton.mp hd]
      exact ⟨fun hnil => hlen (congrArg List.length hnil), h.1⟩

theorem MadeOf.room (h : o.MadeOf P) (size : ℕ) : (o.room mtu size).MadeOf P := by
  unfold OutBuf.room
  split
  · exact h.output
  · exact h

theorem MadeOf.put (h : o.MadeOf P) (hseg : P seg) (hput : o.put mtu seg = .ok o') : o'.MadeOf P := by
  have hroom : (o.room mtu (IKCP_OVERHEAD + seg.data.length)).MadeOf P := h.room _
  unfold OutBuf.put at hput
  dsimp only at hput
  generalize o.room mtu (IKCP_OVERHEAD + seg.data.length) = o₁ at hput hroom
  split at hput
  swap
  · cases hput
  cases hput
  obtain ⟨segs, hbuffer, hsegs⟩ := hroom.1
  refine ⟨⟨segs ++ [seg], by simp [hbuffer], fun s hs => ?_⟩, hroom.2⟩
  rcases List.mem_append.mp hs with hs | hs
  · exact hsegs s hs
  · rw [List.mem_singleton.mp hs]
    exact hseg

end OutBuf

/-- A segment that carries no data says how far its sender has come. -/
structure Ctrl (kcp : IKCPCB) (seg : IKCPSEG) : Prop where
  conv : seg.conv = kcp.conv
  frg : seg.frg = 0
  wnd : seg.wnd = kcp.wndUnused
  una : seg.una = kcp.rcvNxt
  data : seg.data = []

theorem Ctrl.with_cmd {kcp : IKCPCB} {seg : IKCPSEG} (h : Ctrl kcp seg) (cmd : UInt32) : Ctrl kcp { seg with cmd } :=
  ⟨h.conv, h.frg, h.wnd, h.una, h.data⟩

/-- A segment has been sent again, or not: only times and counts have changed. -/
structure Resent (seg seg' : IKCPSEG) : Prop where
  conv : seg'.conv = seg.conv
  cmd : seg'.cmd = seg.cmd
  sn : seg'.sn = seg.sn
  frag : seg'.frag = seg.frag

theorem Tracks.resent {segs segs' : List IKCPSEG} {es : List (ℕ × Frag)} (h : Tracks segs es)
    (hresent : List.Forall₂ Resent segs segs') :
    Tracks segs' es := by
  induction hresent generalizing es with
  | nil => exact h
  | cons hseg _ ih =>
    obtain ⟨e, es, hhead, htail, rfl⟩ := List.forall₂_cons_left_iff.mp h
    exact .cons ⟨hseg.sn.trans hhead.1, hseg.frag.trans hhead.2⟩ (ih htail)

theorem IsPush.resent {conv : UInt32} {seg seg' : IKCPSEG} (h : IsPush conv seg) (hresent : Resent seg seg') :
    IsPush conv seg' := by
  obtain ⟨hconv, hcmd, hfrg, hlen⟩ := h
  obtain ⟨hfrg', hdata'⟩ := Prod.mk.inj hresent.frag
  exact ⟨hresent.conv.trans hconv, hresent.cmd.trans hcmd, hfrg'.symm ▸ hfrg, hdata'.symm ▸ hlen⟩

/-- What `ikcp_flush` sends, where `buf` is what `snd_buf` holds. -/
inductive Emitted (kcp : IKCPCB) (buf : List IKCPSEG) (seg : IKCPSEG) : Prop
  | ack (hcmd : seg.cmd = IKCP_CMD_ACK) (hmem : (seg.sn, seg.ts) ∈ kcp.acklist) (hctrl : Ctrl kcp seg)
  | probe (hcmd : seg.cmd = IKCP_CMD_WASK ∨ seg.cmd = IKCP_CMD_WINS) (hctrl : Ctrl kcp seg)
  | data (hmem : ∃ held ∈ buf, Resent held seg) (huna : seg.una = kcp.rcvNxt) (hwnd : seg.wnd = kcp.wndUnused)
    (hts : seg.ts = kcp.current)

/-- What `ikcp_flush` does to both halves: items get their numbers, and what is sent is true. -/
structure Flushed (kcp kcp' : IKCPCB) (ds : List Bytes) (snd snd' rcv : Arq Frag) : Prop where
  config : kcp'.config = kcp.config
  rcvQueue : kcp'.rcvQueue = kcp.rcvQueue
  run : Arq.Run snd snd'
  next : snd'.next = snd.next
  early : snd'.early = snd.early
  log : snd'.log ++ kcp'.sndQueue.map IKCPSEG.frag = snd.log ++ kcp.sndQueue.map IKCPSEG.frag
  sends : Sends kcp' snd'
  receives : Receives kcp' rcv
  valid : ∀ d ∈ ds, Says kcp.conv snd' rcv d

namespace IKCPCB
variable {kcp kcp' : IKCPCB} {resent : UInt32} {f f' : FlushState} {seg seg' : IKCPSEG} {segs segs' : List IKCPSEG}

/-! ## Acknowledgements and probes -/

theorem flushAcks_madeOf {P : IKCPSEG → Prop} {mtu : UInt32} {acks : List (UInt32 × UInt32)} {o o' : OutBuf}
    (hcmd : seg.cmd = IKCP_CMD_ACK) (hctrl : Ctrl kcp seg) (ho : o.MadeOf P)
    (hack : ∀ seg, seg.cmd = IKCP_CMD_ACK → (seg.sn, seg.ts) ∈ acks → Ctrl kcp seg → P seg)
    (h : flushAcks mtu o seg acks = .ok (o', seg')) : o'.MadeOf P ∧ Ctrl kcp seg' := by
  induction acks generalizing o seg with
  | nil =>
    cases h
    exact ⟨ho, hctrl⟩
  | cons a acks ih =>
    obtain ⟨sn, ts⟩ := a
    obtain ⟨o₁, hput, h⟩ := bind_eq_ok.mp h
    have hctrl' : Ctrl kcp { seg with sn, ts } := ⟨hctrl.conv, hctrl.frg, hctrl.wnd, hctrl.una, hctrl.data⟩
    have ho₁ := ho.put (hack { seg with sn, ts } hcmd List.mem_cons_self hctrl') hput
    refine ih ?_ hctrl' ho₁ (fun s hs hmem => hack s hs (List.mem_cons_of_mem _ hmem)) h
    exact hcmd

theorem flushProbes_madeOf {P : IKCPSEG → Prop} {kcp₀ : IKCPCB} {o o' : OutBuf} (hctrl : Ctrl kcp₀ seg) (ho : o.MadeOf P)
    (hprobe : ∀ seg, seg.cmd = IKCP_CMD_WASK ∨ seg.cmd = IKCP_CMD_WINS → Ctrl kcp₀ seg → P seg)
    (h : kcp.flushProbes o seg = .ok o') : o'.MadeOf P := by
  have hone {ask cmd : UInt32} {o o' : OutBuf} (hcmd : cmd = IKCP_CMD_WASK ∨ cmd = IKCP_CMD_WINS) (ho : o.MadeOf P)
      (h : kcp.flushProbe ask cmd o seg = .ok o') : o'.MadeOf P := by
    unfold flushProbe at h
    split at h
    · exact ho.put (hprobe _ hcmd (hctrl.with_cmd cmd)) h
    · cases h
      exact ho
  obtain ⟨o₁, hask, htell⟩ := bind_eq_ok.mp h
  exact hone (.inr rfl) (hone (.inl rfl) ho hask) htell

theorem probeWindow_eq (kcp : IKCPCB) : ∃ tsProbe probeWait probe,
    kcp.probeWindow = { kcp with tsProbe, probeWait, probe } := by
  unfold probeWindow
  split
  · split
    · exact ⟨_, _, _, rfl⟩
    split
    · exact ⟨_, _, _, rfl⟩
    · exact ⟨_, _, _, rfl⟩
  · exact ⟨_, _, _, rfl⟩

theorem shrinkCwnd_eq (kcp : IKCPCB) (resent cwnd : UInt32) (change : ℕ) (lost : Bool) : ∃ ssthresh cwnd' incr,
    kcp.shrinkCwnd resent cwnd change lost = { kcp with ssthresh, cwnd := cwnd', incr } := by
  unfold shrinkCwnd
  dsimp only
  split_ifs <;> exact ⟨_, _, _, rfl⟩

/-! ## Data -/

theorem resend_resent (kcp : IKCPCB) (seg : IKCPSEG) (why : Sending) (ts wnd una : UInt32) :
    Resent seg { kcp.resend seg why with ts, wnd, una } := by
  cases why <;> exact ⟨rfl, rfl, rfl, rfl⟩

theorem flushSeg_madeOf {P : IKCPSEG → Prop} (ho : f.out.MadeOf P)
    (hseg : ∀ seg', Resent seg seg' → seg'.una = kcp.rcvNxt → seg'.wnd = kcp.wndUnused → seg'.ts = kcp.current →
      P seg')
    (h : kcp.flushSeg resent f seg = .ok (f', seg')) : Resent seg seg' ∧ f'.out.MadeOf P := by
  unfold flushSeg at h
  split at h
  · cases h
    exact ⟨⟨rfl, rfl, rfl, rfl⟩, ho⟩
  · next why _ =>
    obtain ⟨o₁, hput, h⟩ := bind_eq_ok.mp h
    cases h
    have hresent := resend_resent kcp seg why kcp.current kcp.wndUnused kcp.rcvNxt
    exact ⟨hresent, ho.put (hseg _ hresent rfl rfl rfl) hput⟩

theorem flushData_madeOf {P : IKCPSEG → Prop} (ho : f.out.MadeOf P)
    (hseg : ∀ seg ∈ segs, ∀ seg', Resent seg seg' → seg'.una = kcp.rcvNxt → seg'.wnd = kcp.wndUnused →
      seg'.ts = kcp.current → P seg')
    (h : kcp.flushData resent f segs = .ok (f', segs')) : List.Forall₂ Resent segs segs' ∧ f'.out.MadeOf P := by
  induction segs generalizing f f' segs' with
  | nil =>
    cases h
    exact ⟨.nil, ho⟩
  | cons seg segs ih =>
    obtain ⟨⟨f₁, seg₁⟩, hone, h⟩ := bind_eq_ok.mp h
    obtain ⟨⟨f₂, segs₂⟩, hrest, h⟩ := bind_eq_ok.mp h
    cases h
    obtain ⟨hresent, ho₁⟩ := flushSeg_madeOf ho (hseg seg List.mem_cons_self) hone
    obtain ⟨htail, ho₂⟩ := ih ho₁ (fun s hs => hseg s (List.mem_cons_of_mem _ hs)) hrest
    exact ⟨.cons hresent htail, ho₂⟩

theorem flushCtrl_eq {o : OutBuf} (h : kcp.flushCtrl = .ok (kcp', o)) (buf : List IKCPSEG) :
    (∃ tsProbe probeWait, kcp' = { kcp with acklist := [], tsProbe, probeWait, probe := 0 }) ∧
      o.MadeOf (Emitted kcp buf) := by
  obtain ⟨⟨o₁, seg⟩, hacks, h⟩ := bind_eq_ok.mp h
  obtain ⟨o₂, hprobes, h⟩ := bind_eq_ok.mp h
  obtain ⟨rfl, rfl⟩ := Prod.mk.inj (Except.ok.inj h)
  have hctrl : Ctrl kcp kcp.ctrlSeg := ⟨rfl, rfl, rfl, rfl, rfl⟩
  have hcmd : kcp.ctrlSeg.cmd = IKCP_CMD_ACK := rfl
  obtain ⟨hout, hctrl⟩ := flushAcks_madeOf hcmd hctrl (OutBuf.madeOf_empty (Emitted kcp buf))
    (fun seg hcmd hmem hctrl => .ack hcmd hmem hctrl) hacks
  obtain ⟨tsProbe, probeWait, probe, hprobe⟩ := probeWindow_eq { kcp with acklist := [] }
  refine ⟨⟨tsProbe, probeWait, by rw [hprobe]⟩, ?_⟩
  exact flushProbes_madeOf hctrl hout (fun seg hcmd hctrl => .probe hcmd hctrl) hprobes

theorem numberLoop_eq (kcp : IKCPCB) (cwnd : UInt32) (segs : List IKCPSEG) : ∃ sndBuf nsndQue nsndBuf sndNxt sndQueue,
    kcp.numberLoop cwnd segs = { kcp with sndBuf, nsndQue, nsndBuf, sndNxt, sndQueue } := by
  induction segs generalizing kcp with
  | nil => exact ⟨_, _, _, _, _, rfl⟩
  | cons seg segs ih =>
    unfold numberLoop
    split
    · obtain ⟨_, _, _, _, _, heq⟩ := ih (kcp.numberSeg seg)
      rw [heq]
      exact ⟨_, _, _, _, _, rfl⟩
    · exact ⟨_, _, _, _, _, rfl⟩

/-- `ikcp_flush` numbers the front of `snd_queue`, and sends what is due. -/
theorem flush_emits {ds : List Bytes} (h : kcp.flush = .ok (kcp', ds)) :
    ∃ kcp₁ kcp₂, (∃ tsProbe probeWait, kcp₁ = { kcp with acklist := [], tsProbe, probeWait, probe := 0 }) ∧
      kcp₂ = kcp₁.numberLoop kcp.flushWnd kcp.sndQueue ∧
      (∃ sndBuf xmit state ssthresh cwnd incr, kcp' = { kcp₂ with sndBuf, xmit, state, ssthresh, cwnd, incr }) ∧
      List.Forall₂ Resent kcp₂.sndBuf kcp'.sndBuf ∧ ∀ d ∈ ds, d ≠ [] ∧ MadeOf (Emitted kcp kcp₂.sndBuf) d := by
  obtain ⟨⟨kcp₁, o⟩, hctrl, h⟩ := bind_eq_ok.mp h
  obtain ⟨⟨f, sndBuf⟩, hdata, h⟩ := bind_eq_ok.mp h
  obtain ⟨hkcp', hds⟩ := Prod.mk.inj (Except.ok.inj h)
  obtain ⟨⟨tsProbe, probeWait, rfl⟩, -⟩ := flushCtrl_eq hctrl []
  have hwnd : flushWnd { kcp with acklist := [], tsProbe, probeWait, probe := 0 } = kcp.flushWnd := rfl
  rw [hwnd] at hdata hkcp'
  generalize hnumber :
    numberLoop { kcp with acklist := [], tsProbe, probeWait, probe := 0 } kcp.flushWnd kcp.sndQueue = kcp₂
    at hdata hkcp'
  have hfield : kcp₂.rcvNxt = kcp.rcvNxt ∧ kcp₂.wndUnused = kcp.wndUnused ∧ kcp₂.current = kcp.current := by
    obtain ⟨_, _, _, _, _, heq⟩ :=
      numberLoop_eq { kcp with acklist := [], tsProbe, probeWait, probe := 0 } kcp.flushWnd kcp.sndQueue
    rw [← hnumber, heq]
    exact ⟨rfl, rfl, rfl⟩
  obtain ⟨hresent, hout⟩ := flushData_madeOf (P := Emitted kcp kcp₂.sndBuf) (flushCtrl_eq hctrl kcp₂.sndBuf).2
    (fun seg hseg seg' hres huna hwnd hts =>
      .data ⟨seg, hseg, hres⟩ (huna.trans hfield.1) (hwnd.trans hfield.2.1) (hts.trans hfield.2.2)) hdata
  obtain ⟨ssthresh, cwnd, incr, hshrink⟩ := shrinkCwnd_eq { kcp₂ with sndBuf, xmit := f.xmit, state := f.state }
    kcp₂.resent kcp.flushWnd f.change f.lost
  have hkcp' : kcp' = { kcp₂ with sndBuf, xmit := f.xmit, state := f.state, ssthresh, cwnd, incr } :=
    hkcp'.symm.trans hshrink
  subst hkcp'
  refine ⟨_, kcp₂, ⟨tsProbe, probeWait, rfl⟩, hnumber.symm, ⟨_, _, _, _, _, _, rfl⟩, hresent, fun d hd => ?_⟩
  rw [← hds] at hd
  exact hout.output.2 d hd

/-! ## What the abstract sender does -/

/-- Items get their numbers in the order of `snd_queue`. -/
theorem sends_numberLoop {s : Arq Frag} (hs : Arq.Inv s) (hsends : Sends kcp s) (hsegs : ∀ seg ∈ segs, Fits seg)
    (cwnd : UInt32) :
    ∃ s', Arq.Run s s' ∧ s'.next = s.next ∧ s'.early = s.early ∧ Sends (kcp.numberLoop cwnd segs) s' ∧
      s'.log ++ (kcp.numberLoop cwnd segs).sndQueue.map IKCPSEG.frag = s.log ++ segs.map IKCPSEG.frag := by
  induction segs generalizing kcp s with
  | nil => exact ⟨s, .refl, rfl, rfl, ⟨hsends.nxt, hsends.una, hsends.buf, hsends.push, fun _ h => nomatch h⟩, rfl⟩
  | cons seg segs ih =>
    obtain ⟨hseg, hrest⟩ := List.forall_mem_cons.mp hsegs
    unfold numberLoop
    split
    swap
    · exact ⟨s, .refl, rfl, rfl, ⟨hsends.nxt, hsends.una, hsends.buf, hsends.push, hsegs⟩, rfl⟩
    have hstep := Arq.Step.push s seg.frag
    have huna : Arq.una { s with log := s.log ++ [seg.frag], held := s.held ++ [(s.log.length, seg.frag)] } = s.una := by
      unfold Arq.una
      cases s.held <;> rfl
    have hsends' : Sends (kcp.numberSeg seg) { s with
        log := s.log ++ [seg.frag], held := s.held ++ [(s.log.length, seg.frag)] } := by
      refine ⟨?_, hsends.una.trans (congrArg serial huna.symm), hsends.buf.append (tracks_singleton hsends.nxt rfl), ?_,
        hsends.queue⟩
      · rw [List.length_append, List.length_singleton, ← serial_add_one, ← hsends.nxt]
        rfl
      · intro seg' hseg'
        rcases List.mem_append.mp hseg' with hseg' | hseg'
        · exact hsends.push seg' hseg'
        · rw [List.mem_singleton.mp hseg']
          exact ⟨rfl, rfl, hseg⟩
    obtain ⟨s', hrun, hnext, hearly, hs', hlog⟩ := ih (hs.step hstep) hsends' hrest
    refine ⟨s', hrun.head hstep, hnext, hearly, hs', ?_⟩
    rw [hlog, List.map_cons, List.append_assoc]
    rfl

theorem segSays_of_emitted {snd rcv : Arq Frag} {buf : List IKCPSEG} (hs : Arq.Inv snd) (hbuf : Tracks buf snd.held)
    (hpush : ∀ seg ∈ buf, IsPush kcp.conv seg) (hreceives : Receives kcp rcv) (h : Emitted kcp buf seg) :
    SegSays kcp.conv snd rcv seg := by
  have huna : kcp.rcvNxt = serial rcv.next ∧ rcv.next ≤ rcv.next := ⟨hreceives.nxt, le_rfl⟩
  cases h with
  | ack hcmd hmem hctrl =>
    refine ⟨hctrl.conv, .inr (.inl hcmd), ?_, ?_, ⟨_, hctrl.una.trans huna.1, huna.2⟩, fun _ => hreceives.acks _ hmem, ?_⟩
    · rw [hctrl.frg]
      decide
    · simp [hctrl.data]
    · intro hpush
      rw [hcmd] at hpush
      exact absurd hpush (by decide)
  | probe hcmd hctrl =>
    refine ⟨hctrl.conv, .inr (.inr hcmd), ?_, ?_, ⟨_, hctrl.una.trans huna.1, huna.2⟩, ?_, ?_⟩
    · rw [hctrl.frg]
      decide
    · simp [hctrl.data]
    · intro hack
      rcases hcmd with hcmd | hcmd <;> rw [hcmd] at hack <;> exact absurd hack (by decide)
    · intro hpush
      rcases hcmd with hcmd | hcmd <;> rw [hcmd] at hpush <;> exact absurd hpush (by decide)
  | data hmem huna' hwnd hts =>
    obtain ⟨held, hheld, hresent⟩ := hmem
    obtain ⟨hconv, hcmd, hfrg, hlen⟩ := (hpush held hheld).resent hresent
    obtain ⟨e, he, hsn, hfrag⟩ := hbuf.exists_item hheld
    refine ⟨hconv, .inl hcmd, hfrg, hlen, ⟨_, huna'.trans huna.1, huna.2⟩, ?_, fun _ => ?_⟩
    · intro hack
      rw [hcmd] at hack
      exact absurd hack (by decide)
    · refine ⟨e.1, hresent.sn.trans hsn, ?_⟩
      rw [hresent.frag, hfrag]
      exact hs.held_log e he

theorem flushed_flush {snd rcv : Arq Frag} {ds : List Bytes} (hs : Arq.Inv snd) (hsends : Sends kcp snd)
    (hreceives : Receives kcp rcv) (h : kcp.flush = .ok (kcp', ds)) : ∃ snd', Flushed kcp kcp' ds snd snd' rcv := by
  obtain ⟨kcp₁, kcp₂, ⟨tsProbe, probeWait, hkcp₁⟩, hkcp₂, ⟨_, _, _, _, _, _, hkcp'⟩, hresent, hds⟩ := flush_emits h
  have hsends₁ : Sends kcp₁ snd := hsends.congr (by rw [hkcp₁]; exact ⟨rfl, rfl, rfl, rfl, rfl⟩)
  obtain ⟨snd', hrun, hnext, hearly, hsends₂, hlog⟩ :=
    sends_numberLoop hs hsends₁ hsends.queue kcp.flushWnd
  rw [← hkcp₂] at hsends₂ hlog
  obtain ⟨_, _, _, _, _, hframe⟩ := numberLoop_eq kcp₁ kcp.flushWnd kcp.sndQueue
  have hframe := hkcp₂.trans hframe
  have hconv : kcp₂.conv = kcp.conv := by rw [hframe, hkcp₁]
  refine ⟨snd', ?_, ?_, hrun, hnext, hearly, ?_, ?_, ?_, fun d hd => ?_⟩
  · rw [hkcp', hframe, hkcp₁]
    rfl
  · rw [hkcp', hframe, hkcp₁]
  · rw [← hlog, hkcp']
  · refine ⟨?_, ?_, hsends₂.buf.resent hresent, fun seg' hseg' => ?_, ?_⟩
    · rw [hkcp']
      exact hsends₂.nxt
    · rw [hkcp']
      exact hsends₂.una
    · obtain ⟨seg, hseg, hres⟩ := exists_of_forall₂ hresent hseg'
      have hconv' : kcp'.conv = kcp₂.conv := by rw [hkcp']
      rw [hconv']
      exact (hsends₂.push seg hseg).resent hres
    · rw [hkcp']
      exact hsends₂.queue
  · refine ⟨?_, ?_, ?_⟩
    · rw [hkcp', hframe, hkcp₁]
      exact hreceives.nxt
    · rw [hkcp', hframe, hkcp₁]
      exact hreceives.buf
    · rw [hkcp', hframe, hkcp₁]
      exact fun _ ha => nomatch ha
  · refine ⟨(hds d hd).1, (hds d hd).2.mono fun seg hseg => ?_⟩
    exact segSays_of_emitted (hs.run hrun) hsends₂.buf (fun seg hseg => hconv ▸ hsends₂.push seg hseg) hreceives hseg

theorem tick_same (kcp : IKCPCB) (current : UInt32) :
    SameSnd kcp (kcp.tick current) ∧ SameRcv kcp (kcp.tick current) ∧ (kcp.tick current).config = kcp.config :=
  ⟨⟨rfl, rfl, rfl, rfl, rfl⟩, ⟨rfl, rfl, rfl, rfl⟩, rfl⟩

theorem flushed_update {snd rcv : Arq Frag} {ds : List Bytes} {current : UInt32} (hs : Arq.Inv snd)
    (hsends : Sends kcp snd) (hreceives : Receives kcp rcv) (h : kcp.update current = .ok (kcp', ds)) :
    ∃ snd', Flushed kcp kcp' ds snd snd' rcv := by
  obtain ⟨hsnd, hrcv, hconfig⟩ := tick_same kcp current
  have hsends₁ := hsends.congr hsnd
  have hreceives₁ := hreceives.congr hrcv
  unfold update at h
  generalize kcp.tick current = kcp₁ at *
  split at h
  · obtain ⟨snd', hf⟩ := flushed_flush hs hsends₁ hreceives₁ h
    have hconv : kcp₁.conv = kcp.conv := congrArg Config.conv hconfig
    exact ⟨snd', hf.config.trans hconfig, hf.rcvQueue.trans hrcv.rcvQueue, hf.run, hf.next, hf.early,
      hsnd.sndQueue ▸ hf.log, hf.sends, hf.receives, hconv ▸ hf.valid⟩
  · obtain ⟨rfl, rfl⟩ := Prod.mk.inj (Except.ok.inj h)
    exact ⟨snd, hconfig, hrcv.rcvQueue, .refl, rfl, rfl, by rw [hsnd.sndQueue], hsends₁, hreceives₁,
      fun _ hd => nomatch hd⟩

end IKCPCB

end KcpServer.Ikcp
