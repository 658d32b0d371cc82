import KcpServer.Ikcp.Delivery
import KcpServer.Ikcp.Timing

/-!
# Two ends and their clocks

Every acknowledgement carries the time of the segment that it acknowledges, by the clock of the end that gets it. So two
ends never fail as long as neither clock leaves a span of `AGE_MAX` milliseconds, whatever the network does in between:
`step_ok_of_onTime`. The clocks of the two ends need not agree, and need not go forward.
-/

namespace KcpServer.Ikcp
open Lib

/-- The time `t` is less than `AGE_MAX` after `base`. -/
def InSpan (base t : UInt32) : Prop := ((t - base).toNat : Int) < AGE_MAX

instance (base t : UInt32) : Decidable (InSpan base t) := inferInstanceAs (Decidable (_ < _))

theorem InSpan.itimediff_lt {base t t' : UInt32} (h : InSpan base t) (h' : InSpan base t') : itimediff t t' < AGE_MAX := by
  have hmax : AGE_MAX = 2 ^ 28 := rfl
  unfold InSpan at h h'
  have hle : (t - t').toNat < 2 ^ 28 ∨ 2 ^ 31 ≤ (t - t').toNat := by
    rw [UInt32.toNat_sub] at h h' ⊢
    have := t.toNat_lt
    have := t'.toNat_lt
    have := base.toNat_lt
    omega
  rcases hle with hlt | hge
  · rw [itimediff, serialDiff_of_lt (by omega)]
    omega
  · have hneg : itimediff t t' < 0 := serialDiff_of_le hge
    omega

namespace IKCPCB
variable {kcp kcp' : IKCPCB}

theorem acklist_parseData (kcp : IKCPCB) (seg : IKCPSEG) : (kcp.parseData seg).acklist = kcp.acklist := by
  unfold parseData
  split
  · rfl
  split
  · obtain ⟨_, _, _, _, _, heq⟩ := moveLoop_eq kcp kcp.rcvBuf
    rw [moveData, heq]
  · next segs _ =>
    obtain ⟨_, _, _, _, _, heq⟩ := moveLoop_eq { kcp with rcvBuf := segs.reverse, nrcvBuf := kcp.nrcvBuf + 1 } segs.reverse
    rw [moveData, heq]

theorem acklist_inputPush (kcp : IKCPCB) (hd : SegHeader) (data : Bytes) :
    (kcp.inputPush hd data).acklist = kcp.acklist ∨ (kcp.inputPush hd data).acklist = kcp.acklist ++ [(hd.sn, hd.ts)] := by
  rcases inputPush_cases kcp hd data with heq | heq | heq
  · exact .inl (by rw [heq])
  · exact .inr (by rw [heq]; rfl)
  · exact .inr (by rw [heq, acklist_parseData]; rfl)

theorem mem_acklist_inputSeg {hd : SegHeader} {data : Bytes} {maxack maxack' : Option UInt32}
    (h : kcp.inputSeg hd data maxack = .ok (kcp', maxack')) {a : UInt32 × UInt32} (ha : a ∈ kcp'.acklist) :
    a ∈ kcp.acklist ∨ hd.cmd = IKCP_CMD_PUSH ∧ a.2 = hd.ts := by
  rcases inputSeg_rcv h with hsame | ⟨hpush, kcp₁, hsame, hkcp'⟩
  · exact .inl (hsame.acklist ▸ ha)
  rw [hkcp'] at ha
  rcases acklist_inputPush kcp₁ hd data with heq | heq
  · exact .inl (hsame.acklist ▸ heq ▸ ha)
  · rw [heq, hsame.acklist] at ha
    rcases List.mem_append.mp ha with hmem | hmem
    · exact .inl hmem
    · exact .inr ⟨hpush, by rw [List.mem_singleton.mp hmem]⟩

theorem mem_acklist_inputLoop {data : Bytes} {maxack maxack' : Option UInt32} {err : Option Int}
    (h : kcp.inputLoop data maxack = .ok (kcp', err, maxack')) {a : UInt32 × UInt32} (ha : a ∈ kcp'.acklist) :
    a ∈ kcp.acklist ∨ ∃ hd, HeaderIn data hd ∧ hd.cmd = IKCP_CMD_PUSH ∧ a.2 = hd.ts := by
  fun_induction inputLoop kcp data maxack with
  | case1 kcp data maxack hlt =>
    obtain ⟨rfl, -⟩ := Prod.mk.inj (Except.ok.inj h)
    exact .inl ha
  | case2 kcp data maxack hge ih =>
    obtain ⟨hd, hhead, h⟩ := bind_eq_ok.mp h
    split at h
    · obtain ⟨rfl, -⟩ := Prod.mk.inj (Except.ok.inj h)
      exact .inl ha
    split at h
    · obtain ⟨rfl, -⟩ := Prod.mk.inj (Except.ok.inj h)
      exact .inl ha
    split at h
    · obtain ⟨rfl, -⟩ := Prod.mk.inj (Except.ok.inj h)
      exact .inl ha
    obtain ⟨payload, -, h⟩ := bind_eq_ok.mp h
    obtain ⟨⟨kcp₁, maxack₁⟩, hseg, h⟩ := bind_eq_ok.mp h
    rcases ih hd kcp₁ maxack₁ h with hmem | ⟨hd', hin, hpush, hts⟩
    · rcases mem_acklist_inputSeg hseg hmem with hmem | hhd
      · exact .inl hmem
      · exact .inr ⟨hd, .head hhead, hhd⟩
    · exact .inr ⟨hd', .behind hhead hin, hpush, hts⟩

theorem mem_acklist_input {d : Bytes} {ret : Int} (h : kcp.input d = .ok (kcp', ret)) {a : UInt32 × UInt32}
    (ha : a ∈ kcp'.acklist) : a ∈ kcp.acklist ∨ ∃ hd, HeaderIn d hd ∧ hd.cmd = IKCP_CMD_PUSH ∧ a.2 = hd.ts := by
  rcases input_cases h with ⟨-, rfl⟩ | ⟨kcp₁, err, maxack, hloop, hend⟩
  · exact .inl ha
  refine mem_acklist_inputLoop hloop ?_
  rcases hend with ⟨-, rfl⟩ | ⟨-, -, cwnd, incr, rfl⟩
  · exact ha
  have hfast : (kcp₁.inputFastack maxack).acklist = kcp₁.acklist := by
    cases maxack with
    | none => rfl
    | some maxack => exact (parseFastack_same kcp₁ maxack).acklist
  rw [← hfast]
  exact ha

theorem acklist_flush {ds : List Bytes} (h : kcp.flush = .ok (kcp', ds)) : kcp'.acklist = [] := by
  obtain ⟨kcp₁, kcp₂, ⟨_, _, hkcp₁⟩, hkcp₂, ⟨_, _, _, _, _, _, hkcp'⟩, -⟩ := flush_emits h
  obtain ⟨_, _, _, _, _, hnumber⟩ := numberLoop_eq kcp₁ kcp.flushWnd kcp.sndQueue
  rw [hkcp', hkcp₂, hnumber, hkcp₁]

theorem mem_acklist_update {current : UInt32} {ds : List Bytes} (h : kcp.update current = .ok (kcp', ds))
    {a : UInt32 × UInt32} (ha : a ∈ kcp'.acklist) : a ∈ kcp.acklist := by
  unfold update at h
  split at h
  · rw [acklist_flush h] at ha
    cases ha
  · obtain ⟨rfl, -⟩ := Prod.mk.inj (Except.ok.inj h)
    exact ha

/-- What `ikcp_update` sends: data is of the time of the call, acknowledgements are of the times that came. -/
theorem emitted_update {snd : Arq Frag} {ds : List Bytes} {current : UInt32} (hs : Arq.Inv snd) (hsends : Sends kcp snd)
    (h : kcp.update current = .ok (kcp', ds)) : ∀ d ∈ ds, MadeOf (fun seg => seg.data.length < 2 ^ 32 ∧
      (seg.cmd = IKCP_CMD_PUSH ∧ seg.ts = current ∨ seg.cmd = IKCP_CMD_ACK ∧ (seg.sn, seg.ts) ∈ kcp.acklist ∨
        seg.cmd = IKCP_CMD_WASK ∨ seg.cmd = IKCP_CMD_WINS)) d := by
  unfold update at h
  split at h
  swap
  · cases h
    exact fun _ hd => nomatch hd
  obtain ⟨hsnd, -, -⟩ := tick_same kcp current
  have hsends := hsends.congr hsnd
  obtain ⟨kcp₁, kcp₂, ⟨_, _, hkcp₁⟩, hkcp₂, -, -, hds⟩ := flush_emits h
  have hsends₁ : Sends kcp₁ snd := hsends.congr (by rw [hkcp₁]; exact ⟨rfl, rfl, rfl, rfl, rfl⟩)
  obtain ⟨_, _, _, _, hsends₂, -⟩ := sends_numberLoop hs hsends₁ hsends.queue (kcp.tick current).flushWnd
  rw [← hkcp₂] at hsends₂
  refine fun d hd => (hds d hd).2.mono fun seg hseg => ?_
  cases hseg with
  | ack hcmd hmem hctrl =>
    rw [hctrl.data]
    exact ⟨by decide, .inr (.inl ⟨hcmd, hmem⟩)⟩
  | probe hcmd hctrl =>
    rw [hctrl.data]
    exact ⟨by decide, .inr (.inr hcmd)⟩
  | data hmem _ _ hts =>
    obtain ⟨held, hheld, hresent⟩ := hmem
    obtain ⟨-, hcmd, -, hlen⟩ := (hsends₂.push held hheld).resent hresent
    exact ⟨hlen, .inl ⟨hcmd, hts⟩⟩

end IKCPCB

/-- The headers of a datagram are those of its segments. -/
theorem exists_seg_of_headerIn {segs : List IKCPSEG} {hd : SegHeader} (hlen : ∀ seg ∈ segs, seg.data.length < 2 ^ 32)
    (h : HeaderIn (segs.flatMap IKCPSEG.bytes) hd) : ∃ seg ∈ segs, hd = seg.header := by
  induction segs with
  | nil => exact absurd h.length_le (by decide)
  | cons seg segs ih =>
    obtain ⟨hseg, hsegs⟩ := List.forall_mem_cons.mp hlen
    rw [List.flatMap_cons] at h
    have hat : HasAt (seg.bytes ++ segs.flatMap IKCPSEG.bytes) 0
        (seg.encodeSeg ++ (seg.data ++ segs.flatMap IKCPSEG.bytes)) := by
      rw [IKCPSEG.bytes, List.append_assoc]
      exact hasAt_self _
    have hhead := decodeHeader_encodeSeg (hasAt_append.mp hat).1
    have hsize : IKCP_OVERHEAD + seg.header.len.toNat = seg.bytes.length := by
      rw [seg.length_bytes, IKCPSEG.header, IKCPSEG.len, UInt32.toNat_ofNat', Nat.mod_eq_of_lt hseg]
      rfl
    cases h with
    | head h =>
      rw [hhead] at h
      exact ⟨seg, List.mem_cons_self, (Except.ok.inj h).symm⟩
    | behind h h' =>
      rw [hhead] at h
      obtain rfl := Except.ok.inj h
      rw [hsize, List.drop_left] at h'
      obtain ⟨seg', hmem, heq⟩ := ih hsegs h'
      exact ⟨seg', List.mem_cons_of_mem _ hmem, heq⟩

namespace Pair
variable {base : Side → UInt32} {w w' : Pair} {s t : Side} {kcp : IKCPCB} {ds sent got : List Bytes}

def start (peer : Side → IKCPCB) : Pair where
  peer
  net _ := []
  sent _ := []
  got _ := []

/-- The settings stay, and the times that an end is told are from the span that begins at `base`. -/
def OnTime (base : Side → UInt32) (w : Pair) : PairOp → Prop
  | .update s current => InSpan (base s) current
  | .input s d => w.Allowed (.input s d)
  | .send s buffer => w.Allowed (.send s buffer)
  | .recv _ _ => True
  | .setmtu _ _ | .nodelay _ _ _ _ _ | .wndsize _ _ _ => False

instance (base : Side → UInt32) (w : Pair) : DecidablePred (OnTime base w)
  | .update s current => inferInstanceAs (Decidable (InSpan (base s) current))
  | .input s d => inferInstanceAs (Decidable (w.Allowed (.input s d)))
  | .send s buffer => inferInstanceAs (Decidable (w.Allowed (.send s buffer)))
  | .recv _ _ => .isTrue trivial
  | .setmtu _ _ | .nodelay _ _ _ _ _ | .wndsize _ _ _ => .isFalse id

theorem OnTime.allowed {op : PairOp} (h : OnTime base w op) : w.Allowed op := by
  cases op with
  | send s buffer => exact h
  | input s d => exact h
  | _ => trivial

/-- `ts` is a time that the clock of `s` has shown. -/
def Echo (base : Side → UInt32) (w : Pair) (s : Side) (ts : UInt32) : Prop :=
  InSpan (base s) ts ∧ InSpan (base s) (w.peer s).current

/-- Data carries a time of the end that sends it, an acknowledgement one of the other end. -/
structure Stamped (base : Side → UInt32) (w : Pair) (s : Side) (seg : IKCPSEG) : Prop where
  len : seg.data.length < 2 ^ 32
  push : seg.header.cmd = IKCP_CMD_PUSH → Echo base w s seg.ts
  ack : seg.header.cmd = IKCP_CMD_ACK → Echo base w s.other seg.ts

/-- Every time that is on its way is one of the clock that it comes back to. -/
structure Punctual (base : Side → UInt32) (w : Pair) : Prop where
  windows : ∀ s, (w.peer s).Windows
  estimated : ∀ s, (w.peer s).clock.Estimated
  acks : ∀ s, ∀ a ∈ (w.peer s).acklist, Echo base w s.other a.2
  net : ∀ s, ∀ d ∈ w.net s, MadeOf (Stamped base w s) d

theorem Echo.set {ts : UInt32} (h : Echo base w t ts)
    (hcurrent : kcp.current = (w.peer s).current ∨ InSpan (base s) kcp.current) :
    Echo base (w.set s kcp ds sent got) t ts := by
  refine ⟨h.1, ?_⟩
  rcases eq_or_ne t s with rfl | hne
  · have hpeer : (w.set t kcp ds sent got).peer t = kcp := Function.update_self ..
    rw [hpeer]
    exact hcurrent.elim (fun heq => heq ▸ h.2) id
  · have hpeer : (w.set s kcp ds sent got).peer t = w.peer t := Function.update_of_ne hne ..
    rw [hpeer]
    exact h.2

theorem Punctual.set (h : Punctual base w) (hwin : kcp.Windows) (hest : kcp.clock.Estimated)
    (hcurrent : kcp.current = (w.peer s).current ∨ InSpan (base s) kcp.current)
    (hacks : ∀ a ∈ kcp.acklist, a ∈ (w.peer s).acklist ∨ Echo base w s.other a.2)
    (hnet : ∀ d ∈ ds, MadeOf (Stamped base (w.set s kcp ds sent got) s) d) : Punctual base (w.set s kcp ds sent got) where
  windows := by
    rw [Side.forall_iff s]
    simp only [Pair.set, Function.update_self, Function.update_of_ne s.other_ne]
    exact ⟨hwin, h.windows s.other⟩
  estimated := by
    rw [Side.forall_iff s]
    simp only [Pair.set, Function.update_self, Function.update_of_ne s.other_ne]
    exact ⟨hest, h.estimated s.other⟩
  acks := by
    rw [Side.forall_iff s]
    have hs : (w.set s kcp ds sent got).peer s = kcp := Function.update_self ..
    have hother : (w.set s kcp ds sent got).peer s.other = w.peer s.other := Function.update_of_ne s.other_ne ..
    rw [hs, hother]
    refine ⟨fun a ha => ?_, fun a ha => (h.acks s.other a ha).set hcurrent⟩
    rcases hacks a ha with hmem | hecho
    · exact (h.acks s a hmem).set hcurrent
    · exact hecho.set hcurrent
  net := by
    have hold (t : Side) (d : Bytes) (hd : d ∈ w.net t) : MadeOf (Stamped base (w.set s kcp ds sent got) t) d :=
      (h.net t d hd).mono fun seg hseg =>
        ⟨hseg.len, fun hc => (hseg.push hc).set hcurrent, fun hc => (hseg.ack hc).set hcurrent⟩
    rw [Side.forall_iff s]
    have hs : (w.set s kcp ds sent got).net s = w.net s ++ ds := Function.update_self ..
    have hother : (w.set s kcp ds sent got).net s.other = w.net s.other := Function.update_of_ne s.other_ne ..
    rw [hs, hother]
    refine ⟨fun d hd => ?_, hold s.other⟩
    rcases List.mem_append.mp hd with hd | hd
    · exact hold s d hd
    · exact hnet d hd

theorem Punctual.timely (h : Punctual base w) {d : Bytes} (hd : d ∈ w.net s.other) :
    IKCPCB.Timely (w.peer s) (.input d) := by
  intro hd' hin hack
  obtain ⟨segs, rfl, hsegs⟩ := h.net s.other d hd
  obtain ⟨seg, hseg, rfl⟩ := exists_seg_of_headerIn (fun seg hseg => (hsegs seg hseg).len) hin
  have hecho := (hsegs seg hseg).ack hack
  rw [Side.other_other] at hecho
  exact hecho.2.itimediff_lt hecho.1

section Step
variable {conv : UInt32} {stream : Side → Int} {arq : Side → Arq Frag} {taken : Side → List Frag}

/-- What an update sends is stamped with the time of the call, and what it acknowledges with a time of the other end. -/
theorem stamped_update (hf : Follows conv stream w arq taken) (h : Punctual base w) {current : UInt32}
    (hp : InSpan (base s) current) (hspan : InSpan (base s) kcp.current)
    (hupdate : (w.peer s).update current = .ok (kcp, ds)) :
    ∀ d ∈ ds, MadeOf (Stamped base (w.set s kcp ds [] []) s) d := by
  refine fun d hd => (IKCPCB.emitted_update (hf.inv s) (hf.sends s) hupdate d hd).mono fun seg ⟨hlen, hseg⟩ => ?_
  have hpeer : (w.set s kcp ds [] []).peer s = kcp := Function.update_self ..
  have hne {c c' : UInt32} (hcmd : seg.cmd = c) (hmod : c % 256 ≠ c') : seg.header.cmd ≠ c' := by
    rw [IKCPSEG.header, hcmd]
    exact hmod
  rcases hseg with ⟨hcmd, hts⟩ | ⟨hcmd, hmem⟩ | hcmd | hcmd
  · refine ⟨hlen, fun _ => ⟨?_, ?_⟩, fun hc => absurd hc (hne hcmd (by decide))⟩
    · rw [hts]
      exact hp
    · rw [hpeer]
      exact hspan
  · exact ⟨hlen, fun hc => absurd hc (hne hcmd (by decide)), fun _ => (h.acks s _ hmem).set (.inr hspan)⟩
  · exact ⟨hlen, fun hc => absurd hc (hne hcmd (by decide)), fun hc => absurd hc (hne hcmd (by decide))⟩
  · exact ⟨hlen, fun hc => absurd hc (hne hcmd (by decide)), fun hc => absurd hc (hne hcmd (by decide))⟩

theorem punctual_step (hf : Follows conv stream w arq taken) (h : Punctual base w) {op : PairOp} (hp : OnTime base w op)
    (hstep : w.step op = .ok w') : Punctual base w' := by
  cases op with
  | send s buffer =>
    obtain ⟨⟨kcp, ret⟩, hsend, hw⟩ := bind_eq_ok.mp hstep
    cases hw
    have hclock := IKCPCB.clock_send hsend
    refine h.set (IKCPCB.windows_send (h.windows s) hsend) (hclock ▸ h.estimated s)
      (.inl (congrArg Clock.current hclock)) (fun a ha => .inl ?_) fun _ hd => nomatch hd
    obtain ⟨_, _, rfl⟩ := IKCPCB.send_eq hsend
    exact ha
  | recv s len =>
    obtain ⟨⟨kcp, ret, bytes⟩, hrecv, hw⟩ := bind_eq_ok.mp hstep
    cases hw
    have hclock := IKCPCB.clock_recv hrecv
    refine h.set (IKCPCB.windows_recv (h.windows s) hrecv) (hclock ▸ h.estimated s)
      (.inl (congrArg Clock.current hclock)) (fun a ha => .inl ?_) fun _ hd => nomatch hd
    obtain ⟨_, _, _, _, _, _, rfl⟩ := IKCPCB.recv_eq hrecv
    exact ha
  | update s current =>
    obtain ⟨⟨kcp, ds⟩, hupdate, hw⟩ := bind_eq_ok.mp hstep
    cases hw
    have hclock := IKCPCB.clock_update hupdate
    have hcurrent : kcp.current = current := congrArg Clock.current hclock
    have hspan : InSpan (base s) kcp.current := hcurrent ▸ hp
    refine h.set (IKCPCB.windows_update (h.windows s) hupdate) ?_ (.inr hspan) ?_ ?_
    · rw [hclock]
      have hest := h.estimated s
      exact ⟨hest.srtt_nonneg, hest.srtt_lt, hest.rttval_nonneg, hest.rttval_lt⟩
    · exact fun a ha => .inl (IKCPCB.mem_acklist_update hupdate ha)
    · exact stamped_update hf h hp hspan hupdate
  | input s d =>
    obtain ⟨⟨kcp, ret⟩, hinput, hw⟩ := bind_eq_ok.mp hstep
    cases hw
    have hcall : (w.peer s).call (.input d) = .ok kcp := by
      rw [IKCPCB.call, hinput]
      rfl
    have hest := IKCPCB.estimated_call (h.timely hp) (h.estimated s) hcall
    refine h.set (IKCPCB.windows_input (h.windows s) hinput) hest (.inl (IKCPCB.current_input hinput)) (fun a ha => ?_)
      fun _ hd => nomatch hd
    rcases IKCPCB.mem_acklist_input hinput ha with hmem | ⟨hd, hin, hpush, hts⟩
    · exact .inl hmem
    · right
      obtain ⟨segs, rfl, hsegs⟩ := h.net s.other d hp
      obtain ⟨seg, hseg, rfl⟩ := exists_seg_of_headerIn (fun seg hseg => (hsegs seg hseg).len) hin
      exact hts ▸ (hsegs seg hseg).push hpush
  | setmtu => cases hp
  | nodelay => cases hp
  | wndsize => cases hp

end Step

/-! ## Runs -/

section Run
variable {conv : UInt32} {peer : Side → IKCPCB}

theorem follows_start (h : ∀ s, IKCPCB.SetUp (peer s)) (hconv : ∀ s, (peer s).conv = conv) :
    Follows conv (fun s => (peer s).stream) (start peer) (fun _ => Arq.new) fun _ => [] where
  conv_eq := hconv
  stream_eq _ := rfl
  inv _ := Arq.inv_new
  room s := by
    have hqueue : ((start peer).peer s).sndQueue = [] := (h s).idle.queues.1
    rw [items, hqueue]
    decide
  sends s := by
    have hqueues := (h s).idle.queues
    refine ⟨(h s).idle.nxt, (h s).idle.una, ?_, ?_, ?_⟩
    · rw [show ((start peer).peer s).sndBuf = [] from hqueues.2.1]
      exact .nil
    · rw [show ((start peer).peer s).sndBuf = [] from hqueues.2.1]
      exact fun _ hseg => absurd hseg List.not_mem_nil
    · rw [show ((start peer).peer s).sndQueue = [] from hqueues.1]
      exact fun _ hseg => absurd hseg List.not_mem_nil
  receives s := by
    refine ⟨(h s).idle.rcvNxt, ?_, ?_⟩
    · rw [show ((start peer).peer s).rcvBuf = [] from (h s).idle.queues.2.2.2]
      exact .nil
    · rw [show ((start peer).peer s).acklist = [] from (h s).idle.acklist]
      exact fun _ ha => absurd ha List.not_mem_nil
  counted s := (h s).idle.windows.counted
  net _ _ hd := absurd hd List.not_mem_nil
  log_take s := by
    rw [show ((start peer).peer s).rcvQueue = [] from (h s).idle.queues.2.2.1]
    rfl
  sentBytes s := by
    rw [items, show ((start peer).peer s).sndQueue = [] from (h s).idle.queues.1]
    rfl
  sentMsgs s _ := by
    rw [items, show ((start peer).peer s).sndQueue = [] from (h s).idle.queues.1]
    exact .nil
  gotBytes _ := rfl
  gotMsgs _ _ := .nil

theorem follows_of_start (h₀ : ∀ s, IKCPCB.SetUp (peer s)) (hconv : ∀ s, (peer s).conv = conv)
    (h : Reach step Allowed (start peer) w) : ∃ arq taken, Follows conv (fun s => (peer s).stream) w arq taken := by
  refine h.invariant (I := fun w => ∃ arq taken, Follows conv (fun s => (peer s).stream) w arq taken)
    ⟨_, _, follows_start h₀ hconv⟩ ?_
  rintro w op w' ⟨arq, taken, hf⟩ hp hstep
  exact follows_step hf hp hstep

/-- In every run both ends follow the abstract protocol, and all the times that are on their way are in their spans. -/
theorem punctual_of_reach (h₀ : ∀ s, IKCPCB.SetUp (peer s)) (hconv : ∀ s, (peer s).conv = conv)
    (h : Reach step (OnTime base) (start peer) w) :
    Punctual base w ∧ ∃ arq taken, Follows conv (fun s => (peer s).stream) w arq taken := by
  refine h.invariant (I := fun w => Punctual base w ∧ ∃ arq taken, Follows conv (fun s => (peer s).stream) w arq taken)
    ⟨⟨fun s => (h₀ s).idle.windows, fun s => (h₀ s).estimated, fun s a ha => ?_, (fun _ _ hd => nomatch hd)⟩,
      _, _, follows_start h₀ hconv⟩ ?_
  · change a ∈ (peer s).acklist at ha
    rw [(h₀ s).idle.acklist] at ha
    cases ha
  · rintro w op w' ⟨hpunctual, arq, taken, hf⟩ hp hstep
    exact ⟨punctual_step hf hpunctual hp hstep, follows_step hf hp.allowed hstep⟩

end Run

end Pair

end KcpServer.Ikcp
