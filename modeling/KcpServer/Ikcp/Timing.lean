import KcpServer.Ikcp.Windows

/-!
# Time

What `ikcp` makes of the time that it is told, be it by `ikcp_update` or in the segments that come.

* `rto_of_reach` : the retransmission timeout stays between `rx_minrto` and `IKCP_RTO_MAX`;
* `call_ok_of_timely` : no call fails as long as no acknowledgement is `2 ^ 28` milliseconds old;
* `update_before_check` : `ikcp_update` has nothing to do before the time that `ikcp_check` returns.
-/

namespace KcpServer.Ikcp
open Lib

structure Clock where
  current : UInt32
  rxSrtt : Int
  rxRttval : Int
  rxRto : Int
  rxMinrto : Int
  interval : UInt32

/-- The headers that the loop of `ikcp_input` can come to in a datagram. -/
inductive HeaderIn : Bytes → SegHeader → Prop
  | head {data : Bytes} {hd : SegHeader} (h : decodeHeader data = .ok hd) : HeaderIn data hd
  | behind {data : Bytes} {hd hd' : SegHeader} (h : decodeHeader data = .ok hd)
    (h' : HeaderIn (data.drop (IKCP_OVERHEAD + hd.len.toNat)) hd') : HeaderIn data hd'

theorem HeaderIn.length_le {data : Bytes} {hd : SegHeader} (h : HeaderIn data hd) : 24 ≤ data.length := by
  have hread {data : Bytes} {hd : SegHeader} (h : decodeHeader data = .ok hd) : 24 ≤ data.length := by
    iterate 7 obtain ⟨_, -, h⟩ := bind_eq_ok.mp h
    obtain ⟨_, hlen, -⟩ := bind_eq_ok.mp h
    unfold decodeU at hlen
    cases hread : readLE 4 data 20 with
    | error e =>
      rw [hread] at hlen
      cases hlen
    | ok v => exact (readLE_ok hread).1
  cases h with
  | head h => exact hread h
  | behind h _ => exact hread h

theorem HeaderIn.eq_of_length {data : Bytes} {hd hd' : SegHeader} (h : HeaderIn data hd') (hlen : data.length < 48)
    (hhead : decodeHeader data = .ok hd) : hd' = hd := by
  cases h with
  | head h =>
    rw [hhead] at h
    exact (Except.ok.inj h).symm
  | behind h h' =>
    have hle := h'.length_le
    rw [List.length_drop] at hle
    have hover : IKCP_OVERHEAD = 24 := rfl
    omega

/-- How old an acknowledgement may be, in milliseconds: 3 days. -/
def AGE_MAX : Int := 2 ^ 28

/-- What can be estimated without leaving the range of an `int`. -/
structure Clock.Estimated (c : Clock) : Prop where
  srtt_nonneg : 0 ≤ c.rxSrtt
  srtt_lt : c.rxSrtt < AGE_MAX
  rttval_nonneg : 0 ≤ c.rxRttval
  rttval_lt : c.rxRttval < AGE_MAX

/-- The timeout is between its bounds. -/
structure Clock.RtoBounded (c : Clock) : Prop where
  minrto : c.rxMinrto = IKCP_RTO_NDL ∨ c.rxMinrto = IKCP_RTO_MIN
  minrto_le : c.rxMinrto ≤ c.rxRto
  le_max : c.rxRto ≤ IKCP_RTO_MAX.toNat

namespace IKCPCB
variable {kcp kcp' kcp₀ : IKCPCB}

def clock (kcp : IKCPCB) : Clock :=
  ⟨kcp.current, kcp.rxSrtt, kcp.rxRttval, kcp.rxRto, kcp.rxMinrto, kcp.interval⟩

/-! ## The estimate of the round trip -/

theorem signed_ok {n : Int} (h : -2 ^ 31 ≤ n) (h' : n < 2 ^ 31) : signed n = .ok n := if_pos ⟨h, h'⟩

theorem estimate_ok {rtt : Int} (h : kcp.clock.Estimated) (hrtt : 0 ≤ rtt) (hlt : rtt < AGE_MAX) :
    ∃ srtt rttval, kcp.estimate rtt = .ok (srtt, rttval) ∧ 0 ≤ srtt ∧ srtt < AGE_MAX ∧ 0 ≤ rttval ∧ rttval < AGE_MAX := by
  obtain ⟨hsrtt, hsrtt', hrttval, hrttval'⟩ := h
  have hmax : AGE_MAX = 2 ^ 28 := rfl
  rw [hmax] at hsrtt' hrttval' hlt ⊢
  change 0 ≤ kcp.rxSrtt at hsrtt
  change kcp.rxSrtt < 2 ^ 28 at hsrtt'
  change 0 ≤ kcp.rxRttval at hrttval
  change kcp.rxRttval < 2 ^ 28 at hrttval'
  unfold estimate
  split
  · refine ⟨_, _, rfl, hrtt, hlt, ?_⟩
    rw [Int.tdiv_eq_ediv_of_nonneg hrtt]
    omega
  · have habs : 0 ≤ |rtt - kcp.rxSrtt| := abs_nonneg _
    have habs' : |rtt - kcp.rxSrtt| < 2 ^ 28 := abs_lt.mpr (by omega)
    rw [signed_ok (by omega) (by omega), ok_bind, signed_ok (by omega) (by omega), ok_bind,
      signed_ok (by omega) (by omega), ok_bind, signed_ok (by omega) (by omega), ok_bind]
    rw [Int.tdiv_eq_ediv_of_nonneg (by omega), Int.tdiv_eq_ediv_of_nonneg (by omega),
      int32_of_range (by omega) (by omega)]
    refine ⟨_, _, rfl, ?_⟩
    split <;> omega

theorem updateAck_ok {rtt : Int} (h : kcp.clock.Estimated) (hrtt : 0 ≤ rtt) (hlt : rtt < AGE_MAX) :
    ∃ kcp', kcp.updateAck rtt = .ok kcp' ∧ kcp'.clock.Estimated := by
  obtain ⟨srtt, rttval, heq, hsrtt, hsrtt', hrttval, hrttval'⟩ := estimate_ok h hrtt hlt
  have hmax : AGE_MAX = 2 ^ 28 := rfl
  unfold updateAck
  rw [heq, ok_bind]
  dsimp only
  rw [signed_ok (by omega) (by omega), ok_bind]
  exact ⟨_, rfl, hsrtt, hsrtt', hrttval, hrttval'⟩

/-- The timeout is cut to its bounds. -/
theorem rto_updateAck {rtt : Int} (hmin : kcp.rxMinrto = IKCP_RTO_NDL ∨ kcp.rxMinrto = IKCP_RTO_MIN)
    (h : kcp.updateAck rtt = .ok kcp') : kcp'.clock.RtoBounded := by
  obtain ⟨⟨srtt, rttval⟩, -, h⟩ := bind_eq_ok.mp h
  obtain ⟨rttval', -, h⟩ := bind_eq_ok.mp h
  cases h
  refine ⟨hmin, ?_, ?_⟩
  · change kcp.rxMinrto ≤ ((min (max (UInt32.ofInt kcp.rxMinrto) _) IKCP_RTO_MAX).toNat : Int)
    generalize UInt32.ofInt srtt + _ = rto
    have hofInt : kcp.rxMinrto = (UInt32.ofInt kcp.rxMinrto).toNat ∧
        (UInt32.ofInt kcp.rxMinrto).toNat ≤ IKCP_RTO_MAX.toNat := by
      rcases hmin with hmin | hmin <;> rw [hmin] <;> decide
    rw [toNat_min, toNat_max]
    omega
  · change ((min _ IKCP_RTO_MAX).toNat : Int) ≤ IKCP_RTO_MAX.toNat
    rw [toNat_min]
    omega

/-! ## A datagram -/

theorem clock_moveData (kcp : IKCPCB) : kcp.moveData.clock = kcp.clock := by
  obtain ⟨_, _, _, _, _, heq⟩ := moveLoop_eq kcp kcp.rcvBuf
  rw [moveData, heq]
  rfl

theorem clock_parseData (kcp : IKCPCB) (seg : IKCPSEG) : (kcp.parseData seg).clock = kcp.clock := by
  unfold parseData
  split
  · rfl
  split
  · exact clock_moveData _
  · exact clock_moveData _

theorem clock_inputPush (kcp : IKCPCB) (hd : SegHeader) (data : Bytes) : (kcp.inputPush hd data).clock = kcp.clock := by
  rcases inputPush_cases kcp hd data with heq | heq | heq
  · rw [heq]
  · rw [heq]
    rfl
  · rw [heq]
    exact clock_parseData _ _

theorem clock_parseAck (kcp : IKCPCB) (sn : UInt32) : (kcp.parseAck sn).shrinkBuf.clock = kcp.clock := by
  unfold parseAck
  split <;> rfl

theorem clock_parseUna (kcp : IKCPCB) (wnd una : UInt32) :
    ({ kcp with rmtWnd := wnd }.parseUna una).shrinkBuf.clock = kcp.clock := by
  unfold parseUna
  generalize List.dropWhile _ _ = sndBuf
  rfl

theorem clock_growCwnd (kcp : IKCPCB) : kcp.growCwnd.clock = kcp.clock := by
  obtain ⟨_, _, heq⟩ := growCwnd_eq kcp
  rw [heq]
  rfl

theorem clock_parseFastack (kcp : IKCPCB) (sn : UInt32) : (kcp.parseFastack sn).clock = kcp.clock := by
  unfold parseFastack
  split <;> rfl

/-- Only an acknowledgement tells anything about time. -/
theorem inputSeg_clock {hd : SegHeader} {data : Bytes} {maxack maxack' : Option UInt32}
    (h : kcp.inputSeg hd data maxack = .ok (kcp', maxack')) : kcp'.clock = kcp.clock ∨
      ∃ kcp₁ kcp₂ : IKCPCB, kcp₁.clock = kcp.clock ∧ kcp₁.updateAck (itimediff kcp.current hd.ts) = .ok kcp₂ ∧
        kcp'.clock = kcp₂.clock := by
  have hclock := clock_parseUna kcp hd.wnd hd.una
  obtain ⟨kcp₁, hkcp₁, hcases⟩ := inputSeg_cases h
  rw [← hkcp₁] at hclock
  rcases hcases with ⟨-, kcp₂, hrtt, rfl⟩ | ⟨-, hpush⟩ | ⟨probe, rfl⟩
  · rw [clock_parseAck]
    unfold ackRtt at hrtt
    have hcurrent : kcp₁.current = kcp.current := congrArg Clock.current hclock
    rw [hcurrent] at hrtt
    split at hrtt
    · exact .inr ⟨kcp₁, kcp₂, hclock, hrtt, rfl⟩
    · cases hrtt
      exact .inl hclock
  · rw [hpush]
    exact .inl ((clock_inputPush _ _ _).trans hclock)
  · exact .inl hclock

/-- An acknowledgement that is not too old leaves an estimate in range. -/
theorem ackRtt_ok {ts : UInt32} (h : kcp.clock.Estimated) (hage : itimediff kcp.current ts < AGE_MAX) :
    ∃ kcp', kcp.ackRtt ts = .ok kcp' ∧ kcp'.clock.Estimated ∧ kcp'.current = kcp.current := by
  unfold ackRtt
  split
  · next hpast =>
    obtain ⟨kcp', hupd, h'⟩ := updateAck_ok h hpast hage
    refine ⟨kcp', hupd, h', ?_⟩
    obtain ⟨_, _, _, rfl⟩ := updateAck_eq hupd
    rfl
  · exact ⟨kcp, rfl, h, rfl⟩

theorem inputSeg_ok {hd : SegHeader} (h : kcp.clock.Estimated)
    (hage : hd.cmd = IKCP_CMD_ACK → itimediff kcp.current hd.ts < AGE_MAX) (data : Bytes) (maxack : Option UInt32) :
    ∃ kcp' maxack', kcp.inputSeg hd data maxack = .ok (kcp', maxack') ∧ kcp'.clock.Estimated ∧
      kcp'.clock.current = kcp.current := by
  have hclock := clock_parseUna kcp hd.wnd hd.una
  unfold inputSeg
  dsimp only
  generalize ({ kcp with rmtWnd := hd.wnd }.parseUna hd.una).shrinkBuf = kcp₁ at hclock ⊢
  have hcurrent : kcp₁.clock.current = kcp.current := congrArg Clock.current hclock
  rw [← hclock] at h
  split
  · next hack =>
    have hlt := hage hack
    rw [← hcurrent] at hlt
    obtain ⟨kcp₂, hrtt, h₂, hcurrent₂⟩ := ackRtt_ok h hlt
    rw [inputAck, hrtt, ok_bind]
    refine ⟨(kcp₂.parseAck hd.sn).shrinkBuf, _, rfl, ?_, ?_⟩
    · rw [clock_parseAck]
      exact h₂
    · rw [clock_parseAck]
      exact hcurrent₂.trans hcurrent
  split
  · refine ⟨kcp₁.inputPush hd data, _, rfl, ?_, ?_⟩
    · rw [clock_inputPush]
      exact h
    · rw [clock_inputPush]
      exact hcurrent
  split
  · exact ⟨_, _, rfl, h, hcurrent⟩
  · exact ⟨_, _, rfl, h, hcurrent⟩

theorem inputLoop_ok {data : Bytes} {maxack : Option UInt32} (h : kcp.clock.Estimated)
    (hage : ∀ hd, HeaderIn data hd → hd.cmd = IKCP_CMD_ACK → itimediff kcp.current hd.ts < AGE_MAX) :
    ∃ kcp' err maxack', kcp.inputLoop data maxack = .ok (kcp', err, maxack') ∧ kcp'.clock.Estimated := by
  fun_induction inputLoop kcp data maxack with
  | case1 kcp data maxack hlt => exact ⟨_, _, _, rfl, h⟩
  | case2 kcp data maxack hge ih =>
    have hover : IKCP_OVERHEAD = 24 := rfl
    obtain ⟨hd, hhead⟩ := decodeHeader_ok (show 24 ≤ data.length by omega)
    rw [hhead, ok_bind]
    split
    · exact ⟨kcp, some (-1), maxack, rfl, h⟩
    split
    · exact ⟨kcp, some (-2), maxack, rfl, h⟩
    next hlen =>
    split
    · exact ⟨kcp, some (-3), maxack, rfl, h⟩
    rw [readAt_eq (by omega), ok_bind]
    obtain ⟨kcp', maxack', hseg, h', hcurrent⟩ :=
      inputSeg_ok h (hage hd (.head hhead)) (slice data IKCP_OVERHEAD hd.len.toNat) maxack
    rw [hseg, ok_bind]
    refine ih hd kcp' maxack' h' fun hd' hin hack => ?_
    have hcurrent : kcp'.current = kcp.current := hcurrent
    rw [hcurrent]
    exact hage hd' (.behind hhead hin) hack

theorem input_ok {d : Bytes} (h : kcp.clock.Estimated)
    (hage : ∀ hd, HeaderIn d hd → hd.cmd = IKCP_CMD_ACK → itimediff kcp.current hd.ts < AGE_MAX) :
    ∃ kcp' ret, kcp.input d = .ok (kcp', ret) ∧ kcp'.clock.Estimated := by
  unfold input
  split
  · exact ⟨_, _, rfl, h⟩
  obtain ⟨kcp₁, err, maxack, hloop, h₁⟩ := inputLoop_ok h hage
  rw [hloop, ok_bind]
  cases err with
  | some err => exact ⟨_, _, rfl, h₁⟩
  | none =>
    have hfast : (kcp₁.inputFastack maxack).clock = kcp₁.clock := by
      cases maxack with
      | none => rfl
      | some maxack => exact clock_parseFastack kcp₁ maxack
    refine ⟨_, _, rfl, ?_⟩
    split
    · rw [clock_growCwnd, hfast]
      exact h₁
    · rw [hfast]
      exact h₁

/-! ## The other calls -/

theorem clock_flush {ds : List Bytes} (h : kcp.flush = .ok (kcp', ds)) : kcp'.clock = kcp.clock := by
  obtain ⟨kcp₁, kcp₂, ⟨_, _, hkcp₁⟩, hkcp₂, ⟨_, _, _, _, _, _, hkcp'⟩, -⟩ := flush_emits h
  obtain ⟨_, _, _, _, _, hnumber⟩ := numberLoop_eq kcp₁ kcp.flushWnd kcp.sndQueue
  rw [hkcp', hkcp₂, hnumber, hkcp₁]
  rfl

theorem clock_update {current : UInt32} {ds : List Bytes} (h : kcp.update current = .ok (kcp', ds)) :
    kcp'.clock = { kcp.clock with current } := by
  have htick : (kcp.tick current).clock = { kcp.clock with current } := rfl
  unfold update at h
  split at h
  · rw [clock_flush h, htick]
  · cases h
    exact htick

theorem clock_send {buffer : Bytes} {ret : Int} (h : kcp.send buffer = .ok (kcp', ret)) : kcp'.clock = kcp.clock := by
  obtain ⟨_, _, rfl⟩ := send_eq h
  rfl

theorem clock_recv {len ret : Int} {bytes : Bytes} (h : kcp.recv len = .ok (kcp', ret, bytes)) :
    kcp'.clock = kcp.clock := by
  obtain ⟨_, _, _, _, _, _, rfl⟩ := recv_eq h
  rfl

theorem clock_input {P : Clock → Prop}
    (hupd : ∀ (kcp kcp' : IKCPCB) (rtt : Int), P kcp.clock → kcp.updateAck rtt = .ok kcp' → P kcp'.clock)
    (h : P kcp.clock) {d : Bytes} {ret : Int} (hinput : kcp.input d = .ok (kcp', ret)) : P kcp'.clock := by
  refine input_keeps (P := fun kcp => P kcp.clock) ?_ ?_ ?_ h hinput
  · intro kcp hd data maxack kcp' maxack' h hseg
    rcases inputSeg_clock hseg with heq | ⟨kcp₁, kcp₂, heq, hrtt, heq'⟩
    · exact heq ▸ h
    · exact heq' ▸ hupd _ _ _ (heq ▸ h) hrtt
  · exact fun kcp sn h => (clock_parseFastack kcp sn).symm ▸ h
  · exact fun _ _ _ h => h

theorem current_input {d : Bytes} {ret : Int} (h : kcp.input d = .ok (kcp', ret)) : kcp'.current = kcp.current := by
  refine clock_input (P := fun c => c.current = kcp.current) (fun kcp₁ kcp₂ rtt hcurrent hupd => ?_) rfl h
  obtain ⟨_, _, _, rfl⟩ := updateAck_eq hupd
  exact hcurrent

theorem clock_call {P : Clock → Prop} (htime : ∀ c current, P c → P { c with current })
    (hupd : ∀ (kcp kcp' : IKCPCB) (rtt : Int), P kcp.clock → kcp.updateAck rtt = .ok kcp' → P kcp'.clock)
    (h : P kcp.clock) {c : Call} (hcall : kcp.call c = .ok kcp') : P kcp'.clock := by
  cases c with
  | send buffer =>
    obtain ⟨ret, hsend⟩ := exists_of_map_fst hcall
    exact clock_send hsend ▸ h
  | recv len =>
    obtain ⟨⟨ret, bytes⟩, hrecv⟩ := exists_of_map_fst hcall
    exact clock_recv hrecv ▸ h
  | update current =>
    obtain ⟨ds, hupdate⟩ := exists_of_map_fst hcall
    exact clock_update hupdate ▸ htime _ current h
  | input d =>
    obtain ⟨ret, hinput⟩ := exists_of_map_fst hcall
    exact clock_input hupd h hinput

/-! ## Runs -/

theorem rxMinrto_setNodelay (kcp : IKCPCB) (delay every resend nc : Int) :
    (kcp.setNodelay delay every resend nc).rxMinrto =
      if delay ≥ 0 then (if delay ≠ 0 then IKCP_RTO_NDL else IKCP_RTO_MIN) else kcp.rxMinrto := by
  unfold setNodelay
  dsimp only
  split <;> split <;> split <;> split <;> rfl

theorem SetUp.clock (h : SetUp kcp) : kcp.rxSrtt = 0 ∧ kcp.rxRttval = 0 ∧ kcp.rxRto = IKCP_RTO_DEF ∧
    (kcp.rxMinrto = IKCP_RTO_NDL ∨ kcp.rxMinrto = IKCP_RTO_MIN) := by
  induction h with
  | create conv => exact ⟨rfl, rfl, rfl, .inr rfl⟩
  | @setmtu kcp mtu _ _ ih =>
    obtain ⟨_, _, heq⟩ := setmtu_eq kcp mtu
    rw [heq]
    exact ih
  | @nodelay kcp delay every resend nc _ ih =>
    obtain ⟨hsrtt, hrttval, hrto, hmin⟩ := ih
    have hminrto := rxMinrto_setNodelay kcp delay every resend nc
    obtain ⟨_, _, _, _, _, heq⟩ := setNodelay_eq kcp delay every resend nc
    refine ⟨by rw [heq]; exact hsrtt, by rw [heq]; exact hrttval, by rw [heq]; exact hrto, ?_⟩
    rw [hminrto]
    split
    · split
      · exact .inl rfl
      · exact .inr rfl
    · exact hmin
  | @wndsize kcp sndwnd rcvwnd _ _ _ ih =>
    obtain ⟨_, _, heq⟩ := wndsize_eq kcp sndwnd rcvwnd
    rw [heq]
    exact ih
  | stream _ ih => exact ih

theorem SetUp.estimated (h : SetUp kcp) : kcp.clock.Estimated := by
  obtain ⟨hsrtt, hrttval, -⟩ := h.clock
  exact ⟨hsrtt.ge, hsrtt.trans_lt (by decide), hrttval.ge, hrttval.trans_lt (by decide)⟩

/-- In every run the retransmission timeout is between its bounds, whatever has been estimated. -/
theorem rto_of_reach (h₀ : SetUp kcp₀) (h : Reach call (fun _ _ => True) kcp₀ kcp) :
    kcp.rxMinrto ≤ kcp.rxRto ∧ kcp.rxRto ≤ 60000 := by
  have hbounded : kcp.clock.RtoBounded := by
    refine h.invariant (I := fun kcp => kcp.clock.RtoBounded) ?_ fun kcp c kcp' hkcp _ hcall => ?_
    · obtain ⟨-, -, hrto, hmin⟩ := h₀.clock
      refine ⟨hmin, ?_, hrto.trans_le (by decide)⟩
      change kcp₀.rxMinrto ≤ kcp₀.rxRto
      rw [hrto]
      rcases hmin with hmin | hmin <;> rw [hmin] <;> decide
    · refine clock_call (fun c _ hc => ⟨hc.minrto, hc.minrto_le, hc.le_max⟩) ?_ hkcp hcall
      exact fun kcp kcp' rtt h hupd => rto_updateAck h.minrto hupd
  exact ⟨hbounded.minrto_le, hbounded.le_max⟩

/-- Three bytes are sent, and half a second later they are acknowledged. -/
theorem reach_halfSecond : ∃ kcp, Reach call (fun _ c => ∀ d, c ≠ .input d) ((create 7).setNodelay 1 10 2 1) kcp ∧
    kcp.current = 500 ∧ ∃ kcp', kcp.call (.input ackOfTime0) = .ok kcp' ∧ kcp'.rxRto = 1500 := by
  have h : (runIf call (fun _ c => match c with | .input _ => false | _ => true) ((create 7).setNodelay 1 10 2 1)
      [.send [1, 2, 3], .update 0, .update 500]).any (fun kcp => decide (kcp.current = 500) &&
        (kcp.call (.input ackOfTime0)).toOption.any fun kcp' => decide (kcp'.rxRto = 1500)) = true := by
    decide +kernel
  obtain ⟨kcp, hkcp, hq⟩ := Reach.of_runIf_any (P := fun _ c => ∀ d, c ≠ .input d) (fun _ c hc d hd => by
    rw [hd] at hc
    cases hc) h
  obtain ⟨hcurrent, hq⟩ := Bool.and_eq_true_iff.mp hq
  obtain ⟨kcp', hcall, hrto⟩ := exists_ok_of_any hq
  exact ⟨kcp, hkcp, of_decide_eq_true hcurrent, kcp', hcall, of_decide_eq_true hrto⟩

theorem rto_of_reach_halfSecond : ∃ kcp, Reach call (fun _ _ => True) ((create 7).setNodelay 1 10 2 1) kcp ∧
    kcp.rxRto = 1500 ∧ kcp.rxMinrto ≤ kcp.rxRto ∧ kcp.rxRto ≤ 60000 := by
  obtain ⟨kcp, hkcp, -, kcp', hcall, hrto⟩ := reach_halfSecond
  have hkcp' := (hkcp.mono fun _ _ _ => trivial).step trivial hcall
  exact ⟨kcp', hkcp', hrto, rto_of_reach (SetUp.create 7).nodelay hkcp'⟩

/-- No acknowledgement is too old when it comes. -/
def Timely (kcp : IKCPCB) : Call → Prop
  | .input d => ∀ hd, HeaderIn d hd → hd.cmd = IKCP_CMD_ACK → itimediff kcp.current hd.ts < AGE_MAX
  | _ => True

theorem estimated_call {c : Call} (hc : Timely kcp c) (h : kcp.clock.Estimated) (hcall : kcp.call c = .ok kcp') :
    kcp'.clock.Estimated := by
  cases c with
  | send buffer =>
    obtain ⟨ret, hsend⟩ := exists_of_map_fst hcall
    exact clock_send hsend ▸ h
  | recv len =>
    obtain ⟨⟨ret, bytes⟩, hrecv⟩ := exists_of_map_fst hcall
    exact clock_recv hrecv ▸ h
  | update current =>
    obtain ⟨ds, hupdate⟩ := exists_of_map_fst hcall
    rw [clock_update hupdate]
    exact ⟨h.srtt_nonneg, h.srtt_lt, h.rttval_nonneg, h.rttval_lt⟩
  | input d =>
    obtain ⟨ret, hinput⟩ := exists_of_map_fst hcall
    obtain ⟨_, _, hok, h'⟩ := input_ok h hc
    rw [hinput] at hok
    obtain ⟨rfl, -⟩ := Prod.mk.inj (Except.ok.inj hok)
    exact h'

theorem checkLoop_pos {current : UInt32} {segs : List IKCPSEG} {tm tm' : Int} (htm : 0 < tm)
    (h : checkLoop current tm segs = some tm') : 0 < tm' := by
  induction segs generalizing tm with
  | nil =>
    cases h
    exact htm
  | cons seg segs ih =>
    unfold checkLoop at h
    dsimp only at h
    split at h
    · cases h
    · next hpos => exact ih (by split <;> omega) h

/-- `ikcp_check` returns the time it is given, or one before the next flush. -/
theorem check_cases (kcp : IKCPCB) (current : UInt32) : kcp.check current = current ∨
    (kcp.updated ≠ 0 ∧ -10000 ≤ itimediff current kcp.tsFlush ∧ itimediff current kcp.tsFlush < 0 ∧
      ∃ wait : UInt32, kcp.check current = current + wait ∧ (wait.toNat : Int) ≤ -itimediff current kcp.tsFlush ∧
        wait ≤ kcp.interval) := by
  unfold check
  split
  · exact .inl rfl
  next hupdated =>
  by_cases hlate : itimediff current kcp.tsFlush ≥ 10000 ∨ itimediff current kcp.tsFlush < -10000
  · left
    dsimp only
    rw [if_pos hlate]
    exact if_pos (serialDiff_self current).ge
  dsimp only
  rw [if_neg hlate]
  split
  · exact .inl rfl
  next hlt =>
  have hrange : -2 ^ 31 < itimediff current kcp.tsFlush := by omega
  have hflush : itimediff kcp.tsFlush current = -itimediff current kcp.tsFlush := serialDiff_comm hrange
  rw [hflush]
  cases hloop : checkLoop current 0x7fffffff kcp.sndBuf with
  | none => exact .inl rfl
  | some tmPacket =>
    right
    have hpos := checkLoop_pos (by decide) hloop
    dsimp only
    generalize hmin : (if tmPacket < -itimediff current kcp.tsFlush then tmPacket else -itimediff current kcp.tsFlush) = m
    have hm : 0 ≤ m ∧ m ≤ -itimediff current kcp.tsFlush := by
      rw [← hmin]
      split <;> omega
    have htoNat : ((UInt32.ofInt m).toNat : Int) = m := toNat_ofInt hm.1 (by omega)
    refine ⟨hupdated, by omega, by omega, _, rfl, ?_, ?_⟩
    · split
      · next hge =>
        have hle := UInt32.le_iff_toNat_le.mp hge
        omega
      · omega
    · split
      · exact UInt32.le_refl _
      · next hge => exact UInt32.le_of_lt (UInt32.not_le.mp hge)

/-- Before the time that `ikcp_check` returns, `ikcp_update` sends nothing and only notes the time. That time is no
later than the interval. -/
theorem update_before_check (kcp : IKCPCB) (current : UInt32) :
    (kcp.check current - current).toNat ≤ kcp.interval.toNat ∧ ∀ j < (kcp.check current - current).toNat,
      kcp.update (current + UInt32.ofNat j) = .ok ({ kcp with current := current + UInt32.ofNat j }, []) := by
  rcases check_cases kcp current with heq | ⟨hupdated, hge, hlt, wait, heq, hwait, hle⟩
  · rw [heq, UInt32.sub_self]
    exact ⟨Nat.zero_le _, fun j hj => absurd hj (Nat.not_lt_zero j)⟩
  rw [heq, show current + wait - current = wait by rw [UInt32.add_comm, UInt32.add_sub_cancel]]
  refine ⟨UInt32.le_iff_toNat_le.mp hle, fun j hj => ?_⟩
  have hrange : itimediff current kcp.tsFlush + j < 2 ^ 31 := by omega
  have hslap : itimediff (current + UInt32.ofNat j) kcp.tsFlush = itimediff current kcp.tsFlush + j := serialDiff_add hrange
  have hnext : kcp.nextFlush (current + UInt32.ofNat j) = (kcp.tsFlush, false) := by
    unfold nextFlush
    dsimp only
    rw [if_neg hupdated, hslap, if_neg (by omega), if_neg (by omega)]
  unfold update tick
  rw [hnext, if_neg hupdated]
  rfl

end IKCPCB

end KcpServer.Ikcp
