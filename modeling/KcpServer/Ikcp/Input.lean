import KcpServer.Ikcp.Control

/-!
# `ikcp_input`

What a datagram does to a control block, segment by segment: `inputSeg` is the body of the loop behind the checks of the
header, `inputLoop` the loop, and `input` ends with the fast acknowledgements and the congestion window.
-/

namespace KcpServer.Ikcp
open Lib

/-- The value of a signed 32-bit expression. -/
def signed (n : Int) : Except Fault Int := if -2 ^ 31 ≤ n ∧ n < 2 ^ 31 then .ok n else .error .overflow

namespace IKCPCB

/-! ## Acknowledgements -/

/-- How `ikcp_update_ack` estimates the round trip and its variation; `delta` is a `long`. -/
def estimate (kcp : IKCPCB) (rtt : Int) : Except Fault (Int × Int) :=
  if kcp.rxSrtt = 0 then
    return (rtt, rtt.tdiv 2)
  else do
    let delta ← signed (rtt - kcp.rxSrtt)
    let rttval := ((← signed (3 * kcp.rxRttval)) + |delta|).tdiv 4
    let srtt := (← signed ((← signed (7 * kcp.rxSrtt)) + rtt)).tdiv 8
    return (if srtt < 1 then 1 else srtt, int32 rttval)

def updateAck (kcp : IKCPCB) (rtt : Int) : Except Fault IKCPCB := do
  let (rxSrtt, rxRttval) ← kcp.estimate rtt
  let rto := UInt32.ofInt rxSrtt + max kcp.interval (UInt32.ofInt (← signed (4 * rxRttval)))
  return { kcp with
    rxSrtt
    rxRttval
    rxRto := (min (max (UInt32.ofInt kcp.rxMinrto) rto) IKCP_RTO_MAX).toNat }

def shrinkBuf (kcp : IKCPCB) : IKCPCB :=
  { kcp with
    sndUna := match kcp.sndBuf with
      | [] => kcp.sndNxt
      | seg :: _ => seg.sn }

/-- The loop of `ikcp_parse_ack`: the segment numbered `sn` is taken out. -/
def ackLoop (sn : UInt32) : List IKCPSEG → List IKCPSEG × Bool
  | [] => ([], false)
  | seg :: segs =>
    if sn = seg.sn then
      (segs, true)
    else if itimediff sn seg.sn < 0 then
      (seg :: segs, false)
    else
      (seg :: (ackLoop sn segs).1, (ackLoop sn segs).2)

def parseAck (kcp : IKCPCB) (sn : UInt32) : IKCPCB :=
  if itimediff sn kcp.sndUna < 0 ∨ itimediff sn kcp.sndNxt ≥ 0 then kcp
  else { kcp with
    sndBuf := (ackLoop sn kcp.sndBuf).1
    nsndBuf := if (ackLoop sn kcp.sndBuf).2 then kcp.nsndBuf - 1 else kcp.nsndBuf }

def parseUna (kcp : IKCPCB) (una : UInt32) : IKCPCB :=
  let sndBuf := kcp.sndBuf.dropWhile fun seg => itimediff una seg.sn > 0
  { kcp with sndBuf, nsndBuf := kcp.nsndBuf - UInt32.ofNat (kcp.sndBuf.length - sndBuf.length) }

/-- The loop of `ikcp_parse_fastack`. -/
def fastackLoop (sn : UInt32) : List IKCPSEG → List IKCPSEG
  | [] => []
  | seg :: segs =>
    if itimediff sn seg.sn < 0 then
      seg :: segs
    else
      (if sn ≠ seg.sn then { seg with fastack := seg.fastack + 1 } else seg) :: fastackLoop sn segs

def parseFastack (kcp : IKCPCB) (sn : UInt32) : IKCPCB :=
  if itimediff sn kcp.sndUna < 0 ∨ itimediff sn kcp.sndNxt ≥ 0 then kcp
  else { kcp with sndBuf := fastackLoop sn kcp.sndBuf }

def ackPush (kcp : IKCPCB) (sn ts : UInt32) : IKCPCB := { kcp with acklist := kcp.acklist ++ [(sn, ts)] }

/-! ## Data -/

/-- The loop of `ikcp_parse_data` that looks for the place of a segment, from the end of the list on; there is none for
one that is already there. -/
def placeRev (newseg : IKCPSEG) : List IKCPSEG → Option (List IKCPSEG)
  | [] => some [newseg]
  | seg :: segs =>
    if seg.sn = newseg.sn then
      none
    else if itimediff newseg.sn seg.sn > 0 then
      some (newseg :: seg :: segs)
    else
      (placeRev newseg segs).map (seg :: ·)

def parseData (kcp : IKCPCB) (newseg : IKCPSEG) : IKCPCB :=
  if itimediff newseg.sn (kcp.rcvNxt + kcp.rcvWnd) ≥ 0 ∨ itimediff newseg.sn kcp.rcvNxt < 0 then
    kcp
  else
    match placeRev newseg kcp.rcvBuf.reverse with
    | none => kcp.moveData
    | some segs => { kcp with rcvBuf := segs.reverse, nrcvBuf := kcp.nrcvBuf + 1 }.moveData

/-! ## The loop -/

/-- How long the segment that is acknowledged has been on its way, if it is not from the future. -/
def ackRtt (kcp : IKCPCB) (ts : UInt32) : Except Fault IKCPCB :=
  if itimediff kcp.current ts ≥ 0 then kcp.updateAck (itimediff kcp.current ts) else .ok kcp

/-- The highest number that has been acknowledged; `none` as long as `flag` is 0. -/
def newMaxack (sn : UInt32) : Option UInt32 → UInt32
  | none => sn
  | some maxack => if itimediff sn maxack > 0 then sn else maxack

/-- What the loop makes of `IKCP_CMD_ACK`. -/
def inputAck (kcp : IKCPCB) (hd : SegHeader) (maxack : Option UInt32) : Except Fault (IKCPCB × Option UInt32) := do
  let kcp ← kcp.ackRtt hd.ts
  return ((kcp.parseAck hd.sn).shrinkBuf, some (newMaxack hd.sn maxack))

/-- The segment that `ikcp_input` makes of a header and the data behind it. -/
def segOf (hd : SegHeader) (data : Bytes) : IKCPSEG where
  conv := hd.conv
  cmd := hd.cmd
  frg := hd.frg
  wnd := hd.wnd
  ts := hd.ts
  sn := hd.sn
  una := hd.una
  data

/-- What the loop makes of `IKCP_CMD_PUSH`. -/
def inputPush (kcp : IKCPCB) (hd : SegHeader) (data : Bytes) : IKCPCB :=
  if itimediff hd.sn (kcp.rcvNxt + kcp.rcvWnd) < 0 then
    let kcp := kcp.ackPush hd.sn hd.ts
    if itimediff hd.sn kcp.rcvNxt ≥ 0 then
      kcp.parseData (segOf hd data)
    else
      kcp
  else
    kcp

/-- What the loop makes of one segment. -/
def inputSeg (kcp : IKCPCB) (hd : SegHeader) (data : Bytes) (maxack : Option UInt32) :
    Except Fault (IKCPCB × Option UInt32) :=
  let kcp := ({ kcp with rmtWnd := hd.wnd }.parseUna hd.una).shrinkBuf
  if hd.cmd = IKCP_CMD_ACK then
    kcp.inputAck hd maxack
  else if hd.cmd = IKCP_CMD_PUSH then
    return (kcp.inputPush hd data, maxack)
  else if hd.cmd = IKCP_CMD_WASK then
    return ({ kcp with probe := kcp.probe ||| IKCP_ASK_TELL }, maxack)
  else
    return (kcp, maxack)

/-- The loop of `ikcp_input`: the error that it returns with, and `maxack`. -/
def inputLoop (kcp : IKCPCB) (data : Bytes) (maxack : Option UInt32) :
    Except Fault (IKCPCB × Option Int × Option UInt32) :=
  if _h : data.length < IKCP_OVERHEAD then
    return (kcp, none, maxack)
  else do
    let hd ← decodeHeader data
    if hd.conv ≠ kcp.conv then
      return (kcp, some (-1), maxack)
    else if data.length - IKCP_OVERHEAD < hd.len.toNat then
      return (kcp, some (-2), maxack)
    else if ¬ KnownCmd hd.cmd then
      return (kcp, some (-3), maxack)
    else
      let payload ← readAt data IKCP_OVERHEAD hd.len.toNat
      let (kcp, maxack) ← kcp.inputSeg hd payload maxack
      inputLoop kcp (data.drop (IKCP_OVERHEAD + hd.len.toNat)) maxack
termination_by data.length
decreasing_by
  have hsize : IKCP_OVERHEAD = 24 := rfl
  simp only [List.length_drop]
  omega

theorem inputLoop_bytes {kcp : IKCPCB} {seg : IKCPSEG} (hconv : seg.conv = kcp.conv) (hcmd : KnownCmd (seg.cmd % 256))
    (hlen : seg.data.length < 2 ^ 32) (rest : Bytes) (maxack : Option UInt32) :
    kcp.inputLoop (seg.bytes ++ rest) maxack =
      kcp.inputSeg seg.header seg.data maxack >>= fun r => r.1.inputLoop rest r.2 := by
  have hover : IKCP_OVERHEAD = 24 := rfl
  have hsize : (seg.bytes ++ rest).length = 24 + seg.data.length + rest.length := by
    rw [List.length_append, seg.length_bytes]
  have hlen' : seg.len.toNat = seg.data.length := by
    rw [IKCPSEG.len, UInt32.toNat_ofNat']
    exact Nat.mod_eq_of_lt hlen
  have hat : HasAt (seg.bytes ++ rest) 0 (seg.encodeSeg ++ (seg.data ++ rest)) := by
    rw [IKCPSEG.bytes, List.append_assoc]
    exact hasAt_self _
  have hhead := hasAt_append.mp hat
  have hdata := (hasAt_append.mp hhead.2).1
  have hrest : (seg.bytes ++ rest).drop (IKCP_OVERHEAD + seg.data.length) = rest := by
    rw [hover, ← seg.length_bytes, List.drop_left]
  rw [inputLoop, dif_neg (by omega), decodeHeader_encodeSeg hhead.1, ok_bind]
  simp only [IKCPSEG.header, hlen']
  rw [if_neg (not_not.mpr hconv), if_neg (by omega), if_neg (not_not.mpr hcmd),
    hdata.readAt (by rw [seg.length_encodeSeg, hover]) rfl, ok_bind, hrest]

theorem inputLoop_keeps {P : IKCPCB → Prop} {data : Bytes}
    (hseg : ∀ kcp hd data maxack kcp' maxack', P kcp → data.length ≤ hd.len.toNat →
      kcp.inputSeg hd data maxack = .ok (kcp', maxack') → P kcp')
    {kcp kcp' : IKCPCB} {maxack maxack' : Option UInt32} {err : Option Int} (hkcp : P kcp)
    (h : kcp.inputLoop data maxack = .ok (kcp', err, maxack')) : P kcp' := by
  fun_induction inputLoop kcp data maxack with
  | case1 kcp data maxack hlt =>
    obtain ⟨rfl, -⟩ := Prod.mk.inj (Except.ok.inj h)
    exact hkcp
  | case2 kcp data maxack hge ih =>
    obtain ⟨hd, -, h⟩ := bind_eq_ok.mp h
    split at h
    · obtain ⟨rfl, -⟩ := Prod.mk.inj (Except.ok.inj h)
      exact hkcp
    split at h
    · obtain ⟨rfl, -⟩ := Prod.mk.inj (Except.ok.inj h)
      exact hkcp
    split at h
    · obtain ⟨rfl, -⟩ := Prod.mk.inj (Except.ok.inj h)
      exact hkcp
    obtain ⟨payload, hread, h⟩ := bind_eq_ok.mp h
    obtain ⟨⟨kcp₁, maxack₁⟩, hin, h⟩ := bind_eq_ok.mp h
    refine ih hd kcp₁ maxack₁ (hseg _ _ _ _ _ _ hkcp ?_ hin) h
    rw [(readAt_ok hread).2]
    exact List.length_take_le _ _

/-- One step of the congestion window. -/
def openCwnd (kcp : IKCPCB) : IKCPCB :=
  if kcp.cwnd < kcp.ssthresh then
    { kcp with cwnd := kcp.cwnd + 1, incr := kcp.incr + kcp.mss }
  else
    let incr := if kcp.incr < kcp.mss then kcp.mss else kcp.incr
    let incr := incr + (kcp.mss * kcp.mss / incr + kcp.mss / 16)
    { kcp with incr, cwnd := if (kcp.cwnd + 1) * kcp.mss ≤ incr then kcp.cwnd + 1 else kcp.cwnd }

/-- How `ikcp_input` opens the congestion window, up to the window of the other side. -/
def growCwnd (kcp : IKCPCB) : IKCPCB :=
  if kcp.cwnd < kcp.rmtWnd then
    let kcp := kcp.openCwnd
    if kcp.cwnd > kcp.rmtWnd then { kcp with cwnd := kcp.rmtWnd, incr := kcp.rmtWnd * kcp.mss } else kcp
  else
    kcp

/-- What `ikcp_input` does with the highest number that has been acknowledged. -/
def inputFastack (kcp : IKCPCB) : Option UInt32 → IKCPCB
  | none => kcp
  | some maxack => kcp.parseFastack maxack

def input (kcp : IKCPCB) (data : Bytes) : Except Fault (IKCPCB × Int) :=
  if data.length < IKCP_OVERHEAD then
    return (kcp, -1)
  else do
    let una := kcp.sndUna
    let (kcp, err, maxack) ← kcp.inputLoop data none
    match err with
    | some err => return (kcp, err)
    | none =>
      let kcp := kcp.inputFastack maxack
      return (if itimediff kcp.sndUna una > 0 then kcp.growCwnd else kcp, 0)

/-! ## What a datagram can do -/

variable {kcp kcp' : IKCPCB}

theorem updateAck_eq {rtt : Int} (h : kcp.updateAck rtt = .ok kcp') :
    ∃ rxSrtt rxRttval rxRto, kcp' = { kcp with rxSrtt, rxRttval, rxRto } := by
  obtain ⟨⟨rxSrtt, rxRttval⟩, -, h⟩ := bind_eq_ok.mp h
  obtain ⟨rttval, -, h⟩ := bind_eq_ok.mp h
  cases h
  exact ⟨_, _, _, rfl⟩

theorem ackRtt_eq {ts : UInt32} (h : kcp.ackRtt ts = .ok kcp') :
    ∃ rxSrtt rxRttval rxRto, kcp' = { kcp with rxSrtt, rxRttval, rxRto } := by
  unfold ackRtt at h
  split at h
  · exact updateAck_eq h
  · cases h
    exact ⟨_, _, _, rfl⟩

/-- Data is ignored, acknowledged, or acknowledged and stored. -/
theorem inputPush_cases (kcp : IKCPCB) (hd : SegHeader) (data : Bytes) : kcp.inputPush hd data = kcp ∨
    kcp.inputPush hd data = kcp.ackPush hd.sn hd.ts ∨
      kcp.inputPush hd data = (kcp.ackPush hd.sn hd.ts).parseData (segOf hd data) := by
  unfold inputPush
  split
  · dsimp only
    split
    · exact .inr (.inr rfl)
    · exact .inr (.inl rfl)
  · exact .inl rfl

theorem growCwnd_eq (kcp : IKCPCB) : ∃ cwnd incr, kcp.growCwnd = { kcp with cwnd, incr } := by
  obtain ⟨cwnd, incr, hopen⟩ : ∃ cwnd incr, kcp.openCwnd = { kcp with cwnd, incr } := by
    unfold openCwnd
    split <;> exact ⟨_, _, rfl⟩
  unfold growCwnd
  rw [hopen]
  split
  · dsimp only
    split <;> exact ⟨_, _, rfl⟩
  · exact ⟨_, _, rfl⟩

/-- A segment first acknowledges everything in front of its `una`, and then does what its command says. -/
theorem inputSeg_cases {hd : SegHeader} {data : Bytes} {maxack maxack' : Option UInt32}
    (h : kcp.inputSeg hd data maxack = .ok (kcp', maxack')) :
    ∃ kcp₁, kcp₁ = ({ kcp with rmtWnd := hd.wnd }.parseUna hd.una).shrinkBuf ∧
      ((hd.cmd = IKCP_CMD_ACK ∧ ∃ kcp₂, kcp₁.ackRtt hd.ts = .ok kcp₂ ∧ kcp' = (kcp₂.parseAck hd.sn).shrinkBuf) ∨
        (hd.cmd = IKCP_CMD_PUSH ∧ kcp' = kcp₁.inputPush hd data) ∨ ∃ probe, kcp' = { kcp₁ with probe }) := by
  refine ⟨_, rfl, ?_⟩
  unfold inputSeg at h
  dsimp only at h
  split at h
  · next hcmd =>
    obtain ⟨kcp₂, hrtt, h⟩ := bind_eq_ok.mp h
    obtain ⟨rfl, -⟩ := Prod.mk.inj (Except.ok.inj h)
    exact .inl ⟨hcmd, kcp₂, hrtt, rfl⟩
  split at h
  · next hcmd =>
    obtain ⟨rfl, -⟩ := Prod.mk.inj (Except.ok.inj h)
    exact .inr (.inl ⟨hcmd, rfl⟩)
  split at h
  · obtain ⟨rfl, -⟩ := Prod.mk.inj (Except.ok.inj h)
    exact .inr (.inr ⟨_, rfl⟩)
  · obtain ⟨rfl, -⟩ := Prod.mk.inj (Except.ok.inj h)
    exact .inr (.inr ⟨_, rfl⟩)

/-- A datagram too short for a header is refused. Behind the loop there is nothing left to do if it ended with an error,
and else the fast acknowledgements and the congestion window. -/
theorem input_cases {d : Bytes} {ret : Int} (h : kcp.input d = .ok (kcp', ret)) :
    (d.length < IKCP_OVERHEAD ∧ kcp' = kcp) ∨ ∃ kcp₁ err maxack, kcp.inputLoop d none = .ok (kcp₁, err, maxack) ∧
      (err = some ret ∧ kcp' = kcp₁ ∨
        err = none ∧ ret = 0 ∧ ∃ cwnd incr, kcp' = { kcp₁.inputFastack maxack with cwnd, incr }) := by
  unfold input at h
  split at h
  · next hlt =>
    obtain ⟨rfl, -⟩ := Prod.mk.inj (Except.ok.inj h)
    exact .inl ⟨hlt, rfl⟩
  obtain ⟨⟨kcp₁, err, maxack⟩, hloop, h⟩ := bind_eq_ok.mp h
  refine .inr ⟨kcp₁, err, maxack, hloop, ?_⟩
  cases err with
  | some err =>
    obtain ⟨rfl, rfl⟩ := Prod.mk.inj (Except.ok.inj h)
    exact .inl ⟨rfl, rfl⟩
  | none =>
    obtain ⟨rfl, rfl⟩ := Prod.mk.inj (Except.ok.inj h)
    refine .inr ⟨rfl, rfl, ?_⟩
    split
    · exact growCwnd_eq _
    · exact ⟨_, _, rfl⟩

theorem input_keeps {P : IKCPCB → Prop}
    (hseg : ∀ kcp hd data maxack kcp' maxack', P kcp → kcp.inputSeg hd data maxack = .ok (kcp', maxack') → P kcp')
    (hfast : ∀ kcp sn, P kcp → P (kcp.parseFastack sn)) (hcwnd : ∀ kcp cwnd incr, P kcp → P { kcp with cwnd, incr })
    {d : Bytes} {ret : Int} (hkcp : P kcp) (h : kcp.input d = .ok (kcp', ret)) : P kcp' := by
  rcases input_cases h with ⟨-, rfl⟩ | ⟨kcp₁, err, maxack, hloop, hend⟩
  · exact hkcp
  have h₁ : P kcp₁ := inputLoop_keeps (fun _ _ _ _ _ _ hkcp _ hin => hseg _ _ _ _ _ _ hkcp hin) hkcp hloop
  rcases hend with ⟨-, rfl⟩ | ⟨-, -, cwnd, incr, rfl⟩
  · exact h₁
  · apply hcwnd
    cases maxack with
    | none => exact h₁
    | some maxack => exact hfast _ maxack h₁

end IKCPCB

end KcpServer.Ikcp
