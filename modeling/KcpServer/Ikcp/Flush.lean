import KcpServer.Ikcp.Input

/-!
# `ikcp_flush`

What a control block sends: the acknowledgements, the probes of the window, and the segments of `snd_buf` that are due,
gathered into datagrams of at most `mtu` bytes. `flush` returns them in the order in which they are sent.
-/

namespace KcpServer.Ikcp
open Lib

/-- What `ikcp_flush` has put together: the bytes in front of `ptr`, and the datagrams that have been sent. -/
structure OutBuf where
  buffer : Bytes := []
  sent : List Bytes := []

namespace OutBuf

/-- `ikcp_output` of the buffer. -/
def output (o : OutBuf) : OutBuf := { buffer := [], sent := if o.buffer.length = 0 then o.sent else o.sent ++ [o.buffer] }

/-- The next datagram is begun if there is no room for `size` bytes in this one. -/
def room (mtu : UInt32) (o : OutBuf) (size : ℕ) : OutBuf := if o.buffer.length + size > mtu.toNat then o.output else o

/-- A segment goes behind the others, or into the next datagram. The buffer has `(mtu + IKCP_OVERHEAD) * 3` bytes. -/
def put (mtu : UInt32) (o : OutBuf) (seg : IKCPSEG) : Except Fault OutBuf :=
  let o := o.room mtu (IKCP_OVERHEAD + seg.data.length)
  if o.buffer.length + seg.bytes.length ≤ ((mtu + 24) * 3).toNat then
    return { o with buffer := o.buffer ++ seg.bytes }
  else
    .error .bounds

end OutBuf

namespace IKCPCB

def wndUnused (kcp : IKCPCB) : UInt32 := if kcp.nrcvQue < kcp.rcvWnd then kcp.rcvWnd - kcp.nrcvQue else 0

def ctrlSeg (kcp : IKCPCB) : IKCPSEG :=
  { conv := kcp.conv, cmd := IKCP_CMD_ACK, wnd := kcp.wndUnused, una := kcp.rcvNxt }

/-- The acknowledgements; `seg` keeps what the last one has put into it. -/
def flushAcks (mtu : UInt32) : OutBuf → IKCPSEG → List (UInt32 × UInt32) → Except Fault (OutBuf × IKCPSEG)
  | o, seg, [] => return (o, seg)
  | o, seg, (sn, ts) :: acks => do
    let seg := { seg with sn, ts }
    flushAcks mtu (← o.put mtu seg) seg acks

/-- How `ikcp_flush` decides whether to ask for the window of the other side. -/
def probeWindow (kcp : IKCPCB) : IKCPCB :=
  if kcp.rmtWnd = 0 then
    if kcp.probeWait = 0 then
      { kcp with probeWait := IKCP_PROBE_INIT, tsProbe := kcp.current + IKCP_PROBE_INIT }
    else if itimediff kcp.current kcp.tsProbe ≥ 0 then
      let probeWait := if kcp.probeWait < IKCP_PROBE_INIT then IKCP_PROBE_INIT else kcp.probeWait
      let probeWait := probeWait + probeWait / 2
      let probeWait := if probeWait > IKCP_PROBE_LIMIT then IKCP_PROBE_LIMIT else probeWait
      { kcp with probeWait, tsProbe := kcp.current + probeWait, probe := kcp.probe ||| IKCP_ASK_SEND }
    else
      kcp
  else
    { kcp with tsProbe := 0, probeWait := 0 }

/-- One of the two probes, if it is asked for. -/
def flushProbe (kcp : IKCPCB) (ask cmd : UInt32) (o : OutBuf) (seg : IKCPSEG) : Except Fault OutBuf :=
  if kcp.probe &&& ask ≠ 0 then o.put kcp.mtu { seg with cmd } else return o

def flushProbes (kcp : IKCPCB) (o : OutBuf) (seg : IKCPSEG) : Except Fault OutBuf := do
  let o ← kcp.flushProbe IKCP_ASK_SEND IKCP_CMD_WASK o seg
  kcp.flushProbe IKCP_ASK_TELL IKCP_CMD_WINS o seg

/-- How many segments may be on their way. -/
def flushWnd (kcp : IKCPCB) : UInt32 :=
  let cwnd := min kcp.sndWnd kcp.rmtWnd
  if kcp.nocwnd = 0 then min kcp.cwnd cwnd else cwnd

def numberSeg (kcp : IKCPCB) (newseg : IKCPSEG) : IKCPCB :=
  { kcp with
    sndBuf := kcp.sndBuf ++ [{ newseg with
      conv := kcp.conv
      cmd := IKCP_CMD_PUSH
      wnd := kcp.wndUnused
      ts := kcp.current
      sn := kcp.sndNxt
      una := kcp.rcvNxt
      resendts := kcp.current
      rto := UInt32.ofInt kcp.rxRto
      fastack := 0
      xmit := 0 }]
    nsndQue := kcp.nsndQue - 1
    nsndBuf := kcp.nsndBuf + 1
    sndNxt := kcp.sndNxt + 1 }

/-- The loop of `ikcp_flush` that moves segments from `snd_queue` to `snd_buf`. -/
def numberLoop (kcp : IKCPCB) (cwnd : UInt32) : List IKCPSEG → IKCPCB
  | [] => { kcp with sndQueue := [] }
  | newseg :: segs =>
    if itimediff kcp.sndNxt (kcp.sndUna + cwnd) < 0 then
      numberLoop (kcp.numberSeg newseg) cwnd segs
    else
      { kcp with sndQueue := newseg :: segs }

/-- After how many later acknowledgements a segment is sent again. -/
def resent (kcp : IKCPCB) : UInt32 := if kcp.fastresend > 0 then UInt32.ofInt kcp.fastresend else 0xffffffff

/-- Why a segment is sent. -/
inductive Sending
  | first
  | timeout
  | fast
  deriving DecidableEq

/-- Whether a segment is due, and why. -/
def due (current resent : UInt32) (seg : IKCPSEG) : Option Sending :=
  if seg.xmit = 0 then some .first
  else if itimediff current seg.resendts ≥ 0 then some .timeout
  else if seg.fastack ≥ resent then some .fast
  else none

/-- What becomes of a segment that is due. -/
def resend (kcp : IKCPCB) (seg : IKCPSEG) : Sending → IKCPSEG
  | .first =>
    let rto := UInt32.ofInt kcp.rxRto
    let rtomin := if kcp.nodelay = 0 then UInt32.ofInt (kcp.rxRto / 8) else 0
    { seg with xmit := seg.xmit + 1, rto, resendts := kcp.current + rto + rtomin }
  | .timeout =>
    let rto := seg.rto + if kcp.nodelay = 0 then UInt32.ofInt kcp.rxRto else UInt32.ofInt (kcp.rxRto.tdiv 2)
    { seg with xmit := seg.xmit + 1, rto, resendts := kcp.current + rto }
  | .fast => { seg with xmit := seg.xmit + 1, fastack := 0, resendts := kcp.current + seg.rto }

/-- What `ikcp_flush` notes while it sends the segments of `snd_buf`. -/
structure FlushState where
  out : OutBuf
  xmit : UInt32
  state : UInt32
  change : ℕ := 0
  lost : Bool := false

/-- A segment is sent if it is due. -/
def flushSeg (kcp : IKCPCB) (resent : UInt32) (f : FlushState) (seg : IKCPSEG) : Except Fault (FlushState × IKCPSEG) :=
  match due kcp.current resent seg with
  | none => return (f, seg)
  | some why => do
    let seg := { kcp.resend seg why with ts := kcp.current, wnd := kcp.wndUnused, una := kcp.rcvNxt }
    let out ← f.out.put kcp.mtu seg
    return ({ f with
      out
      xmit := if why = .timeout then f.xmit + 1 else f.xmit
      lost := if why = .timeout then true else f.lost
      change := if why = .fast then f.change + 1 else f.change
      state := if seg.xmit ≥ kcp.deadLink then -1 else f.state }, seg)

/-- The loop of `ikcp_flush` over `snd_buf`. -/
def flushData (kcp : IKCPCB) (resent : UInt32) : FlushState → List IKCPSEG → Except Fault (FlushState × List IKCPSEG)
  | f, [] => return (f, [])
  | f, seg :: segs => do
    let (f, seg) ← kcp.flushSeg resent f seg
    let (f, segs) ← kcp.flushData resent f segs
    return (f, seg :: segs)

/-- How `ikcp_flush` closes the congestion window. -/
def shrinkCwnd (kcp : IKCPCB) (resent cwnd : UInt32) (change : ℕ) (lost : Bool) : IKCPCB :=
  let kcp := if change ≠ 0 then
      let ssthresh := max ((kcp.sndNxt - kcp.sndUna) / 2) IKCP_THRESH_MIN
      { kcp with ssthresh, cwnd := ssthresh + resent, incr := (ssthresh + resent) * kcp.mss }
    else kcp
  let kcp := if lost then { kcp with ssthresh := max (cwnd / 2) IKCP_THRESH_MIN, cwnd := 1, incr := kcp.mss } else kcp
  if kcp.cwnd < 1 then { kcp with cwnd := 1, incr := kcp.mss } else kcp

/-- `ikcp_flush` up to the data. -/
def flushCtrl (kcp : IKCPCB) : Except Fault (IKCPCB × OutBuf) := do
  let (o, seg) ← flushAcks kcp.mtu {} kcp.ctrlSeg kcp.acklist
  let kcp := { kcp with acklist := [] }.probeWindow
  let o ← kcp.flushProbes o seg
  return ({ kcp with probe := 0 }, o)

def flush (kcp : IKCPCB) : Except Fault (IKCPCB × List Bytes) := do
  let (kcp, o) ← kcp.flushCtrl
  let cwnd := kcp.flushWnd
  let kcp := kcp.numberLoop cwnd kcp.sndQueue
  let (f, sndBuf) ← kcp.flushData kcp.resent { out := o, xmit := kcp.xmit, state := kcp.state } kcp.sndBuf
  let kcp := { kcp with sndBuf, xmit := f.xmit, state := f.state }
  return (kcp.shrinkCwnd kcp.resent cwnd f.change f.lost, f.out.output.sent)

/-- When `ikcp_update` flushes next, and whether it flushes now. -/
def nextFlush (kcp : IKCPCB) (current : UInt32) : UInt32 × Bool :=
  let tsFlush := if kcp.updated = 0 then current else kcp.tsFlush
  let slap := itimediff current tsFlush
  let late := slap ≥ 10000 ∨ slap < -10000
  let tsFlush := if late then current else tsFlush
  if late ∨ slap ≥ 0 then
    let tsFlush := tsFlush + kcp.interval
    (if itimediff current tsFlush ≥ 0 then current + kcp.interval else tsFlush, true)
  else
    (tsFlush, false)

/-- What `ikcp_update` does to the clocks. -/
def tick (kcp : IKCPCB) (current : UInt32) : IKCPCB :=
  { kcp with
    current
    updated := if kcp.updated = 0 then 1 else kcp.updated
    tsFlush := (kcp.nextFlush current).1 }

def update (kcp : IKCPCB) (current : UInt32) : Except Fault (IKCPCB × List Bytes) :=
  if (kcp.nextFlush current).2 then (kcp.tick current).flush else return (kcp.tick current, [])

/-- The time that `ikcp_check` finds in `snd_buf`, starting from `tm_packet`; `none` where a segment is due. -/
def checkLoop (current : UInt32) (tmPacket : Int) : List IKCPSEG → Option Int
  | [] => some tmPacket
  | seg :: segs =>
    let diff := itimediff seg.resendts current
    if diff ≤ 0 then none else checkLoop current (if diff < tmPacket then diff else tmPacket) segs

def check (kcp : IKCPCB) (current : UInt32) : UInt32 :=
  if kcp.updated = 0 then
    current
  else
    let late := itimediff current kcp.tsFlush ≥ 10000 ∨ itimediff current kcp.tsFlush < -10000
    let tsFlush := if late then current else kcp.tsFlush
    if itimediff current tsFlush ≥ 0 then
      current
    else
      let tmFlush := itimediff tsFlush current
      match checkLoop current 0x7fffffff kcp.sndBuf with
      | none => current
      | some tmPacket =>
        let minimal := UInt32.ofInt (if tmPacket < tmFlush then tmPacket else tmFlush)
        current + if minimal ≥ kcp.interval then kcp.interval else minimal

end IKCPCB

end KcpServer.Ikcp
