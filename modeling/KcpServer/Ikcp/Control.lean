import KcpServer.Ikcp.Segment

/-!
# The control block

`IKCPCB` with the calls of its user: `ikcp_create` and the settings, `ikcp_send`, `ikcp_peeksize` and `ikcp_recv`. What is
to be sent waits in `snd_queue` until it gets a number and goes to `snd_buf`; what comes waits in `rcv_buf` until it is
its turn and goes to `rcv_queue`.
-/

namespace KcpServer.Ikcp
open Lib

/-- `IKCPCB`. The acknowledgements to be sent are pairs of a number and the time that came with it, and `ackcount` is
their number. -/
structure IKCPCB where
  conv : UInt32
  mtu : UInt32
  mss : UInt32
  state : UInt32
  sndUna : UInt32
  sndNxt : UInt32
  rcvNxt : UInt32
  ssthresh : UInt32
  rxRttval : Int
  rxSrtt : Int
  rxRto : Int
  rxMinrto : Int
  sndWnd : UInt32
  rcvWnd : UInt32
  rmtWnd : UInt32
  cwnd : UInt32
  probe : UInt32
  current : UInt32
  interval : UInt32
  tsFlush : UInt32
  xmit : UInt32
  nrcvBuf : UInt32
  nsndBuf : UInt32
  nrcvQue : UInt32
  nsndQue : UInt32
  nodelay : UInt32
  updated : UInt32
  tsProbe : UInt32
  probeWait : UInt32
  deadLink : UInt32
  incr : UInt32
  sndQueue : List IKCPSEG
  rcvQueue : List IKCPSEG
  sndBuf : List IKCPSEG
  rcvBuf : List IKCPSEG
  acklist : List (UInt32 × UInt32)
  fastresend : Int
  nocwnd : Int
  stream : Int
  deriving DecidableEq

/-- What the settings of a control block are; nothing else changes them. -/
structure Config where
  conv : UInt32
  mtu : UInt32
  mss : UInt32
  sndWnd : UInt32
  rcvWnd : UInt32
  interval : UInt32
  nodelay : UInt32
  deadLink : UInt32
  rxMinrto : Int
  fastresend : Int
  nocwnd : Int
  stream : Int
  deriving DecidableEq

namespace IKCPCB

def config (kcp : IKCPCB) : Config :=
  ⟨kcp.conv, kcp.mtu, kcp.mss, kcp.sndWnd, kcp.rcvWnd, kcp.interval, kcp.nodelay, kcp.deadLink, kcp.rxMinrto,
    kcp.fastresend, kcp.nocwnd, kcp.stream⟩

def create (conv : UInt32) : IKCPCB where
  conv
  sndUna := 0
  sndNxt := 0
  rcvNxt := 0
  tsProbe := 0
  probeWait := 0
  sndWnd := IKCP_WND_SND
  rcvWnd := IKCP_WND_RCV
  rmtWnd := IKCP_WND_RCV
  cwnd := 0
  incr := 0
  probe := 0
  mtu := IKCP_MTU_DEF
  mss := IKCP_MTU_DEF - 24
  stream := 0
  sndQueue := []
  rcvQueue := []
  sndBuf := []
  rcvBuf := []
  nrcvBuf := 0
  nsndBuf := 0
  nrcvQue := 0
  nsndQue := 0
  state := 0
  acklist := []
  rxSrtt := 0
  rxRttval := 0
  rxRto := IKCP_RTO_DEF
  rxMinrto := IKCP_RTO_MIN
  current := 0
  interval := IKCP_INTERVAL
  tsFlush := IKCP_INTERVAL
  nodelay := 0
  updated := 0
  ssthresh := IKCP_THRESH_INIT
  fastresend := 0
  nocwnd := 0
  xmit := 0
  deadLink := IKCP_DEADLINK

/-! ## Settings -/

def setmtu (kcp : IKCPCB) (mtu : Int) : IKCPCB × Int :=
  if mtu < 50 then (kcp, -1) else ({ kcp with mtu := UInt32.ofInt mtu, mss := UInt32.ofInt mtu - 24 }, 0)

/-- How `ikcp_interval` and `ikcp_nodelay` bound an interval. -/
def boundInterval (interval : Int) : UInt32 :=
  if interval > 5000 then 5000 else if interval < 10 then 10 else UInt32.ofInt interval

/-- `ikcp_nodelay` -/
def setNodelay (kcp : IKCPCB) (nodelay interval resend nc : Int) : IKCPCB :=
  let kcp := if nodelay ≥ 0 then { kcp with
    nodelay := UInt32.ofInt nodelay
    rxMinrto := if nodelay ≠ 0 then IKCP_RTO_NDL else IKCP_RTO_MIN } else kcp
  let kcp := if interval ≥ 0 then { kcp with interval := boundInterval interval } else kcp
  let kcp := if resend ≥ 0 then { kcp with fastresend := resend } else kcp
  if nc ≥ 0 then { kcp with nocwnd := nc } else kcp

def wndsize (kcp : IKCPCB) (sndwnd rcvwnd : Int) : IKCPCB :=
  let kcp := if sndwnd > 0 then { kcp with sndWnd := UInt32.ofInt sndwnd } else kcp
  if rcvwnd > 0 then { kcp with rcvWnd := UInt32.ofInt rcvwnd } else kcp

def waitsnd (kcp : IKCPCB) : UInt32 := kcp.nsndBuf + kcp.nsndQue

/-! ## Receiving -/

/-- The segments of the first message, and those behind it: up to the first one with `frg` 0. -/
def splitMsg : List IKCPSEG → List IKCPSEG × List IKCPSEG
  | [] => ([], [])
  | seg :: segs => if seg.frg = 0 then ([seg], segs) else (seg :: (splitMsg segs).1, (splitMsg segs).2)

def dataOf (segs : List IKCPSEG) : Bytes := segs.flatMap IKCPSEG.data

def peeksize (kcp : IKCPCB) : Int :=
  match kcp.rcvQueue with
  | [] => -1
  | seg :: _ =>
    if seg.frg = 0 then
      seg.data.length
    else if kcp.nrcvQue < seg.frg + 1 then
      -1
    else
      (dataOf (splitMsg kcp.rcvQueue).1).length

def takeSeg (kcp : IKCPCB) (seg : IKCPSEG) : IKCPCB :=
  { kcp with
    nrcvBuf := kcp.nrcvBuf - 1
    rcvQueue := kcp.rcvQueue ++ [seg]
    nrcvQue := kcp.nrcvQue + 1
    rcvNxt := kcp.rcvNxt + 1 }

/-- The loop of `ikcp_recv` and `ikcp_parse_data` that moves segments from `rcv_buf` to `rcv_queue`. -/
def moveLoop (kcp : IKCPCB) : List IKCPSEG → IKCPCB
  | [] => { kcp with rcvBuf := [] }
  | seg :: segs =>
    if seg.sn = kcp.rcvNxt ∧ kcp.nrcvQue < kcp.rcvWnd then
      moveLoop (kcp.takeSeg seg) segs
    else
      { kcp with rcvBuf := seg :: segs }

def moveData (kcp : IKCPCB) : IKCPCB := kcp.moveLoop kcp.rcvBuf

/-- The first message is taken out of `rcv_queue`; with a negative `len` it is only looked at. -/
def popMsg (kcp : IKCPCB) (len : Int) : IKCPCB :=
  if len < 0 then kcp else { kcp with
    rcvQueue := (splitMsg kcp.rcvQueue).2
    nrcvQue := kcp.nrcvQue - UInt32.ofNat (splitMsg kcp.rcvQueue).1.length }

/-- The window is to be told if it was closed and is open again. -/
def tellWnd (kcp : IKCPCB) (recover : Prop) [Decidable recover] : IKCPCB :=
  if kcp.nrcvQue < kcp.rcvWnd ∧ recover then { kcp with probe := kcp.probe ||| IKCP_ASK_TELL } else kcp

/-- `ikcp_recv` into a buffer of `len` bytes: the return value, and the bytes that are copied into the buffer. -/
def recv (kcp : IKCPCB) (len : Int) : Except Fault (IKCPCB × Int × Bytes) :=
  if kcp.rcvQueue = [] then
    return (kcp, -1, [])
  else if kcp.peeksize < 0 then
    return (kcp, -2, [])
  else if kcp.peeksize > |len| then
    return (kcp, -3, [])
  else do
    let buffer := dataOf (splitMsg kcp.rcvQueue).1
    assert (buffer.length = kcp.peeksize)
    return ((kcp.popMsg len).moveData.tellWnd (kcp.nrcvQue ≥ kcp.rcvWnd), buffer.length, buffer)

/-! ## Sending -/

/-- The loop of `ikcp_send` that cuts a message into `count` segments. -/
def fragment (kcp : IKCPCB) : Nat → Bytes → List IKCPSEG
  | 0, _ => []
  | i + 1, buffer =>
    { frg := if kcp.stream = 0 then UInt32.ofNat i else 0, data := buffer.take kcp.mss.toNat } ::
      fragment kcp i (buffer.drop kcp.mss.toNat)

/-- How many segments `ikcp_send` makes of a message. -/
def fragCount (kcp : IKCPCB) (len : Nat) : Nat :=
  if len ≤ kcp.mss.toNat then 1 else (len + kcp.mss.toNat - 1) / kcp.mss.toNat

/-- How many bytes of a message go into the last segment of the queue, in stream mode. -/
def extend (kcp : IKCPCB) (len : Nat) : Nat :=
  if kcp.stream = 0 then 0
  else
    match kcp.sndQueue.getLast? with
    | none => 0
    | some old => min len (kcp.mss.toNat - old.data.length)

/-- The part of `ikcp_send` that appends to the last segment, in stream mode. -/
def appendLast (kcp : IKCPCB) (buffer : Bytes) : IKCPCB :=
  if kcp.stream = 0 then kcp
  else
    match kcp.sndQueue.getLast? with
    | none => kcp
    | some old =>
      if old.data.length < kcp.mss.toNat then
        { kcp with sndQueue := kcp.sndQueue.dropLast ++
          [{ frg := 0, data := old.data ++ buffer.take (kcp.extend buffer.length) }] }
      else
        kcp

/-- A message goes to `snd_queue`, cut into `count` segments. -/
def pushMsg (kcp : IKCPCB) (count : Nat) (buffer : Bytes) : IKCPCB :=
  { kcp with
    sndQueue := kcp.sndQueue ++ kcp.fragment count buffer
    nsndQue := kcp.nsndQue + UInt32.ofNat count }

def send (kcp : IKCPCB) (buffer : Bytes) : Except Fault (IKCPCB × Int) := do
  assert (kcp.mss > 0)
  let rest := buffer.drop (kcp.extend buffer.length)
  let kcp := kcp.appendLast buffer
  if kcp.stream ≠ 0 ∧ rest = [] then
    return (kcp, 0)
  else
    let count := kcp.fragCount rest.length
    if count > 255 then return (kcp, -2) else return (kcp.pushMsg count rest, 0)

end IKCPCB

end KcpServer.Ikcp
