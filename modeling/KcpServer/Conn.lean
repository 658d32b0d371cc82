import KcpServer.RecvBuff

/-!
# `conn`: the connections accepted over TCP

`ConnObj` is `connObj` with its two subclasses `connNetObj` (clients of a net node, header of a length and a message
id) and `connRpcObj` (the net node seen from a game node, header of a length). Their `parseBuff`s are one loop,
`parseLoop`, over how long the header is and how a frame is handed on.

What a call does outside of its object is returned with its result: messages handed to `dealMsg` or `dealRpcMsg`, the
descriptors for which `appendConnClose` queues a `QUIT_CONN`, bytes written to the socket, and how `send` ended.
-/

namespace KcpServer
open Lib

def BUFFER_SIZE : Nat := 32 * 1024

def RECV_BUFFER_SIZE : Nat := 4 * 1024

/-- The two subclasses of `connObj`. -/
inductive ConnKind
  | net
  | rpc
  deriving DecidableEq

/-- What `parseBuff` hands to `dealMsg` or `dealRpcMsg`. -/
inductive Msg
  | net (m : MsgObj)
  | rpc (o : RpcObj)

structure ConnObj where
  kind : ConnKind
  fd : Int
  pid : Int
  rpc : Bool
  bclose : Bool
  lastSec : Int
  remoteAddr : Block 64
  psendBuf : Bytes
  sendBufCap : Nat
  sendBufOffset : Nat
  sendBufLen : Nat
  netBuffer : Block RECV_BUFFER_SIZE
  netOffset : Nat
  readOffset : Nat
  chkReadZero : Bool

namespace ConnObj

/-- `connObj::connObj`, with what the constructors of the subclasses add. -/
def new (kind : ConnKind) (fd : Int) : ConnObj where
  kind := kind
  fd := fd
  pid := 0
  rpc := false
  bclose := false
  lastSec := 0
  remoteAddr := .zero 64
  psendBuf := List.replicate BUFFER_SIZE 0
  sendBufCap := BUFFER_SIZE
  sendBufOffset := 0
  sendBufLen := 0
  netBuffer := .zero RECV_BUFFER_SIZE
  netOffset := 0
  readOffset := 0
  chkReadZero := true

/-- `connObj::SetPid` -/
def setPid (c : ConnObj) (pid : Int) : ConnObj := { c with pid }

/-- `connObj::SetRpc` -/
def setRpc (c : ConnObj) : ConnObj := { c with rpc := true }

/-- `connNetObj::IsTimeout`, `connRpcObj::IsTimeout` -/
def isTimeout (c : ConnObj) (nowsec : Int) : Bool :=
  match c.kind with
  | .net => c.lastSec ≠ 0 ∧ nowsec - c.lastSec ≥ 11
  | .rpc => false

/-! ## Reading -/

/-- `connObj::_OnRead`: the object, the return value and the descriptors to be closed. -/
def _onRead (c : ConnObj) (r : ReadRes) : Except Fault (ConnObj × Int × List Int) :=
  if c.bclose then
    return (c, 0, [])
  else
    match r with
    | .error => return (c, 0, [c.fd])
    | .again => return ({ c with chkReadZero := true }, 1, [])
    | .data bs => do
      let c := { c with netBuffer := ← c.netBuffer.memcpy c.netOffset bs }
      let count := bs.length
      if count = 0 ∧ c.chkReadZero then
        return (c, 0, [c.fd])
      else if count + c.netOffset < BUFFER_SIZE then
        return ({ c with chkReadZero := false, netOffset := c.netOffset + count }, 3, [])
      else if count + c.netOffset = BUFFER_SIZE then
        return ({ c with chkReadZero := false, netOffset := c.netOffset + count }, 4, [])
      else
        return (c, 0, [])

/-- What the loop of `parseBuff` leaves behind. -/
structure ParseOut where
  netBuffer : Block RECV_BUFFER_SIZE
  netOffset : Nat
  readOffset : Nat
  msgs : List Msg
  quit : Bool

/-- The loop of both `parseBuff`s. The header is `h + 4` bytes long, its first four are the body's length; `deal` is what
is done with the frame that starts at an offset of the buffer. -/
def parseLoop (h : Nat) (deal : Bytes → Nat → Except Fault Msg) (netBuffer : Block RECV_BUFFER_SIZE)
    (netOffset readOffset : Nat) : Except Fault ParseOut :=
  if _hlt : netOffset - readOffset < h + 4 then do
    -- the loop moves the rest to the front, and leaves the read offset where it was
    let netBuffer ← netBuffer.memmove 0 readOffset (netOffset - readOffset)
    return ⟨netBuffer, netOffset - readOffset, readOffset, [], false⟩
  else do
    let size ← readLE 4 netBuffer.bytes readOffset
    if netOffset - (h + 4) - readOffset < size then
      return ⟨netBuffer, netOffset, readOffset, [], false⟩
    else if size ≥ 64 * 1024 then
      return ⟨netBuffer, netOffset, readOffset, [], true⟩
    else
      let m ← deal netBuffer.bytes readOffset
      let out ← parseLoop h deal netBuffer netOffset (readOffset + (size + (h + 4)))
      return { out with msgs := m :: out.msgs }
termination_by netOffset - readOffset
decreasing_by omega

/-- `msgObj::init` on the header and body at `p` -/
def dealNet (m : Bytes) (p : Nat) : Except Fault Msg := do
  let bodylen ← readLE 4 m p
  let msgid ← readLE 4 m (p + 4)
  return .net ⟨msgid, bodylen, ← readAt m (p + 8) bodylen⟩

/-- `rpcObj::decodeBuffer` of a new `rpcObj` on the frame at `p`; `addr` is the block that `new char[]` returns. -/
def dealRpc (addr : Nat) (m : Bytes) (p : Nat) : Except Fault Msg := .rpc <$> RpcObj.new.decodeBuffer m p addr

end ConnObj

def ConnKind.extra : ConnKind → Nat
  | .net => 4
  | .rpc => 0

def ConnKind.deal : ConnKind → Nat → Bytes → Nat → Except Fault Msg
  | .net, _ => ConnObj.dealNet
  | .rpc, addr => ConnObj.dealRpc addr

namespace ConnObj

/-- `connNetObj::parseBuff`, `connRpcObj::parseBuff`; `sec` is the clock. -/
def parseBuff (addr : Nat) (sec : Int) (c : ConnObj) : Except Fault (Bool × ConnObj × List Msg × List Int) :=
  if c.netOffset = 0 then
    return (false, c, [], [])
  else do
    let out ← parseLoop c.kind.extra (c.kind.deal addr) c.netBuffer c.netOffset 0
    let c := { c with
      lastSec := sec
      netBuffer := out.netBuffer
      netOffset := out.netOffset
      readOffset := out.readOffset }
    return (true, c, out.msgs, if out.quit then [c.fd] else [])

/-- `connObj::resetBuffer` -/
def resetBuffer (c : ConnObj) : Except Fault ConnObj :=
  if c.netOffset ≤ c.readOffset then
    return { c with netOffset := 0 }
  else do
    let netBuffer ← c.netBuffer.memmove 0 c.readOffset (c.netOffset - c.readOffset)
    return { c with netBuffer, netOffset := c.netOffset - c.readOffset }

/-- What one `OnRead` does: the object, the return value, the messages handed on and the descriptors to be closed. -/
structure ReadOut where
  conn : ConnObj
  ret : Int
  msgs : List Msg
  quits : List Int

/-- `connObj::OnRead` -/
def onRead (addr : Nat) (sec : Int) (c : ConnObj) (r : ReadRes) : Except Fault ReadOut :=
  if c.bclose then
    return ⟨c, 0, [], []⟩
  else do
    let (c, ret, quits) ← c._onRead r
    let bret := if ret = 0 ∨ ret = 1 then 0 else 1
    let (parsed, c, msgs, quits') ← c.parseBuff addr sec
    let bret := if !parsed ∧ sec - c.lastSec ≥ 5 then 0 else bret
    return ⟨← c.resetBuffer, bret, msgs, quits ++ quits'⟩

def pending (c : ConnObj) : Bytes := c.netBuffer.bytes.take c.netOffset

/-! ## Writing -/

/-- How a `send` ends: with nothing to do or everything written, with `AddWriteConn`, or with `appendConnClose`. -/
inductive SendEnd
  | done
  | addWrite
  | quit
  deriving DecidableEq

/-- What one `send` does: the object, how it ended, the bytes written and the answers of `write` left. -/
structure SendOut where
  conn : ConnObj
  result : SendEnd
  bytes : Bytes
  answers : List WriteRes

/-- The loop of `connObj::send` over the answers of `write`; an answer is missing when the call has not returned yet. -/
def writeLoop (c : ConnObj) : List WriteRes → Except Fault SendOut
  | [] => .error .diverge
  | .again :: ws => return ⟨c, .addWrite, [], ws⟩
  | .error :: ws => return ⟨c, .quit, [], ws⟩
  | .wrote k :: ws => do
    let nowSize := min (c.sendBufLen - c.sendBufOffset) SEND_SIZE
    let s := wroteCount k nowSize
    assert (s > 0 ∧ s ≤ nowSize)
    let bytes ← readAt c.psendBuf c.sendBufOffset s
    if c.sendBufOffset + s ≥ c.sendBufLen then
      return ⟨{ c with sendBufOffset := 0, sendBufLen := 0 }, .done, bytes, ws⟩
    else
      let out ← writeLoop { c with sendBufOffset := c.sendBufOffset + s } ws
      return { out with bytes := bytes ++ out.bytes }

/-- The part of `connObj::send` that stores the buffer. -/
def store (c : ConnObj) (buf : Bytes) : Except Fault ConnObj :=
  if buf.length > c.sendBufCap - c.sendBufLen then do
    let leftSize := c.sendBufLen - c.sendBufOffset
    let newSize := buf.length + leftSize
    if newSize ≥ 2 ^ 31 then
      .error .overflow
    else
      let left ← readAt c.psendBuf c.sendBufOffset leftSize
      return { c with psendBuf := left ++ buf, sendBufOffset := 0, sendBufCap := newSize, sendBufLen := newSize }
  else do
    let psendBuf ← writeAt c.psendBuf c.sendBufLen buf
    return { c with psendBuf, sendBufLen := c.sendBufLen + buf.length }

/-- `connObj::send`; `none` is a null `buf`, which is sent with size 0. -/
def send (c : ConnObj) (buf : Option Bytes) (ws : List WriteRes) : Except Fault SendOut :=
  if c.bclose then
    return ⟨c, .done, [], ws⟩
  else if (buf.getD []).length = 0 ∧ c.sendBufLen = 0 then
    return ⟨c, .done, [], ws⟩
  else do
    let c ← buf.elim (pure c) c.store
    c.writeLoop ws

end ConnObj

end KcpServer
