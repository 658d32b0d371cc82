import KcpServer.Lib.Memory

/-!
# `UDPConn`: a KCP session

The `ikcp` control block is seen through what it hands over: `m_kcp` is null, or the queue of byte strings that
`ikcp_recv` will return, one a call. Which strings these are is up to the client.

`onDealMsg` follows `UDPConn::OnDealMsg` up to its call of `processKcp` and from there on; `KcpCall` is that call.
-/

namespace KcpServer
open Lib

def BUFF_CACHE_SIZE : Nat := 16 * 1024

def KCP_CONN_TIMEOUT_MS : Nat := 1000 * 20

def sizeT (n : Int) : Nat := (n % 2 ^ 64).toNat

/-- `UDPConn` -/
structure UDPConn where
  kcp : Option (List Bytes)
  conv : Int
  fd : Int
  id : Int
  bread : Bool
  cacheBuf : Block BUFF_CACHE_SIZE
  offset : Nat
  bind : Bool
  bornTick : Nat

/-- A call of `rpcGameHandle::processKcp`. The body is what the message's pointer and length show of the cache. -/
structure KcpCall where
  msgid : Nat
  body : Bytes
  pid : Int
  sessid : Int
  roomid : Int
  deriving DecidableEq

namespace UDPConn

/-- `UDPConn::UDPConn`; the constructor sets none of the fields, `init` does before any of them is read. -/
def new : UDPConn := ⟨none, 0, 0, 0, false, .zero BUFF_CACHE_SIZE, 0, false, 0⟩

/-- `UDPConn::init`; `msgs` is what `ikcp_input` makes of the first datagram `pbuff`, `ms` is the clock. The cache keeps
what it held. -/
def init (c : UDPConn) (fd id : Int) (pbuff : Bytes) (msgs : List Bytes) (ms : Nat) : UDPConn :=
  { c with
    fd, id
    offset := 0
    conv := int32 (leNat (pbuff.take 4))
    bornTick := ms
    bind := false
    bread := true
    kcp := some msgs }

/-- `UDPConn::Bind` -/
def setBind (c : UDPConn) : UDPConn := { c with bind := true }

/-- `UDPConn::Close` -/
def close (c : UDPConn) : UDPConn := { c with kcp := none }

/-- `UDPConn::OnRead` on a datagram of which `ikcp_input` makes `msgs`. -/
def onRead (c : UDPConn) (msgs : List Bytes) : UDPConn := { c with bread := true, kcp := c.kcp.map (· ++ msgs) }

/-- `UDPConn::OnCheckTimeout` -/
def onCheckTimeout (c : UDPConn) (ms : Nat) : Bool := !c.bind ∧ uint32 (ms - c.bornTick : Int) > KCP_CONN_TIMEOUT_MS

def peeksize (c : UDPConn) : Except Fault Int :=
  match c.kcp with
  | none => .error .assertion
  | some [] => return -1
  | some (m :: _) => return m.length

/-- `ikcp_recv` into the cache at `m_offset`: the object and the number of bytes, or the negative error. -/
def recv (c : UDPConn) : Except Fault (UDPConn × Int) :=
  match c.kcp with
  | none => .error .assertion
  | some [] => return (c, -1)
  | some (m :: ms) =>
    if m.length > BUFF_CACHE_SIZE - c.offset then
      return (c, -3)
    else do
      return ({ c with kcp := some ms, cacheBuf := ← c.cacheBuf.memcpy c.offset m }, m.length)

/-- The part of `UDPConn::OnDealMsg` behind `processKcp`. -/
def finishMsg (c : UDPConn) (nread bodylen : Nat) : Except Fault UDPConn := do
  -- the sum is one of `unsigned`s
  let len := uint32 (16 + bodylen)
  let left := sizeT (nread - len : Int)
  let cacheBuf ← c.cacheBuf.memmove 0 len left
  let c := { c with cacheBuf, offset := uint32 (c.offset + left) }
  assert (c.offset = 0)
  return c

/-- `UDPConn::OnDealMsg`: the object, the return value and the call of `processKcp`, which is taken to return. -/
def onDealMsg (c : UDPConn) : Except Fault (UDPConn × Int × Option KcpCall) :=
  if c.bread = false then
    return (c, 0, none)
  else do
    let c := { c with bread := false }
    let psz ← c.peeksize
    if psz ≤ 0 then
      return (c, -1, none)
    else if psz > BUFF_CACHE_SIZE then
      return (c, -2, none)
    else
      let (c, ret) ← c.recv
      -- a negative result becomes a large `size_t`
      let nread := sizeT ret
      let bodylen ← readLE 4 c.cacheBuf.bytes c.offset
      if bodylen > nread then
        return (c, -3, none)
      else
        let msgid ← readLE 4 c.cacheBuf.bytes (c.offset + 4)
        let ppid ← readLE 8 c.cacheBuf.bytes (c.offset + 8)
        let roomid := int32 (ppid / 2 ^ 32 : Nat)
        let pid := int32 (ppid % 2 ^ 32 : Nat)
        let call : KcpCall := ⟨msgid, slice c.cacheBuf.bytes (c.offset + 16) bodylen, pid, c.id, roomid⟩
        return (← c.finishMsg nread bodylen, 0, some call)

end UDPConn

end KcpServer
