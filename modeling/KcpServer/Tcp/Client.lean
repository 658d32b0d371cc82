import KcpServer.SendQueue
import KcpServer.Lib.Heap
import KcpServer.Lib.Map

/-!
# `tcpclient`: the connections to other nodes

A `TcpClient` reads RPC records into its receive buffer (`onRead`), cuts them out of it (`dealReadBuffer`), hands them
to the RPC handler (`handleRpcObj`) and sends through a `SendQueue`. `TcpClientMgr` finds the clients by name and by
descriptor, and reconnects one whose socket has failed (`delConn`).

What the kernel answers is a parameter: the bytes that `read` delivers, the descriptor that `socket` returns. The thread
waits in `doconnect` until `connect` succeeds.
-/

namespace KcpServer
open Lib

/-- `"TakeProxy"`, sent first on every connection. -/
def takeProxy : RpcMsg :=
  ⟨⟨[84, 97, 107, 101, 80, 114, 111, 120, 121], by simp⟩, 0, 0, [], by decide, noBody_lt⟩

structure TcpClient where
  name : CStr
  ip : CStr
  port : Int
  bNet : Bool
  sock : Int
  recvBuffer : Block RPC_BUFF_SIZE
  recvOffset : Nat
  queRpcObj : List RpcObj
  send : SendQueue

namespace TcpClient

/-- `tcpclient::tcpclient`; it leaves `m_sock` and the bytes of `m_recvBuffer` as they are. -/
def new (name ip : CStr) (port : Int) (bNet : Bool) (sock : Int) (recvBuffer : Block RPC_BUFF_SIZE) : TcpClient where
  name := name
  ip := ip
  port := port
  bNet := bNet
  sock := sock
  recvBuffer := recvBuffer
  recvOffset := 0
  queRpcObj := []
  send := .new

/-- `tcpclient::initSock`, `fd` being what `socket` returns. -/
def initSock (c : TcpClient) (fd : Int) : TcpClient := { c with sock := fd }

/-- `tcpclient::AppendSend` -/
def appendSend (name : ServerName) (s : SendPool) (c : TcpClient) (m : RpcMsg) : Except Fault (SendPool × TcpClient) := do
  let (s, send) ← c.send.appendSend name s m
  return (s, { c with send })

/-- `tcpclient::doconnect`, once `connect` succeeds. -/
def doconnect (name : ServerName) (s : SendPool) (c : TcpClient) : Except Fault (SendPool × TcpClient) :=
  c.appendSend name s takeProxy

theorem doconnect_new (c : TcpClient) (hsend : c.send = .new) : ∃ p, p.offset = recordSize game1 takeProxy ∧
    c.doconnect game1 ⟨[], 0⟩ = .ok (⟨[], 1⟩, { c with send := ⟨some p, []⟩ }) := by
  obtain ⟨p, happ, hoff⟩ := SendQueue.appendSend_new game1 (m := takeProxy) (by decide)
  refine ⟨p, hoff, ?_⟩
  simp only [doconnect, appendSend, hsend, happ]
  rfl

/-- `tcpclient::OnClose` -/
def onClose (name : ServerName) (s : SendPool) (c : TcpClient) (force : Bool) (fd : Int) :
    Except Fault (SendPool × TcpClient) :=
  if force then
    return (s, c)
  else
    (c.initSock fd).doconnect name s

/-- `gate1` as the constructor leaves it. -/
def gate1New : TcpClient := .new ⟨[103, 97, 116, 101, 49], by simp⟩ ⟨[], noNul_nil⟩ 20000 false 0 (.zero RPC_BUFF_SIZE)

/-! ## Receiving -/

/-- `tcpclient::OnRead`: the client, the return value, and whether `DelConn(m_sock)` is called. A full buffer is not
read into. -/
def onRead (c : TcpClient) (r : ReadRes) : Except Fault (TcpClient × Int × Bool) :=
  if c.recvOffset ≥ RPC_BUFF_SIZE then
    return (c, 1, false)
  else
    match r with
    | .error => return (c, -1, true)
    | .again => return (c, 1, false)
    | .data bs => do
      let recvBuffer ← c.recvBuffer.memcpy c.recvOffset bs
      if bs.length = 0 then
        return (c, -1, true)
      else
        return ({ c with recvBuffer, recvOffset := c.recvOffset + bs.length }, 2, false)

/-- What the loop of `dealReadBuffer` leaves behind: the offset, the pool, the objects pushed to `m_queRpcObj` and the
next block that `new char[]` returns. -/
structure DealOut where
  offset : Int
  pool : List RpcObj
  objs : List RpcObj
  addr : Nat

/-- The loop of `tcpclient::dealReadBuffer` over the first `recvOffset` bytes of `m`. It looks at one offset after
another, so a run of more steps than there are offsets comes back to one and does not end. -/
def dealReadLoop (decode : RpcObj → Bytes → Nat → Nat → Except Fault RpcObj) (m : Bytes) (recvOffset : Nat) :
    Nat → Int → List RpcObj → Nat → Except Fault DealOut
  | 0, _, _, _ => .error .diverge
  | fuel + 1, offset, pool, addr =>
    let left := recvOffset - offset
    if left < 4 then
      return ⟨offset, pool, [], addr⟩
    else if offset < 0 then
      .error .bounds
    else do
      -- the length is read as an `int`
      let bodylen := int32 (← readLE 4 m offset.toNat)
      if 4 + bodylen ≥ 2 ^ 31 then
        .error .overflow
      else if left < 4 + bodylen then
        return ⟨offset, pool, [], addr⟩
      else
        let (p, pool) := popRpcobj pool
        let p ← decode p m offset.toNat addr
        let out ← dealReadLoop decode m recvOffset fuel (offset + (4 + bodylen)) pool (addr + 1)
        return { out with objs := p :: out.objs }

/-- `tcpclient::dealReadBuffer` -/
def dealReadBuffer (c : TcpClient) (pool : List RpcObj) (addr : Nat) : Except Fault (TcpClient × List RpcObj × Nat) :=
  if c.recvOffset = 0 then
    return (c, pool, addr)
  else do
    let out ← dealReadLoop RpcObj.decodeBuffer c.recvBuffer.bytes c.recvOffset (c.recvOffset + 1) 0 pool addr
    let left := (c.recvOffset - out.offset).toNat
    let recvBuffer ← c.recvBuffer.memmove 0 out.offset.toNat left
    return ({ c with recvBuffer, recvOffset := left, queRpcObj := c.queRpcObj ++ out.objs }, out.pool, out.addr)

/-- `tcpclient::handleRpcObj`: the client, the pool and the objects handed to the RPC handler. -/
def handleRpcObj (c : TcpClient) (pool : List RpcObj) : TcpClient × List RpcObj × List RpcObj :=
  ({ c with queRpcObj := [] }, c.queRpcObj.foldl pushRpcobj pool, c.queRpcObj)

/-- The received bytes that have not been parsed. -/
def pending (c : TcpClient) : Bytes := c.recvBuffer.bytes.take c.recvOffset

end TcpClient

/-! ## The manager -/

/-- `tcpclientMgr`; the second map holds pointers. -/
structure TcpClientMgr where
  mapTcpClient : Std.TreeMap Bytes Int
  mapFdTcpClient : Std.TreeMap Int Nat
  clients : Heap TcpClient
  sendPool : SendPool
  rpcPool : List RpcObj

namespace TcpClientMgr

def new : TcpClientMgr where
  mapTcpClient := ∅
  mapFdTcpClient := ∅
  clients := .replicate 0 (.new ⟨[], noNul_nil⟩ ⟨[], noNul_nil⟩ 0 false 0 (.zero _))
  sendPool := ⟨[], 0⟩
  rpcPool := []

/-- `tcpclientMgr::getTcpClientByFd` -/
def getTcpClientByFd (g : TcpClientMgr) (fd : Int) : Option Nat := g.mapFdTcpClient[fd]?

/-- `tcpclientMgr::getTcpClient` -/
def getTcpClient (g : TcpClientMgr) (name : Bytes) : Option Nat := g.mapTcpClient[name]?.bind g.getTcpClientByFd

/-- `tcpclientMgr::createTcpclient`; `client` is the new object and `fd` what `socket` returns. -/
def createTcpclient (name : ServerName) (g : TcpClientMgr) (client : TcpClient) (fd : Int) :
    Except Fault TcpClientMgr := do
  let (sendPool, c) ← (client.initSock fd).doconnect name g.sendPool
  let (p, clients) := g.clients.alloc c
  return { g with
    sendPool
    clients
    mapTcpClient := g.mapTcpClient.insert client.name.bytes c.sock
    mapFdTcpClient := g.mapFdTcpClient.insert c.sock p }

/-- `tcpclientMgr::DelConn`; `newFd` is what `socket` returns. -/
def delConn (name : ServerName) (g : TcpClientMgr) (fd newFd : Int) : Except Fault (TcpClientMgr × Bool) :=
  match g.mapFdTcpClient[fd]? with
  | none => return (g, false)
  | some p => do
    let (sendPool, c) ← (g.clients p).onClose name g.sendPool false newFd
    return ({ g with sendPool, clients := g.clients.set p c }, true)

theorem new_alloc (c : TcpClient) : (new.clients.alloc c).2 0 = c := Heap.alloc_self _ _

theorem createTcpclient_gate1 : ∃ p : SendCache, p.offset = recordSize game1 takeProxy ∧
    new.createTcpclient game1 TcpClient.gate1New 5 = .ok
      { new with
        mapTcpClient := new.mapTcpClient.insert TcpClient.gate1New.name.bytes 5
        mapFdTcpClient := new.mapFdTcpClient.insert 5 0
        clients := (new.clients.alloc { TcpClient.gate1New with sock := 5, send := ⟨some p, []⟩ }).2
        sendPool := ⟨[], 1⟩ } := by
  obtain ⟨p, hoff, hconn⟩ := TcpClient.doconnect_new (TcpClient.gate1New.initSock 5) rfl
  refine ⟨p, hoff, ?_⟩
  simp only [createTcpclient, show new.sendPool = ⟨[], 0⟩ from rfl, hconn]
  rfl

end TcpClientMgr

end KcpServer
