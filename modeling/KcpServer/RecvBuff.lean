import KcpServer.Sock

/-!
# `recvBuff`: RPC records and the send cache

`RpcMsg` is what a caller passes to an RPC; `encodeBuffer` lays it out in a send cache and `decodeBuffer` reads it back
out of a receive buffer. The layout, offsets relative to the record:

| 0 | 4 | 5 | key | target | param | result | pid | msgid | bodylen | body |
|---|---|---|---|---|---|---|---|---|---|---|
| length of the rest | type 0 | one length byte in front of each string | | | | | 8 | 4 | 4 | |
-/

namespace KcpServer
open Lib

def RPC_BUFF_SIZE : Nat := 4 * 1024 * 1024

theorem RPC_BUFF_SIZE_eq : RPC_BUFF_SIZE = 4194304 := rfl

/-! ## `msgObj` -/

/-- `msgObj`: the words its two pointers point to and the bytes behind `m_pBody`. -/
structure MsgObj where
  msgid : Nat
  bodylen : Nat
  body : Bytes

/-! ## `rpcObj` -/

/-- Where `m_pBuff` points: nowhere, to `m_buff`, or to a block that `new char[]` returned. -/
inductive BodyPtr
  | null
  | buff
  | heap (addr : Nat) (block : Bytes)

/-- `rpcObj` -/
structure RpcObj where
  target : Block 512
  key : Block 512
  param : Block 1024
  result : Block 512
  buff : Block 256
  msgType : Nat
  pid : Nat
  msgid : Nat
  pBuff : BodyPtr
  bodyLen : Nat

namespace RpcObj

/-- `rpcObj::init` -/
def init (_o : RpcObj) : RpcObj where
  target := .zero 512
  key := .zero 512
  param := .zero 1024
  result := .zero 512
  buff := .zero 256
  msgType := 0
  pid := 0
  msgid := 0
  pBuff := .null
  bodyLen := 0

/-- `rpcObj::rpcObj` -/
def new : RpcObj where
  target := .zero 512
  key := .zero 512
  param := .zero 1024
  result := .zero 512
  buff := .zero 256
  msgType := 0
  pid := 0
  msgid := 0
  pBuff := .null
  bodyLen := 0

/-- `init` leaves nothing of what the object held. -/
theorem init_eq_new (o : RpcObj) : o.init = new := rfl

/-- The bytes `getBodyPtr` points to, `getBodylen` of them. -/
def body (o : RpcObj) : Bytes :=
  match o.pBuff with
  | .null => []
  | .buff => o.buff.bytes.take o.bodyLen
  | .heap _ block => block.take o.bodyLen

/-- `rpcObj::decodeBuffer(m + p)`; `addr` is the block that `new char[]` returns if it is called. -/
def decodeBuffer (o : RpcObj) (m : Bytes) (p : Nat) (addr : Nat) : Except Fault RpcObj := do
  let body := p + 4
  let msgType ← readLE 1 m body
  assert (msgType = 0)
  let len ← readLE 1 m (body + 1)
  let key ← o.key.memcpy 0 (← readAt m (body + 2) len)
  let lenTar ← readLE 1 m (body + 2 + len)
  let target ← o.target.memcpy 0 (← readAt m (body + 3 + len) lenTar)
  let lenPa ← readLE 1 m (body + 3 + len + lenTar)
  let param ← o.param.memcpy 0 (← readAt m (body + 4 + len + lenTar) lenPa)
  let lenRes ← readLE 1 m (body + 4 + len + lenTar + lenPa)
  -- copied from the length byte on, where every other string is copied from behind it
  let result ← o.result.memcpy 0 (← readAt m (body + 4 + len + lenTar + lenPa) lenRes)
  let pid ← readLE 8 m (body + 5 + len + lenTar + lenPa + lenRes)
  let msgid ← readLE 4 m (body + 5 + len + lenTar + lenPa + lenRes + 8)
  let bodyLen ← readLE 4 m (body + 5 + len + lenTar + lenPa + lenRes + 8 + 4)
  let o := { o with msgType, key, target, param, result, pid, msgid, bodyLen }
  if bodyLen = 0 then
    return o
  let bytes ← readAt m (body + 5 + len + lenTar + lenPa + lenRes + 8 + 4 + 4) bodyLen
  if bodyLen > 256 then
    return { o with pBuff := .heap addr bytes }
  else
    return { o with buff := ← o.buff.memcpy 0 bytes, pBuff := .buff }

end RpcObj

/-! ## Encoding -/

/-- `netServer::m_name`, an array of 32 bytes. -/
structure ServerName extends CStr where
  length_le : toCStr.length ≤ 31

/-- The arguments of an RPC call: the function's name, the ids and the body. Every caller passes a literal as the name,
far shorter than the 255 bytes that its length byte can count. -/
structure RpcMsg where
  target : CStr
  pid : UInt64
  msgid : UInt32
  body : Bytes
  target_le : target.length ≤ 255
  body_lt : body.length < 2 ^ 32

theorem noBody_lt : ([] : Bytes).length < 2 ^ 32 := by simp

/-- The constant `result` string of every record. -/
def defres : CStr := ⟨[100, 101, 102, 114, 101, 115], by simp⟩

/-- What `decodeBuffer` takes for that string: its length byte and all but its last character. -/
def shiftedRes : CStr := ⟨[6, 100, 101, 102, 114, 101], by simp⟩

/-- The constant `key` string of every record. -/
def noKey : CStr := ⟨[], by simp⟩

/-- `rpcObj::getRpcSize`; `name` is the server's name. -/
def getRpcSize (name : ServerName) (m : RpcMsg) : Nat :=
  (1 + 1 + noKey.length + 1 + m.target.length + 1 + name.length + 1 + defres.length + 8 + 4 + 4 + m.body.length) % 2 ^ 32

/-- `rpcObj::encodeBuffer(mem + p, ..)`: the block written to and the number of bytes reported. -/
def encodeBuffer {n : Nat} (name : ServerName) (mem : Block n) (p : Nat) (m : RpcMsg) : Except Fault (Block n × Nat) := do
  let mem ← mem.memcpy (p + 4) [0]
  -- a length byte holds `strlen` modulo 256, and as many bytes are copied
  let len := noKey.length % 256
  let mem ← mem.memcpy (p + 4 + 1) (le 1 len)
  let mem ← mem.memcpy (p + 4 + 2) (noKey.bytes.take len)
  let len1 := m.target.length % 256
  let mem ← mem.memcpy (p + 4 + 2 + len) (le 1 len1)
  let mem ← mem.memcpy (p + 4 + 3 + len) (m.target.bytes.take len1)
  let lenpa := name.length % 256
  let mem ← mem.memcpy (p + 4 + 3 + len + len1) (le 1 lenpa)
  let mem ← mem.memcpy (p + 4 + 4 + len + len1) (name.bytes.take lenpa)
  let lenres := defres.length % 256
  let mem ← mem.memcpy (p + 4 + 4 + len1 + len + lenpa) (le 1 lenres)
  let mem ← mem.memcpy (p + 4 + 5 + len1 + len + lenpa) (defres.bytes.take lenres)
  let mem ← mem.memcpy (p + 4 + 5 + len1 + len + lenpa + lenres) (le 8 m.pid.toNat)
  let mem ← mem.memcpy (p + 4 + 5 + len1 + len + lenpa + lenres + 8) (le 4 m.msgid.toNat)
  let mem ← mem.memcpy (p + 4 + 5 + len1 + len + lenpa + lenres + 8 + 4) (le 4 m.body.length)
  let mem ← mem.memcpy (p + 4 + 5 + len1 + len + lenpa + lenres + 8 + 4 + 4) m.body
  let size := getRpcSize name m
  let mem ← mem.memcpy p (le 4 size)
  return (mem, size + 4)

/-! ## `sendCache` -/

/-- `sendCache` -/
structure SendCache where
  mem : Block RPC_BUFF_SIZE
  offset : Nat
  uid : Nat

namespace SendCache

/-- `sendCache::sendCache`, `uid` being the next value of `g_guid`. -/
def new (uid : Nat) : SendCache := ⟨.zero RPC_BUFF_SIZE, 0, uid⟩

/-- `sendCache::init` -/
def init (c : SendCache) : SendCache := { c with mem := .zero RPC_BUFF_SIZE, offset := 0 }

/-- `sendCache::getLeftSize`, an `unsigned` difference. -/
def getLeftSize (c : SendCache) : Nat := uint32 (RPC_BUFF_SIZE - c.offset : Int)

/-- `sendCache::updateOffset` -/
def updateOffset (c : SendCache) (val : Nat) : SendCache := { c with offset := uint32 (c.offset + val : Int) }

theorem getLeftSize_eq {c : SendCache} (h : c.offset ≤ RPC_BUFF_SIZE) :
    c.getLeftSize = RPC_BUFF_SIZE - c.offset := by
  simp only [getLeftSize, uint32, RPC_BUFF_SIZE_eq] at h ⊢
  omega

/-- The `while` loop of `sendCache::dosend` over the bytes not yet written, with the answers of `write` it has still
to see: the return value, the bytes written and the answers left. An answer is missing when the call has not
returned yet. -/
def dosendLoop : Bytes → List WriteRes → Except Fault (Int × Bytes × List WriteRes)
  | [], ws => .ok (0, [], ws)
  | _ :: _, [] => .error .diverge
  | b :: bs, .again :: ws => dosendLoop (b :: bs) ws
  | _ :: _, .error :: ws => .ok (-1, [], ws)
  | b :: bs, .wrote k :: ws => do
    let s := wroteCount k (min (b :: bs).length SEND_SIZE)
    let (ret, out, ws) ← dosendLoop ((b :: bs).drop s) ws
    return (ret, (b :: bs).take s ++ out, ws)
termination_by structural _ ws => ws

/-- `sendCache::dosend` : the cache, the return value, the bytes written and the answers of `write` left. -/
def dosend (c : SendCache) (ws : List WriteRes) : Except Fault (SendCache × Int × Bytes × List WriteRes) := do
  let (ret, out, ws) ← dosendLoop (c.mem.bytes.take c.offset) ws
  return (if ret = 0 then c.updateOffset c.offset else c, ret, out, ws)

end SendCache

end KcpServer
