import KcpServer.Ikcp.Timing
import KcpServer.Kcp.DealMsg

/-!
# A session with its control block

`Session` is `UDPConn` with the `IKCPCB` that `m_kcp` points to. `UDPConn` in `Kcp.Conn` has a queue of messages in its
place, and `Session.conn` forgets all but such a queue.

* `onDealMsg_conn` : `OnDealMsg` does the same on both;
* `deals_refine` : whatever the datagrams are, what a run of a session does is what a run on messages does.
-/

namespace KcpServer.Ikcp
open Lib

def READ_BUFF_SIZE : ℕ := 4 * 1024

/-- The payload is one message and nothing else. -/
def OneMsg (payload : Bytes) : Prop := payload.length = 16 + leNat (payload.take 4)

instance (payload : Bytes) : Decidable (OneMsg payload) := inferInstanceAs (Decidable (_ = _))

/-- `UDPConn`, with its control block. -/
structure Session where
  kcp : Option IKCPCB
  conv : Int
  fd : Int
  id : Int
  bread : Bool
  cacheBuf : Block BUFF_CACHE_SIZE
  offset : ℕ
  bind : Bool
  bornTick : ℕ

namespace Session

/-- `UDPConn::UDPConn`, which sets none of the fields. -/
def new : Session := ⟨none, 0, 0, 0, false, .zero BUFF_CACHE_SIZE, 0, false, 0⟩

/-- How `UDPConn::init` sets a control block up. -/
def setupKcp (conv : UInt32) : IKCPCB :=
  { ((((IKCPCB.create conv).wndsize 128 128).setNodelay 1 10 2 1).setmtu 1400).1 with stream := 1 }

/-- `UDPConn::init` on the first datagram `pbuff`; `ms` is the clock. -/
def init (c : Session) (fd id : Int) (pbuff : Bytes) (ms : ℕ) : Except Fault Session := do
  let conv ← readLE 4 pbuff 0
  let kcp := setupKcp (UInt32.ofNat conv)
  let kcp ← if pbuff.length ≠ 0 then Prod.fst <$> kcp.input pbuff else pure kcp
  return { c with
    fd, id
    offset := 0
    conv := int32 conv
    bornTick := ms
    bind := false
    bread := true
    kcp := some kcp }

/-- `UDPConn::Bind` -/
def setBind (c : Session) : Session := { c with bind := true }

/-- `UDPConn::Close` -/
def close (c : Session) : Session := { c with kcp := none }

/-- `UDPConn::Update`, with the datagrams that `out_wrapper` sends. -/
def update (c : Session) (ms : UInt32) : Except Fault (Session × List Bytes) :=
  match c.kcp with
  | none => return (c, [])
  | some kcp => do
    let (kcp, ds) ← kcp.update ms
    return ({ c with kcp := some kcp }, ds)

/-- `UDPConn::OnRead` on a datagram, of which `read` returns what fits into `m_buf`; an empty one is a `read` that finds
nothing. -/
def onRead (c : Session) (d : Bytes) : Except Fault Session :=
  match c.kcp with
  | none => .error .null
  | some kcp => do
    let (kcp, _) ← kcp.input (d.take READ_BUFF_SIZE)
    return { c with bread := true, kcp := some kcp }

/-- `UDPConn::Write`; a negative result becomes a large `size_t`. -/
def write (c : Session) (buf : Bytes) : Except Fault (Session × ℕ) :=
  match c.kcp with
  | none => return (c, buf.length)
  | some kcp => do
    let (kcp, n) ← kcp.send buf
    return ({ c with kcp := some kcp }, if n = 0 then buf.length else sizeT n)

/-- `ikcp_peeksize` of `m_kcp` -/
def peeksize (c : Session) : Except Fault Int :=
  match c.kcp with
  | none => .error .assertion
  | some kcp => return kcp.peeksize

/-- `ikcp_recv` into the cache at `m_offset`. -/
def recv (c : Session) : Except Fault (Session × Int) :=
  match c.kcp with
  | none => .error .assertion
  | some kcp => do
    let (kcp, ret, bytes) ← kcp.recv (BUFF_CACHE_SIZE - c.offset : ℕ)
    if ret < 0 then
      return ({ c with kcp := some kcp }, ret)
    else
      return ({ c with kcp := some kcp, cacheBuf := ← c.cacheBuf.memcpy c.offset bytes }, ret)

/-- The part of `UDPConn::OnDealMsg` behind `processKcp`. -/
def finishMsg (c : Session) (nread bodylen : ℕ) : Except Fault Session := do
  let len := uint32 (16 + bodylen)
  let left := sizeT (nread - len : Int)
  let cacheBuf ← c.cacheBuf.memmove 0 len left
  let c := { c with cacheBuf, offset := uint32 (c.offset + left) }
  assert (c.offset = 0)
  return c

/-- `UDPConn::OnDealMsg`: the object, the return value and the call of `processKcp`, which is taken to return. -/
def onDealMsg (c : Session) : Except Fault (Session × Int × Option KcpCall) :=
  if c.bread = false then
    return (c, 0, none)
  else do
    let c := { c with bread := false }
    let psz ← c.peeksize
    if psz ≤ 0 then
      return (c, -1, none)
    else if psz > BUFF_CACHE_SIZE then
      return (c, -2, none)
    else
      let (c, ret) ← c.recv
      let nread := sizeT ret
      let bodylen ← readLE 4 c.cacheBuf.bytes c.offset
      if bodylen > nread then
        return (c, -3, none)
      else
        let msgid ← readLE 4 c.cacheBuf.bytes (c.offset + 4)
        let ppid ← readLE 8 c.cacheBuf.bytes (c.offset + 8)
        let roomid := int32 (ppid / 2 ^ 32 : ℕ)
        let pid := int32 (ppid % 2 ^ 32 : ℕ)
        let call : KcpCall := ⟨msgid, slice c.cacheBuf.bytes (c.offset + 16) bodylen, pid, c.id, roomid⟩
        return (← c.finishMsg nread bodylen, 0, some call)

/-- What happens to a session. -/
inductive Event
  | onRead (d : Bytes)
  | update (ms : UInt32)
  | write (buf : Bytes)
  | deal

/-- Whether an event is an `OnDealMsg`; neither `Update` nor `Write` matters to it. -/
def Event.isDeal : Event → Option Bool
  | .onRead _ => some false
  | .deal => some true
  | .update _ | .write _ => none

def deals (c : Session) : List Event → Except Fault (Session × List (Int × Option KcpCall))
  | [] => return (c, [])
  | .onRead d :: es => do (← c.onRead d).deals es
  | .update ms :: es => do (← c.update ms).1.deals es
  | .write buf :: es => do (← c.write buf).1.deals es
  | .deal :: es => do
    let (c, r) ← c.onDealMsg
    let (c, rs) ← c.deals es
    return (c, r :: rs)

end Session

/-- What happens to a session that is seen as a queue of messages. -/
inductive MsgEvent
  | onRead (msgs : List Bytes)
  | deal

def MsgEvent.isDeal : MsgEvent → Bool
  | .onRead _ => false
  | .deal => true

/-- A run of `UDPConn` on messages. -/
def queueDeals (c : UDPConn) : List MsgEvent → Except Fault (UDPConn × List (Int × Option KcpCall))
  | [] => return (c, [])
  | .onRead msgs :: es => queueDeals (c.onRead msgs) es
  | .deal :: es => do
    let (c, r) ← c.onDealMsg
    let (c, rs) ← queueDeals c es
    return (c, r :: rs)

namespace Session

/-! ## The queue of messages that it is seen as -/

/-- `UDPConn` with a queue of messages in place of the control block. -/
def conn (c : Session) (msgs : List Bytes) : UDPConn where
  kcp := c.kcp.map fun _ => msgs
  conv := c.conv
  fd := c.fd
  id := c.id
  bread := c.bread
  cacheBuf := c.cacheBuf
  offset := c.offset
  bind := c.bind
  bornTick := c.bornTick

end Session

namespace IKCPCB
variable {kcp kcp' : IKCPCB}

/-- The messages that a control block can be seen as: one that is too large for the cache may be any such message, and
only the first one matters. -/
def Shows (kcp : IKCPCB) (msgs : List Bytes) : Prop :=
  (kcp.peeksize ≤ 0 ∧ msgs = []) ∨ ((BUFF_CACHE_SIZE : Int) < kcp.peeksize ∧ ∃ m, msgs = [m] ∧ BUFF_CACHE_SIZE < m.length) ∨
    (0 < kcp.peeksize ∧ kcp.peeksize ≤ BUFF_CACHE_SIZE ∧ ∃ rest, msgs = dataOf (splitMsg kcp.rcvQueue).1 :: rest)

theorem exists_shows (kcp : IKCPCB) : ∃ msgs, kcp.Shows msgs := by
  by_cases hempty : kcp.peeksize ≤ 0
  · exact ⟨[], .inl ⟨hempty, rfl⟩⟩
  by_cases hlarge : (BUFF_CACHE_SIZE : Int) < kcp.peeksize
  · refine ⟨_, .inr (.inl ⟨hlarge, List.replicate (BUFF_CACHE_SIZE + 1) 0, rfl, ?_⟩)⟩
    rw [List.length_replicate]
    exact Nat.lt_succ_self _
  · exact ⟨_, .inr (.inr ⟨not_le.mp hempty, not_lt.mp hlarge, [], rfl⟩)⟩

theorem length_of_peeksize (h : 0 ≤ kcp.peeksize) :
    kcp.rcvQueue ≠ [] ∧ ((dataOf (splitMsg kcp.rcvQueue).1).length : Int) = kcp.peeksize := by
  unfold peeksize at h ⊢
  cases hqueue : kcp.rcvQueue with
  | nil =>
    rw [hqueue] at h
    exact absurd h (show ¬ (0 : Int) ≤ -1 by decide)
  | cons seg segs =>
    rw [hqueue] at h
    refine ⟨List.cons_ne_nil _ _, ?_⟩
    dsimp only at h ⊢
    split
    · next hzero => rw [splitMsg, if_pos hzero, dataOf, List.flatMap_singleton]
    · next hzero =>
      rw [if_neg hzero] at h
      split at h
      · exact absurd h (by decide)
      · next hready => rw [if_neg hready]

theorem recv_of_peeksize (h : 0 ≤ kcp.peeksize) {len : ℕ} (hlen : kcp.peeksize ≤ len) :
    ∃ kcp', kcp.recv len = .ok (kcp', kcp.peeksize, dataOf (splitMsg kcp.rcvQueue).1) := by
  obtain ⟨hne, hsize⟩ := length_of_peeksize h
  have habs : |(len : Int)| = len := abs_of_nonneg (Int.natCast_nonneg len)
  unfold recv
  rw [if_neg hne, if_neg (by omega), if_neg (by omega)]
  dsimp only
  rw [decide_eq_true hsize, assert_true, ok_bind]
  exact ⟨_, by rw [hsize]; rfl⟩

/-! ## What a datagram leaves of `rcv_queue` -/

theorem rcvQueue_moveLoop (kcp : IKCPCB) (segs : List IKCPSEG) : kcp.rcvQueue <+: (kcp.moveLoop segs).rcvQueue := by
  induction segs generalizing kcp with
  | nil => exact List.prefix_rfl
  | cons seg segs ih =>
    unfold moveLoop
    split
    · exact (List.prefix_append _ [seg]).trans (ih (kcp.takeSeg seg))
    · exact List.prefix_rfl

theorem rcvQueue_parseData (kcp : IKCPCB) (seg : IKCPSEG) : kcp.rcvQueue <+: (kcp.parseData seg).rcvQueue := by
  unfold parseData
  split
  · exact List.prefix_rfl
  split
  · exact rcvQueue_moveLoop kcp _
  · next segs _ =>
    exact rcvQueue_moveLoop { kcp with rcvBuf := segs.reverse, nrcvBuf := kcp.nrcvBuf + 1 } segs.reverse

theorem rcvQueue_inputPush (kcp : IKCPCB) (hd : SegHeader) (data : Bytes) :
    kcp.rcvQueue <+: (kcp.inputPush hd data).rcvQueue := by
  rcases inputPush_cases kcp hd data with heq | heq | heq
  · rw [heq]
  · rw [heq]
    exact List.prefix_rfl
  · rw [heq]
    exact rcvQueue_parseData (kcp.ackPush hd.sn hd.ts) _

theorem rcvQueue_inputSeg {hd : SegHeader} {data : Bytes} {maxack maxack' : Option UInt32}
    (h : kcp.inputSeg hd data maxack = .ok (kcp', maxack')) : kcp.rcvQueue <+: kcp'.rcvQueue := by
  rcases inputSeg_rcv h with hsame | ⟨-, kcp₁, hsame, hkcp'⟩
  · rw [hsame.rcvQueue]
  · rw [hkcp', ← hsame.rcvQueue]
    exact rcvQueue_inputPush kcp₁ hd data

theorem rcvQueue_input {d : Bytes} {ret : Int} (h : kcp.input d = .ok (kcp', ret)) : kcp.rcvQueue <+: kcp'.rcvQueue := by
  refine input_keeps (P := fun kcp₁ => kcp.rcvQueue <+: kcp₁.rcvQueue) ?_ ?_ ?_ List.prefix_rfl h
  · exact fun _ _ _ _ _ _ hkcp hseg => hkcp.trans (rcvQueue_inputSeg hseg)
  · intro kcp₁ sn hkcp
    rw [(parseFastack_same kcp₁ sn).rcvQueue]
    exact hkcp
  · exact fun _ _ _ hkcp => hkcp

theorem rcvQueue_flush {ds : List Bytes} (h : kcp.flush = .ok (kcp', ds)) : kcp'.rcvQueue = kcp.rcvQueue := by
  obtain ⟨kcp₁, kcp₂, ⟨_, _, hkcp₁⟩, hkcp₂, ⟨_, _, _, _, _, _, hkcp'⟩, -⟩ := flush_emits h
  obtain ⟨_, _, _, _, _, hnumber⟩ := numberLoop_eq kcp₁ kcp.flushWnd kcp.sndQueue
  rw [hkcp', hkcp₂, hnumber, hkcp₁]

theorem rcvQueue_update {current : UInt32} {ds : List Bytes} (h : kcp.update current = .ok (kcp', ds)) :
    kcp'.rcvQueue = kcp.rcvQueue := by
  have htick : (kcp.tick current).rcvQueue = kcp.rcvQueue := rfl
  unfold update at h
  split at h
  · rw [rcvQueue_flush h, htick]
  · cases h
    exact htick

theorem splitMsg_prefix {segs segs' : List IKCPSEG} (h : segs <+: segs') : (splitMsg segs).1 <+: (splitMsg segs').1 := by
  obtain ⟨more, rfl⟩ := h
  induction segs with
  | nil => exact List.nil_prefix
  | cons seg segs ih =>
    rw [List.cons_append]
    unfold splitMsg
    split
    · exact List.prefix_rfl
    · exact (List.prefix_cons_inj seg).mpr ih

theorem peeksize_congr (hwin : kcp.Windows) (hwin' : kcp'.Windows) (h : kcp'.rcvQueue = kcp.rcvQueue) :
    kcp'.peeksize = kcp.peeksize := by
  have hnum : kcp'.nrcvQue = kcp.nrcvQue := by rw [hwin.rcv.nrcvQue, hwin'.rcv.nrcvQue, h]
  unfold peeksize
  rw [hnum, h]

theorem peeksize_le (hwin : kcp.Windows) (hwin' : kcp'.Windows) (h : kcp.rcvQueue <+: kcp'.rcvQueue)
    (hpos : 0 ≤ kcp.peeksize) : kcp.peeksize ≤ kcp'.peeksize := by
  obtain ⟨hne, hsize⟩ := length_of_peeksize hpos
  have hdata : (dataOf (splitMsg kcp.rcvQueue).1).length ≤ (dataOf (splitMsg kcp'.rcvQueue).1).length := by
    obtain ⟨more, hmore⟩ := splitMsg_prefix h
    rw [← hmore, dataOf, dataOf, List.flatMap_append, List.length_append]
    omega
  suffices 0 ≤ kcp'.peeksize by
    have hsize' := (length_of_peeksize this).2
    omega
  obtain ⟨more, hmore⟩ := h
  have hle : kcp.nrcvQue ≤ kcp'.nrcvQue := by
    have hbound := hwin.rcv.rcvWnd
    have hbound' := hwin'.rcv.rcvWnd
    have hqueue := hwin.rcv.rcvQueue
    have hqueue' := hwin'.rcv.rcvQueue
    have hlen := congrArg List.length hmore
    rw [List.length_append] at hlen
    rw [hwin.rcv.nrcvQue, hwin'.rcv.nrcvQue, UInt32.le_iff_toNat_le, UInt32.toNat_ofNat', UInt32.toNat_ofNat']
    omega
  unfold peeksize at hpos ⊢
  cases hqueue : kcp.rcvQueue with
  | nil => exact absurd hqueue hne
  | cons seg segs =>
    rw [← hmore, hqueue]
    rw [hqueue] at hpos
    dsimp only [List.cons_append] at hpos ⊢
    split
    · exact Int.natCast_nonneg _
    next hfrg =>
    rw [if_neg hfrg] at hpos
    split at hpos
    · exact absurd hpos (by decide)
    next hready =>
    rw [if_neg fun hlt => hready (UInt32.lt_of_le_of_lt hle hlt)]
    exact Int.natCast_nonneg _

end IKCPCB

namespace Session
variable {c c' : Session} {kcp : IKCPCB}

theorem finishMsg_conn (c : Session) (msgs : List Bytes) (nread bodylen : ℕ) :
    (c.conn msgs).finishMsg nread bodylen = (conn · msgs) <$> c.finishMsg nread bodylen := by
  unfold finishMsg UDPConn.finishMsg
  rw [map_bind]
  refine bind_congr fun cacheBuf => ?_
  rw [map_bind]
  rfl

theorem peeksize_conn (hkcp : c.kcp = some kcp) (m : Bytes) (msgs : List Bytes) :
    (c.conn (m :: msgs)).peeksize = .ok m.length := by
  unfold UDPConn.peeksize conn
  rw [hkcp]
  rfl

theorem conn_unread (c : Session) (msgs : List Bytes) :
    ({ c.conn msgs with bread := false } : UDPConn) = ({ c with bread := false } : Session).conn msgs := rfl

theorem peeksize_unread (hkcp : c.kcp = some kcp) : ({ c with bread := false } : Session).peeksize = .ok kcp.peeksize := by
  unfold peeksize
  rw [hkcp]
  rfl

theorem recv_unread {kcp' : IKCPCB} {ret : Int} {bytes : Bytes} (hkcp : c.kcp = some kcp)
    (hrecv : kcp.recv (BUFF_CACHE_SIZE - c.offset : ℕ) = .ok (kcp', ret, bytes)) (hret : 0 ≤ ret) :
    ({ c with bread := false } : Session).recv = c.cacheBuf.memcpy c.offset bytes >>= fun cacheBuf =>
      .ok ({ c with bread := false, kcp := some kcp', cacheBuf }, ret) := by
  unfold recv
  rw [hkcp]
  dsimp only
  rw [hrecv, ok_bind]
  dsimp only
  rw [if_neg (by omega)]
  rfl

/-- `OnDealMsg` makes of the control block what it makes of the queue. -/
theorem onDealMsg_conn {msgs : List Bytes} (hkcp : c.kcp = some kcp) (hoff : c.offset = 0) (hread : c.bread = true)
    (h : kcp.Shows msgs) :
    (c.conn msgs).onDealMsg = (fun r => (r.1.conn (UDPConn.leftOver msgs), r.2)) <$> c.onDealMsg := by
  have hread : ¬ c.bread = false := by rw [hread]; decide
  unfold onDealMsg UDPConn.onDealMsg
  rw [if_neg hread, if_neg (show ¬ (c.conn msgs).bread = false from hread)]
  dsimp only
  rw [peeksize_unread hkcp, ok_bind, conn_unread]
  rcases h with ⟨hempty, rfl⟩ | ⟨hlarge, m, rfl, hm⟩ | ⟨hpos, hfits, rest, rfl⟩
  · have hconn : (({ c with bread := false } : Session).conn []).peeksize = .ok (-1) := by
      unfold UDPConn.peeksize conn
      rw [hkcp]
      rfl
    rw [hconn, ok_bind, if_pos (by decide), if_pos hempty]
    rfl
  · rw [peeksize_conn (c := { c with bread := false }) hkcp, ok_bind, if_neg (by omega), if_pos (by omega),
      if_neg (by omega), if_pos (by omega), UDPConn.leftOver, if_pos (by omega)]
    rfl
  obtain ⟨-, hsize⟩ := IKCPCB.length_of_peeksize hpos.le
  obtain ⟨kcp', hrecv⟩ := IKCPCB.recv_of_peeksize hpos.le (show kcp.peeksize ≤ (BUFF_CACHE_SIZE - c.offset : ℕ) by omega)
  generalize IKCPCB.dataOf (IKCPCB.splitMsg kcp.rcvQueue).1 = m at hsize hrecv ⊢
  rw [peeksize_conn (c := { c with bread := false }) hkcp, ok_bind, if_neg (by omega), if_neg (by omega),
    if_neg (by omega), if_neg (by omega), UDPConn.leftOver, if_neg (by omega)]
  have hqueue : (({ c with bread := false } : Session).conn (m :: rest)).recv = c.cacheBuf.memcpy c.offset m >>=
      fun cacheBuf => .ok (({ c with bread := false, kcp := some kcp', cacheBuf } : Session).conn rest, kcp.peeksize) := by
    unfold UDPConn.recv conn
    rw [hkcp]
    dsimp only [Option.map_some]
    rw [if_neg (by omega), ← hsize]
    rfl
  rw [recv_unread hkcp hrecv hpos.le, hqueue, bind_assoc, bind_assoc, map_bind]
  refine bind_congr fun cacheBuf => ?_
  rw [ok_bind, ok_bind, map_bind]
  refine bind_congr fun bodylen => ?_
  dsimp only
  split
  · rfl
  rw [map_bind]
  refine bind_congr fun msgid => ?_
  rw [map_bind]
  refine bind_congr fun ppid => ?_
  rw [map_bind, finishMsg_conn, map_eq_pure_bind, bind_assoc]
  rfl

/-! ## One message -/

theorem conn_onDealMsg_oneMsg {c : UDPConn} {payload : Bytes} {rest : List Bytes} (hkcp : c.kcp = some (payload :: rest))
    (hread : c.bread = true) (hoff : c.offset = 0) (hn : payload.length ≤ BUFF_CACHE_SIZE) (hone : OneMsg payload) :
    ∃ c' call, c.onDealMsg = .ok (c', 0, some call) ∧ UDPConn.wholeMsg c.id payload = some call := by
  have hone : payload.length = 16 + leNat (payload.take 4) := hone
  obtain ⟨c₁, hoff₁, -, hbytes, heq⟩ := UDPConn.onDealMsg_eq hkcp hread hoff (by omega) hn
  have hcached : c.cachedLen payload = leNat (payload.take 4) := by
    rw [UDPConn.cachedLen, List.take_append_of_le_length (by omega)]
  obtain ⟨c₂, hc₂, -⟩ := UDPConn.finishMsg_ok hoff₁ hn (hcached ▸ hone)
  refine ⟨c₂, _, by rw [heq, if_neg (by omega), hc₂]; rfl, ?_⟩
  rw [UDPConn.wholeMsg, if_pos (by omega), hbytes, slice_append_left _ _ (by omega), slice_append_left _ _ (by omega),
    slice_append_left _ _ (by omega), hcached]

/-! ## What the calls do -/

/-- A session that has not been closed, between two calls. -/
structure Live (c : Session) (kcp : IKCPCB) : Prop where
  ptr : c.kcp = some kcp
  offset : c.offset = 0
  windows : kcp.Windows

theorem onRead_cases {d : Bytes} (h : Live c kcp) (hread : c.onRead d = .ok c') :
    ∃ kcp' ret, kcp.input (d.take READ_BUFF_SIZE) = .ok (kcp', ret) ∧ c' = { c with bread := true, kcp := some kcp' } ∧
      Live c' kcp' := by
  unfold onRead at hread
  rw [h.ptr] at hread
  obtain ⟨⟨kcp', ret⟩, hinput, hread⟩ := bind_eq_ok.mp hread
  cases hread
  exact ⟨kcp', ret, hinput, rfl, rfl, h.offset, IKCPCB.windows_input h.windows hinput⟩

theorem update_cases {ms : UInt32} {ds : List Bytes} (h : Live c kcp) (hupdate : c.update ms = .ok (c', ds)) :
    ∃ kcp', kcp.update ms = .ok (kcp', ds) ∧ c' = { c with kcp := some kcp' } ∧ Live c' kcp' := by
  unfold update at hupdate
  rw [h.ptr] at hupdate
  obtain ⟨⟨kcp', ds'⟩, hkcp', hupdate⟩ := bind_eq_ok.mp hupdate
  cases hupdate
  exact ⟨kcp', hkcp', rfl, rfl, h.offset, IKCPCB.windows_update h.windows hkcp'⟩

theorem write_cases {buf : Bytes} {n : ℕ} (h : Live c kcp) (hwrite : c.write buf = .ok (c', n)) :
    ∃ kcp' ret, kcp.send buf = .ok (kcp', ret) ∧ c' = { c with kcp := some kcp' } ∧ Live c' kcp' := by
  unfold write at hwrite
  rw [h.ptr] at hwrite
  obtain ⟨⟨kcp', ret⟩, hsend, hwrite⟩ := bind_eq_ok.mp hwrite
  cases hwrite
  exact ⟨kcp', ret, hsend, rfl, rfl, h.offset, IKCPCB.windows_send h.windows hsend⟩

theorem finishMsg_cases {nread bodylen : ℕ} (h : c.finishMsg nread bodylen = .ok c') :
    ∃ cacheBuf, c' = { c with cacheBuf, offset := 0 } := by
  obtain ⟨cacheBuf, -, h⟩ := bind_eq_ok.mp h
  obtain ⟨_, hassert, h⟩ := bind_eq_ok.mp h
  cases h
  have hoff := of_decide_eq_true (assert_eq_ok.mp hassert)
  dsimp only at hoff
  exact ⟨cacheBuf, by rw [hoff]⟩

/-- An `OnDealMsg` that returns has nothing to read, or it clears the flag and takes the next message, if there is one of
a size that it accepts. -/
theorem onDealMsg_cases {r : Int × Option KcpCall} (h : Live c kcp) (hdeal : c.onDealMsg = .ok (c', r)) :
    c.bread = false ∧ c' = c ∧ r = (0, none) ∨ c.bread = true ∧ ∃ kcp' cacheBuf,
      c' = { c with bread := false, kcp := some kcp', cacheBuf } ∧ Live c' kcp' ∧
        (kcp' = kcp ∧ (kcp.peeksize ≤ 0 ∨ (BUFF_CACHE_SIZE : Int) < kcp.peeksize) ∧ r.2 = none ∨
          0 < kcp.peeksize ∧ kcp.peeksize ≤ BUFF_CACHE_SIZE ∧
            kcp.recv BUFF_CACHE_SIZE = .ok (kcp', kcp.peeksize, IKCPCB.dataOf (IKCPCB.splitMsg kcp.rcvQueue).1)) := by
  have hkcp := h.ptr
  have hoff := h.offset
  unfold onDealMsg at hdeal
  split at hdeal
  · next hread =>
    cases hdeal
    exact .inl ⟨hread, rfl, rfl⟩
  next hread =>
  refine .inr ⟨Bool.not_eq_false _ ▸ hread, ?_⟩
  dsimp only at hdeal
  rw [peeksize_unread hkcp, ok_bind] at hdeal
  split at hdeal
  · next hempty =>
    cases hdeal
    exact ⟨kcp, c.cacheBuf, by rw [← hkcp], ⟨hkcp, hoff, h.windows⟩, .inl ⟨rfl, .inl hempty, rfl⟩⟩
  next hpos =>
  split at hdeal
  · next hlarge =>
    cases hdeal
    exact ⟨kcp, c.cacheBuf, by rw [← hkcp], ⟨hkcp, hoff, h.windows⟩, .inl ⟨rfl, .inr hlarge, rfl⟩⟩
  next hfits =>
  obtain ⟨⟨c₁, ret⟩, hrecv, hdeal⟩ := bind_eq_ok.mp hdeal
  obtain ⟨kcp', hrecv'⟩ :=
    IKCPCB.recv_of_peeksize (not_le.mp hpos).le (show kcp.peeksize ≤ (BUFF_CACHE_SIZE - c.offset : ℕ) by omega)
  rw [recv_unread hkcp hrecv' (not_le.mp hpos).le] at hrecv
  rw [hoff, Nat.sub_zero] at hrecv'
  have hwin := IKCPCB.windows_recv h.windows hrecv'
  obtain ⟨cacheBuf, rfl⟩ : ∃ cacheBuf, c₁ = { c with bread := false, kcp := some kcp', cacheBuf } := by
    obtain ⟨cacheBuf, -, hrecv⟩ := bind_eq_ok.mp hrecv
    cases hrecv
    exact ⟨cacheBuf, rfl⟩
  refine ⟨kcp', ?_⟩
  have hlast : 0 < kcp.peeksize ∧ kcp.peeksize ≤ BUFF_CACHE_SIZE ∧
      kcp.recv BUFF_CACHE_SIZE = .ok (kcp', kcp.peeksize, IKCPCB.dataOf (IKCPCB.splitMsg kcp.rcvQueue).1) :=
    ⟨not_le.mp hpos, not_lt.mp hfits, hrecv'⟩
  obtain ⟨bodylen, -, hdeal⟩ := bind_eq_ok.mp hdeal
  dsimp only at hdeal
  split at hdeal
  · cases hdeal
    exact ⟨cacheBuf, rfl, ⟨rfl, hoff, hwin⟩, .inr hlast⟩
  obtain ⟨msgid, -, hdeal⟩ := bind_eq_ok.mp hdeal
  obtain ⟨ppid, -, hdeal⟩ := bind_eq_ok.mp hdeal
  obtain ⟨c₂, hfinish, hdeal⟩ := bind_eq_ok.mp hdeal
  cases hdeal
  obtain ⟨cacheBuf', rfl⟩ := finishMsg_cases hfinish
  exact ⟨cacheBuf', by rw [← hoff], ⟨rfl, rfl, hwin⟩, .inr hlast⟩

theorem onDealMsg_oneMsg (h : Live c kcp) (hread : c.bread = true) (hpos : 0 < kcp.peeksize)
    (hfits : kcp.peeksize ≤ BUFF_CACHE_SIZE) (hone : OneMsg (IKCPCB.dataOf (IKCPCB.splitMsg kcp.rcvQueue).1)) :
    ∃ c' call, c.onDealMsg = .ok (c', 0, some call) ∧
      UDPConn.wholeMsg c.id (IKCPCB.dataOf (IKCPCB.splitMsg kcp.rcvQueue).1) = some call := by
  obtain ⟨-, hsize⟩ := IKCPCB.length_of_peeksize hpos.le
  have hshows : kcp.Shows [IKCPCB.dataOf (IKCPCB.splitMsg kcp.rcvQueue).1] := .inr (.inr ⟨hpos, hfits, [], rfl⟩)
  have hconn := onDealMsg_conn h.ptr h.offset hread hshows
  generalize IKCPCB.dataOf (IKCPCB.splitMsg kcp.rcvQueue).1 = payload at hone hsize hconn ⊢
  obtain ⟨u, call, hu, hwhole⟩ := conn_onDealMsg_oneMsg (c := c.conn [payload])
    (show (c.conn [payload]).kcp = some [payload] by rw [conn, h.ptr]; rfl) hread h.offset (by omega) hone
  rw [hu, map_eq_pure_bind] at hconn
  obtain ⟨r, hr, heq⟩ := bind_eq_ok.mp hconn.symm
  exact ⟨r.1, call, hr.trans (congrArg Except.ok (Prod.ext rfl (Prod.mk.inj (Except.ok.inj heq)).2)), hwhole⟩

/-- `OnDealMsg` fails on nothing but a payload that is not one message. -/
theorem onDealMsg_ok (h : Live c kcp)
    (hone : 0 < kcp.peeksize → OneMsg (IKCPCB.dataOf (IKCPCB.splitMsg kcp.rcvQueue).1)) :
    ∃ c' r, c.onDealMsg = .ok (c', r) := by
  by_cases hread : c.bread = false
  · exact ⟨_, _, if_pos hread⟩
  by_cases hempty : kcp.peeksize ≤ 0
  · refine ⟨{ c with bread := false }, (-1, none), ?_⟩
    rw [onDealMsg, if_neg hread]
    dsimp only
    rw [peeksize_unread h.ptr, ok_bind, if_pos hempty]
    rfl
  by_cases hlarge : kcp.peeksize > BUFF_CACHE_SIZE
  · refine ⟨{ c with bread := false }, (-2, none), ?_⟩
    rw [onDealMsg, if_neg hread]
    dsimp only
    rw [peeksize_unread h.ptr, ok_bind, if_neg hempty, if_pos hlarge]
    rfl
  obtain ⟨c', call, hdeal, -⟩ := onDealMsg_oneMsg h (Bool.of_not_eq_false hread) (not_le.mp hempty) (not_lt.mp hlarge)
    (hone (not_le.mp hempty))
  exact ⟨c', _, hdeal⟩

theorem setUp_setupKcp (conv : UInt32) : IKCPCB.SetUp (setupKcp conv) :=
  .stream (.setmtu (.nodelay (.wndsize (.create conv) (by decide) (by decide))) (by decide))

/-- A session begins with what its first datagram makes of a new control block. -/
theorem init_cases {c₀ : Session} {fd id : Int} {pbuff : Bytes} {ms : ℕ} (hinit : c₀.init fd id pbuff ms = .ok c) :
    ∃ kcp ret, (setupKcp (UInt32.ofNat (leNat (pbuff.take 4)))).input pbuff = .ok (kcp, ret) ∧ Live c kcp ∧ c.id = id ∧
      ∀ msgs, (c₀.conn []).init fd id pbuff msgs ms = c.conn msgs := by
  obtain ⟨conv, hconv, hinit⟩ := bind_eq_ok.mp hinit
  obtain ⟨hlen, hcut⟩ := readLE_ok hconv
  obtain rfl : conv = leNat (pbuff.take 4) := hcut
  have hsetup := (IKCPCB.SetUp.idle (setUp_setupKcp (UInt32.ofNat (leNat (pbuff.take 4))))).windows
  dsimp only at hinit
  rw [if_pos (by omega)] at hinit
  obtain ⟨kcp, hkcp, hinit⟩ := bind_eq_ok.mp hinit
  obtain ⟨ret, hinput⟩ := IKCPCB.exists_of_map_fst hkcp
  cases hinit
  refine ⟨kcp, ret, hinput, ⟨rfl, rfl, IKCPCB.windows_input hsetup hinput⟩, rfl, fun msgs => ?_⟩
  simp only [UDPConn.init, conn, Option.map_some]

/-- The messages that a session can be seen to hold, at any time: an `OnRead` that follows may add some, unless one is
there that is too large. -/
structure Ready (c : Session) (kcp : IKCPCB) (msgs : List Bytes) : Prop where
  large : (BUFF_CACHE_SIZE : Int) < kcp.peeksize → ∃ m, msgs = [m] ∧ BUFF_CACHE_SIZE < m.length
  done : kcp.peeksize ≤ BUFF_CACHE_SIZE → c.bread = false → msgs = []

theorem conn_congr (hptr : c.kcp = some kcp) (kcp' : IKCPCB) (msgs : List Bytes) :
    ({ c with kcp := some kcp' } : Session).conn msgs = c.conn msgs := by
  unfold conn
  rw [hptr]
  rfl

theorem conn_onRead (hptr : c.kcp = some kcp) (kcp' : IKCPCB) (msgs more : List Bytes) :
    (c.conn msgs).onRead more = ({ c with bread := true, kcp := some kcp' } : Session).conn (msgs ++ more) := by
  unfold UDPConn.onRead conn
  rw [hptr]
  rfl

/-- The messages can be chosen at every time. -/
theorem exists_ready (h : Live c kcp) : ∃ msgs, Ready c kcp msgs ∧
    Prod.snd <$> (c.conn msgs).onDealMsg = Prod.snd <$> c.onDealMsg := by
  cases hread : c.bread with
  | false =>
    have hnext (msgs : List Bytes) : Prod.snd <$> (c.conn msgs).onDealMsg = Prod.snd <$> c.onDealMsg := by
      rw [UDPConn.onDealMsg, if_pos (show (c.conn msgs).bread = false from hread), onDealMsg, if_pos hread]
      rfl
    by_cases hlarge : (BUFF_CACHE_SIZE : Int) < kcp.peeksize
    · refine ⟨[List.replicate (BUFF_CACHE_SIZE + 1) 0], ⟨fun _ => ⟨_, rfl, ?_⟩, fun hle => absurd hlarge (by omega)⟩,
        hnext _⟩
      rw [List.length_replicate]
      exact Nat.lt_succ_self _
    · exact ⟨[], ⟨fun hlarge' => absurd hlarge' hlarge, fun _ _ => rfl⟩, hnext _⟩
  | true =>
    obtain ⟨msgs, hshows⟩ := kcp.exists_shows
    refine ⟨msgs, ⟨fun hlarge => ?_, fun _ hdone => absurd hdone (by rw [hread]; decide)⟩, ?_⟩
    · rcases hshows with ⟨hempty, -⟩ | ⟨-, hm⟩ | ⟨-, hfits, -⟩
      · have hsize : (0 : Int) ≤ BUFF_CACHE_SIZE := Int.natCast_nonneg _
        omega
      · exact hm
      · omega
    · rw [onDealMsg_conn h.ptr h.offset hread hshows, Functor.map_map]

/-- An `OnDealMsg` takes its message from those that the session is seen to hold, and leaves the others. -/
theorem onDealMsg_back {c₁ : Session} {r : Int × Option KcpCall} (h : Live c kcp) (hdeal : c.onDealMsg = .ok (c₁, r)) :
    ∃ kcp₁, Live c₁ kcp₁ ∧ ∀ left, Ready c₁ kcp₁ left →
      ∃ msgs, Ready c kcp msgs ∧ (c.conn msgs).onDealMsg = .ok (c₁.conn left, r) := by
  rcases onDealMsg_cases h hdeal with ⟨hread, rfl, rfl⟩ | ⟨hread, kcp₁, cacheBuf, hc₁, hlive, hcases⟩
  · refine ⟨kcp, h, fun left hready => ⟨left, hready, ?_⟩⟩
    rw [UDPConn.onDealMsg, if_pos (show (c₁.conn left).bread = false from hread)]
    rfl
  have hready {msgs : List Bytes}
      (hlarge : (BUFF_CACHE_SIZE : Int) < kcp.peeksize → ∃ m, msgs = [m] ∧ BUFF_CACHE_SIZE < m.length) :
      Ready c kcp msgs := ⟨hlarge, fun _ hdone => absurd hdone (by rw [hread]; decide)⟩
  have hconn {msgs : List Bytes} (hshows : kcp.Shows msgs) :
      (c.conn msgs).onDealMsg = .ok (c₁.conn (UDPConn.leftOver msgs), r) := by
    rw [onDealMsg_conn h.ptr h.offset hread hshows, hdeal]
    rfl
  have hdone : c₁.bread = false := by rw [hc₁]
  refine ⟨kcp₁, hlive, fun left hleft => ?_⟩
  rcases hcases with ⟨rfl, hempty | hlarge, -⟩ | ⟨hpos, hfits, -⟩
  · have hsize : (0 : Int) ≤ BUFF_CACHE_SIZE := Int.natCast_nonneg _
    obtain rfl := hleft.done (by omega) hdone
    exact ⟨[], hready fun hlarge => by omega, hconn (.inl ⟨hempty, rfl⟩)⟩
  · obtain ⟨m, rfl, hm⟩ := hleft.large hlarge
    refine ⟨[m], hready fun _ => ⟨m, rfl, hm⟩, ?_⟩
    have hsame : UDPConn.leftOver [m] = [m] := if_pos (.inr hm)
    rw [hconn (.inr (.inl ⟨hlarge, m, rfl, hm⟩)), hsame]
  · obtain ⟨-, hsize⟩ := IKCPCB.length_of_peeksize hpos.le
    refine ⟨IKCPCB.dataOf (IKCPCB.splitMsg kcp.rcvQueue).1 :: left, hready fun hlarge => by omega, ?_⟩
    rw [hconn (.inr (.inr ⟨hpos, hfits, left, rfl⟩)), UDPConn.leftOver, if_neg (by omega)]

theorem exists_queueDeals {es : List Event} {rs : List (Int × Option KcpCall)} (h : Live c kcp)
    (hrun : c.deals es = .ok (c', rs)) : ∃ msgs es' u, Ready c kcp msgs ∧
      es'.map MsgEvent.isDeal = es.filterMap Event.isDeal ∧ queueDeals (c.conn msgs) es' = .ok (u, rs) ∧
      Prod.snd <$> u.onDealMsg = Prod.snd <$> c'.onDealMsg := by
  induction es generalizing c kcp rs with
  | nil =>
    cases hrun
    obtain ⟨msgs, hready, hnext⟩ := exists_ready h
    exact ⟨msgs, [], _, hready, rfl, rfl, hnext⟩
  | cons e es ih =>
    cases e with
    | onRead d =>
      obtain ⟨c₁, hread, hrun⟩ := bind_eq_ok.mp hrun
      obtain ⟨kcp₁, ret, hinput, rfl, hlive⟩ := onRead_cases h hread
      obtain ⟨msgs, es', u, hready, hkind, hqueue, hnext⟩ := ih hlive hrun
      by_cases hlarge : (BUFF_CACHE_SIZE : Int) < kcp.peeksize
      · have hle := IKCPCB.peeksize_le h.windows hlive.windows (IKCPCB.rcvQueue_input hinput) (by omega)
        obtain ⟨m, rfl, hm⟩ := hready.large (by omega)
        refine ⟨[m], .onRead [] :: es', u, ⟨fun _ => ⟨m, rfl, hm⟩, fun hle => absurd hlarge (by omega)⟩, ?_, ?_, hnext⟩
        · exact congrArg (false :: ·) hkind
        · rw [queueDeals, conn_onRead h.ptr kcp₁, List.append_nil]
          exact hqueue
      · refine ⟨[], .onRead msgs :: es', u, ⟨fun hlarge' => absurd hlarge' hlarge, fun _ _ => rfl⟩, ?_, ?_, hnext⟩
        · exact congrArg (false :: ·) hkind
        · rw [queueDeals, conn_onRead h.ptr kcp₁, List.nil_append]
          exact hqueue
    | update ms =>
      obtain ⟨⟨c₁, ds⟩, hupdate, hrun⟩ := bind_eq_ok.mp hrun
      obtain ⟨kcp₁, hkcp₁, rfl, hlive⟩ := update_cases h hupdate
      obtain ⟨msgs, es', u, hready, hkind, hqueue, hnext⟩ := ih hlive hrun
      have hsize := IKCPCB.peeksize_congr h.windows hlive.windows (IKCPCB.rcvQueue_update hkcp₁)
      rw [conn_congr h.ptr] at hqueue
      exact ⟨msgs, es', u, ⟨hsize ▸ hready.large, hsize ▸ hready.done⟩, hkind, hqueue, hnext⟩
    | write buf =>
      obtain ⟨⟨c₁, n⟩, hwrite, hrun⟩ := bind_eq_ok.mp hrun
      obtain ⟨kcp₁, ret, hsend, rfl, hlive⟩ := write_cases h hwrite
      obtain ⟨msgs, es', u, hready, hkind, hqueue, hnext⟩ := ih hlive hrun
      have hsame : kcp₁.rcvQueue = kcp.rcvQueue := by
        obtain ⟨_, _, rfl⟩ := IKCPCB.send_eq hsend
        rfl
      have hsize := IKCPCB.peeksize_congr h.windows hlive.windows hsame
      rw [conn_congr h.ptr] at hqueue
      exact ⟨msgs, es', u, ⟨hsize ▸ hready.large, hsize ▸ hready.done⟩, hkind, hqueue, hnext⟩
    | deal =>
      obtain ⟨⟨c₁, r⟩, hdeal, hrun⟩ := bind_eq_ok.mp hrun
      obtain ⟨⟨c₂, rs₂⟩, hrest, hrun⟩ := bind_eq_ok.mp hrun
      cases hrun
      obtain ⟨kcp₁, hlive, hback⟩ := onDealMsg_back h hdeal
      obtain ⟨left, es', u, hready, hkind, hqueue, hnext⟩ := ih hlive hrest
      obtain ⟨msgs, hready', hconn⟩ := hback left hready
      refine ⟨msgs, .deal :: es', u, hready', congrArg (true :: ·) hkind, ?_, hnext⟩
      rw [queueDeals, hconn, ok_bind]
      dsimp only
      rw [hqueue]
      rfl

/-- Whatever the datagrams are, and whenever `Update` and `Write` are called, the `OnDealMsg` calls of a session do what
they do for a queue of messages, with as many `OnRead`s in the same places; and the next one does, or fails likewise. -/
theorem deals_refine {c₀ : Session} {fd id : Int} {pbuff : Bytes} {ms : ℕ} {es : List Event}
    {rs : List (Int × Option KcpCall)} (hinit : c₀.init fd id pbuff ms = .ok c) (hrun : c.deals es = .ok (c', rs)) :
    ∃ msgs es' u, es'.map MsgEvent.isDeal = es.filterMap Event.isDeal ∧
      queueDeals ((c₀.conn []).init fd id pbuff msgs ms) es' = .ok (u, rs) ∧
      Prod.snd <$> u.onDealMsg = Prod.snd <$> c'.onDealMsg := by
  obtain ⟨kcp, -, -, hlive, -, hconn⟩ := init_cases hinit
  obtain ⟨msgs, es', u, -, hkind, hqueue, hnext⟩ := exists_queueDeals hlive hrun
  exact ⟨msgs, es', u, hkind, by rw [hconn]; exact hqueue, hnext⟩

/-- Command 2000 of player 5 in room 1, without a body, and the datagram that brings it. -/
def firstCommand : Bytes := [0, 0, 0, 0, 208, 7, 0, 0, 5, 0, 0, 0, 1, 0, 0, 0]

def firstDatagram : Bytes :=
  [7, 0, 0, 0, 81, 0, 32, 0, 0, 0, 0, 0, 0, 0, 0, 0, 0, 0, 0, 0, 16, 0, 0, 0] ++ firstCommand

theorem deals_firstCommand : ∃ c c' call, new.init 3 1 firstDatagram 0 = .ok c ∧
    c.deals [.deal, .update 0, .deal] = .ok (c', [(0, some call), (0, none)]) := by
  have hinput : ((setupKcp 7).input firstDatagram).toOption.any (fun r => decide (r.1.peeksize = 16 ∧
      IKCPCB.dataOf (IKCPCB.splitMsg r.1.rcvQueue).1 = firstCommand)) = true := by
    decide +kernel
  obtain ⟨kcp, ret, hinput, hsize, hdata⟩ : ∃ kcp ret, (setupKcp 7).input firstDatagram = .ok (kcp, ret) ∧
      kcp.peeksize = 16 ∧ IKCPCB.dataOf (IKCPCB.splitMsg kcp.rcvQueue).1 = firstCommand := by
    obtain ⟨r, hr, hq⟩ := exists_ok_of_any hinput
    exact ⟨r.1, r.2, hr, of_decide_eq_true hq⟩
  obtain ⟨c, hinit, hptr, hoff, hread⟩ : ∃ c : Session, new.init 3 1 firstDatagram 0 = .ok c ∧ c.kcp = some kcp ∧
      c.offset = 0 ∧ c.bread = true := by
    unfold init
    rw [show readLE 4 firstDatagram 0 = .ok 7 from rfl, ok_bind]
    dsimp only
    rw [if_pos (by decide), show UInt32.ofNat 7 = 7 from rfl, hinput]
    exact ⟨_, rfl, rfl, rfl, rfl⟩
  obtain ⟨kcp', -, -, hlive, -⟩ := init_cases hinit
  obtain rfl : kcp = kcp' := Option.some.inj (hptr.symm.trans hlive.ptr)
  -- the first call
  obtain ⟨c₁, call, hdeal, -⟩ := onDealMsg_oneMsg hlive hread (by rw [hsize]; decide) (by rw [hsize]; decide)
    (by rw [hdata]; decide)
  rcases onDealMsg_cases hlive hdeal with ⟨hread', -⟩ | ⟨-, kcp₁, cacheBuf, hc₁, hlive₁, -⟩
  · exact absurd hread' (by rw [hread]; decide)
  have hread₁ : c₁.bread = false := by rw [hc₁]
  -- the others
  obtain ⟨kcp₂, ds, hupdate, -⟩ := IKCPCB.update_ok hlive₁.windows 0
  refine ⟨c, { c₁ with kcp := some kcp₂ }, call, hinit, ?_⟩
  have hlast : ({ c₁ with kcp := some kcp₂ } : Session).deals [.deal] =
      .ok ({ c₁ with kcp := some kcp₂ }, [(0, none)]) := by
    rw [deals, onDealMsg, if_pos (show ({ c₁ with kcp := some kcp₂ } : Session).bread = false from hread₁)]
    rfl
  have hupdate₁ : c₁.update 0 = .ok ({ c₁ with kcp := some kcp₂ }, ds) := by
    rw [update, hlive₁.ptr]
    dsimp only
    rw [hupdate]
    rfl
  rw [deals, hdeal, ok_bind]
  dsimp only
  rw [deals, hupdate₁, ok_bind, hlast]
  rfl

theorem deals_refine_firstCommand : ∃ c c' call, new.init 3 1 firstDatagram 0 = .ok c ∧
    c.deals [.deal, .update 0, .deal] = .ok (c', [(0, some call), (0, none)]) ∧
    ∃ msgs es' u, es'.map MsgEvent.isDeal = [true, true] ∧
      queueDeals ((new.conn []).init 3 1 firstDatagram msgs 0) es' = .ok (u, [(0, some call), (0, none)]) ∧
      Prod.snd <$> u.onDealMsg = Prod.snd <$> c'.onDealMsg := by
  obtain ⟨c, c', call, hinit, hrun⟩ := deals_firstCommand
  exact ⟨c, c', call, hinit, hrun, deals_refine hinit hrun⟩

end Session

end KcpServer.Ikcp
