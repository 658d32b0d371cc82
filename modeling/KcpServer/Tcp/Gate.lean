import KcpServer.SendPath

/-!
# `rpcCallGate`

A game node sends to the client `gate1`. In every state that the send caches can be in, `Sendable` is the exact condition
under which an append completes, and `Refused` the one under which it fails its assertion.

* `senders` : the clients' queues and the pool, as the runs of `SendPath` see them;
* `waiting_reach` : what holds of them in every state of the manager;
* `rpcCallGate_ok_iff`, `rpcCallGate_assertion_iff` : how a call ends.
-/

namespace KcpServer
open Lib

/-! ## How an append ends -/

/-- A record of `size` bytes is written behind the others, or into a new cache: `left` bytes are left of the current
one. -/
def Sendable (size left : Nat) : Prop := size ≤ left ∨ (left + 4 < size ∧ size ≤ RPC_BUFF_SIZE)

/-- Without its length word the record fills what is left exactly, or is no smaller than a cache. -/
def Refused (rpcSize left : Nat) : Prop := rpcSize = left ∨ RPC_BUFF_SIZE ≤ rpcSize

namespace SendQueue
variable {s : SendPool} {q : SendQueue}

theorem appendSend_ok_iff (name : ServerName) (m : RpcMsg) (hs : s.Clean) (hq : q.Bounded) :
    (∃ sq, q.appendSend name s m = .ok sq) ↔ Sendable (recordSize name m) q.left := by
  have hR := RPC_BUFF_SIZE_eq
  have hle := q.left_le
  by_cases hfit : recordSize name m ≤ RPC_BUFF_SIZE
  · have hsize := getRpcSize_add_four name m (by omega)
    have hnear : q.NearEnd name m ↔ ¬ Sendable (recordSize name m) q.left := by
      unfold NearEnd Sendable
      omega
    constructor
    · rintro ⟨sq, h⟩
      by_contra hnot
      obtain ⟨e, he⟩ := appendSend_error (s := s) hq hfit (hnear.mpr hnot)
      rw [h] at he
      cases he
    · intro hsend
      obtain ⟨s', q', h, -⟩ := appendSend_ok hs hq hfit fun hne => hnear.mp hne hsend
      exact ⟨(s', q'), h⟩
  · have hnot : ¬ Sendable (recordSize name m) q.left := by
      unfold Sendable
      omega
    refine ⟨?_, fun hsend => absurd hsend hnot⟩
    rintro ⟨⟨s', q'⟩, h⟩
    obtain ⟨-, c, c', hput, -⟩ := appendSend_cases hs h
    have hroom := putRecord_fits hput
    omega

/-- The assertion is on the size without the length word. -/
theorem putRecord_eq_assertion {name : ServerName} {c : SendCache} {m : RpcMsg} :
    putRecord name c m = .error .assertion ↔ c.getLeftSize ≤ getRpcSize name m := by
  constructor
  · intro h
    rcases bind_eq_error h with h | ⟨_, -, h⟩
    · by_contra hlt
      rw [decide_eq_true (not_le.mp hlt)] at h
      cases h
    · by_cases hfit : c.offset + recordSize name m ≤ RPC_BUFF_SIZE
      · obtain ⟨mem, henc, -⟩ := encodeBuffer_ok c.mem hfit
        rw [henc] at h
        cases h
      · rw [encodeBuffer_error c.mem (not_le.mp hfit)] at h
        cases h
  · intro hle
    rw [putRecord, decide_eq_false (not_lt.mpr hle)]
    rfl

theorem appendSend_assertion_iff (name : ServerName) (m : RpcMsg) (hs : s.Clean) (hq : q.Bounded) :
    q.appendSend name s m = .error .assertion ↔ Refused (getRpcSize name m) q.left := by
  have hput : ∀ {c : SendCache} {s' : SendPool} {queue : List SendCache},
      (putRecord name c m >>= fun c => pure (s', (⟨some c, queue⟩ : SendQueue))) = .error .assertion ↔
        c.getLeftSize ≤ getRpcSize name m := by
    intro c s' queue
    rw [← putRecord_eq_assertion]
    cases putRecord name c m with
    | ok c' => constructor <;> intro h <;> cases h
    | error e =>
      show Except.error e = _ ↔ Except.error e = _
      rw [Except.error.injEq, Except.error.injEq]
  have h0 := SendPool.popSendcache_offset hs
  have hpop := SendCache.getLeftSize_eq (c := s.popSendcache.1) (by omega)
  unfold Refused
  obtain ⟨p, queue⟩ := q
  cases p with
  | none =>
    -- a record too large for the first cache is tried in a second one
    rw [appendSend, left]
    dsimp only
    by_cases hrot : getRpcSize name m > s.popSendcache.1.getLeftSize
    · have h0' := SendPool.popSendcache_offset (SendPool.clean_pop hs)
      have hpop' := SendCache.getLeftSize_eq (c := s.popSendcache.2.popSendcache.1) (by omega)
      rw [if_pos hrot]
      dsimp only
      rw [hput]
      omega
    · rw [if_neg hrot]
      dsimp only
      rw [hput]
      omega
  | some c =>
    obtain ⟨hc, -⟩ := bounded_mk.mp hq
    have hleft := SendCache.getLeftSize_eq hc
    rw [appendSend, left]
    dsimp only
    by_cases hrot : getRpcSize name m > c.getLeftSize
    · rw [if_pos hrot]
      dsimp only
      rw [hput]
      omega
    · rw [if_neg hrot]
      dsimp only
      rw [hput]
      omega

end SendQueue

/-! ## The manager -/

/-- `tcpclient::dealSend`; `newFd` is what `socket` returns if a failed write reconnects the client. -/
def TcpClient.dealSend (name : ServerName) (s : SendPool) (c : TcpClient) (ws : List WriteRes) (f : AfterFail)
    (newFd : Int) : Except Fault (SendPool × TcpClient) := do
  let ((s, send), ret, _) ← c.send.dealSend (f.onFail name) s ws
  let c := { c with send }
  match f with
  | .closed => return (s, c)
  | .reconnected => return (s, if ret = -1 then c.initSock newFd else c)

namespace TcpClientMgr

def gate1 : Bytes := [103, 97, 116, 101, 49]

/-- `tcpclientMgr::rpcCallGate` -/
def rpcCallGate (name : ServerName) (g : TcpClientMgr) (m : RpcMsg) : Except Fault TcpClientMgr :=
  match g.getTcpClient gate1 with
  | none => return g
  | some p => do
    let (sendPool, c) ← (g.clients p).appendSend name g.sendPool m
    return { g with sendPool, clients := g.clients.set p c }

/-- What is left of the cache that the next call of `rpcCallGate` looks at, if there is a client. -/
def gateLeft (g : TcpClientMgr) : Option Nat := (g.getTcpClient gate1).map fun p => (g.clients p).send.left

theorem gateLeft_le {g : TcpClientMgr} {left : Nat} (h : g.gateLeft = some left) : left ≤ RPC_BUFF_SIZE := by
  obtain ⟨p, -, rfl⟩ := Option.map_eq_some_iff.mp h
  exact SendQueue.left_le _

/-- What happens to the clients and to the pool, which the `connRpcObj`s use as well. -/
inductive LinkOp
  | create (name ip : CStr) (port : Int) (bNet : Bool) (recvBuffer : Block RPC_BUFF_SIZE) (fd : Int)
  | delConn (fd newFd : Int)
  | appendSend (p : Nat) (m : RpcMsg)
  | dealSend (p : Nat) (ws : List WriteRes) (f : AfterFail) (newFd : Int)
  | popSendcache
  | pushSendcache (c : SendCache)

def linkStep (name : ServerName) (g : TcpClientMgr) : LinkOp → Except Fault TcpClientMgr
  | .create cname ip port bNet recvBuffer fd => g.createTcpclient name (.new cname ip port bNet 0 recvBuffer) fd
  | .delConn fd newFd => do return (← g.delConn name fd newFd).1
  | .appendSend p m => do
    let (sendPool, c) ← (g.clients p).appendSend name g.sendPool m
    return { g with sendPool, clients := g.clients.set p c }
  | .dealSend p ws f newFd => do
    let (sendPool, c) ← (g.clients p).dealSend name g.sendPool ws f newFd
    return { g with sendPool, clients := g.clients.set p c }
  | .popSendcache => return { g with sendPool := g.sendPool.popSendcache.2 }
  | .pushSendcache c => return { g with sendPool := g.sendPool.pushSendcache c }

/-- The queues of the clients and the pool. -/
def senders (g : TcpClientMgr) : SendWorld Nat := ⟨g.sendPool, fun p => (g.clients p).send⟩

theorem senders_set (g : TcpClientMgr) (p : Nat) (s : SendPool) (c : TcpClient) :
    senders { g with sendPool := s, clients := g.clients.set p c } = g.senders.set p (s, c.send) := by
  show (⟨s, TcpClient.send ∘ Function.update g.clients.at' p c⟩ : SendWorld Nat) = _
  rw [Function.comp_update]
  rfl

theorem waiting_appendSend {name : ServerName} {g : TcpClientMgr} (hg : g.senders.Waiting) {p : Nat} {m : RpcMsg}
    {s : SendPool} {c : TcpClient} (h : (g.clients p).appendSend name g.sendPool m = .ok (s, c)) :
    (senders { g with sendPool := s, clients := g.clients.set p c }).Waiting := by
  obtain ⟨sq, happ, h⟩ := bind_eq_ok.mp h
  cases h
  rw [senders_set]
  exact (SendWorld.waiting_append (i := p) hg happ).1

theorem waiting_createTcpclient {name : ServerName} {g g' : TcpClientMgr} (hg : g.senders.Waiting) {client : TcpClient}
    (hnew : client.send = .new) {fd : Int} (h : g.createTcpclient name client fd = .ok g') : g'.senders.Waiting := by
  obtain ⟨⟨s, c⟩, hconn, h⟩ := bind_eq_ok.mp h
  obtain ⟨⟨s', q⟩, happ, hconn⟩ := bind_eq_ok.mp hconn
  cases hconn
  cases h
  rw [TcpClient.initSock, hnew] at happ
  obtain ⟨hs, hb, -, hf⟩ := SendQueue.appendSend_inv hg.clean (fun _ hc => by cases hc) happ
  have hset : (g.senders.set g.clients.next (s, q)).Waiting := hg.set _ hs hb (hf SendQueue.filled_new)
  rwa [← senders_set g g.clients.next s { client with sock := fd, send := q }] at hset

/-- A reconnected client sends `TakeProxy` behind what it has still to send. -/
theorem waiting_delConn {name : ServerName} {g g' : TcpClientMgr} (hg : g.senders.Waiting) {fd newFd : Int} {b : Bool}
    (h : g.delConn name fd newFd = .ok (g', b)) : g'.senders.Waiting := by
  unfold delConn at h
  split at h
  · cases h
    exact hg
  · next p hp =>
    obtain ⟨⟨s, c⟩, hclose, h⟩ := bind_eq_ok.mp h
    cases h
    rw [TcpClient.onClose, if_neg Bool.false_ne_true] at hclose
    obtain ⟨sq, happ, hclose⟩ := bind_eq_ok.mp hclose
    cases hclose
    rw [senders_set]
    exact (SendWorld.waiting_append (i := p) hg happ).1

theorem waiting_step {name : ServerName} {g g' : TcpClientMgr} (hg : g.senders.Waiting) {o : LinkOp}
    (h : g.linkStep name o = .ok g') : g'.senders.Waiting := by
  cases o with
  | create cname ip port bNet recvBuffer fd => exact waiting_createTcpclient hg rfl h
  | delConn fd newFd =>
    obtain ⟨⟨g₁, b⟩, hdel, h⟩ := bind_eq_ok.mp h
    cases h
    exact waiting_delConn hg hdel
  | appendSend p m =>
    obtain ⟨⟨s, c⟩, happ, h⟩ := bind_eq_ok.mp h
    cases h
    exact waiting_appendSend hg happ
  | dealSend p ws f newFd =>
    obtain ⟨⟨s, c⟩, hdeal, h⟩ := bind_eq_ok.mp h
    cases h
    obtain ⟨⟨⟨s', q⟩, ret, out⟩, hdeal, hc⟩ := bind_eq_ok.mp hdeal
    obtain ⟨hs, hb, hf⟩ := SendQueue.dealSend_inv hg.clean (hg.bounded p) (hg.filled p) hdeal
    have hc' : s = s' ∧ c.send = q := by
      cases f with
      | closed =>
        cases hc
        exact ⟨rfl, rfl⟩
      | reconnected =>
        cases hc
        refine ⟨rfl, ?_⟩
        split <;> rfl
    obtain ⟨rfl, rfl⟩ := hc'
    rw [senders_set]
    exact hg.set p hs hb hf
  | popSendcache =>
    cases h
    exact ⟨SendPool.clean_pop hg.clean, hg.bounded, hg.filled⟩
  | pushSendcache c =>
    cases h
    exact ⟨SendPool.clean_push hg.clean c, hg.bounded, hg.filled⟩

theorem waiting_reach {name : ServerName} {g : TcpClientMgr} (h : Reach (linkStep name) (fun _ _ => True) new g) :
    g.senders.Waiting := by
  refine h.invariant (I := fun g => g.senders.Waiting) SendWorld.waiting_new ?_
  intro g o g' hg _ hs
  exact waiting_step hg hs

/-! ## How a call ends -/

variable {g : TcpClientMgr}

theorem rpcCallGate_eq (name : ServerName) (g : TcpClientMgr) (m : RpcMsg) :
    (g.gateLeft = none ∧ g.rpcCallGate name m = .ok g) ∨
    ∃ p, g.gateLeft = some (g.clients p).send.left ∧ g.rpcCallGate name m =
      (g.clients p).send.appendSend name g.sendPool m >>= fun sq =>
        .ok { g with sendPool := sq.1, clients := g.clients.set p { g.clients p with send := sq.2 } } := by
  unfold rpcCallGate gateLeft
  split
  · next hp =>
    rw [hp]
    exact .inl ⟨rfl, rfl⟩
  · next p hp =>
    rw [hp]
    refine .inr ⟨p, rfl, ?_⟩
    unfold TcpClient.appendSend
    cases (g.clients p).send.appendSend name g.sendPool m <;> rfl

theorem rpcCallGate_ok_iff (hg : g.senders.Waiting) (name : ServerName) (m : RpcMsg) :
    (∃ g', g.rpcCallGate name m = .ok g') ↔ ∀ left ∈ g.gateLeft, Sendable (recordSize name m) left := by
  rcases rpcCallGate_eq name g m with ⟨hnone, hcall⟩ | ⟨p, hsome, hcall⟩
  · rw [hnone, hcall]
    constructor
    · intro _ left hleft
      cases hleft
    · intro _
      exact ⟨g, rfl⟩
  · have hs : g.sendPool.Clean := hg.clean
    have happ := SendQueue.appendSend_ok_iff (q := (g.clients p).send) name m hs (hg.bounded p)
    rw [hsome, hcall]
    constructor
    · rintro ⟨g', h⟩ left hleft
      obtain ⟨sq, hsq, -⟩ := bind_eq_ok.mp h
      cases hleft
      exact happ.mp ⟨sq, hsq⟩
    · intro hsend
      obtain ⟨sq, hsq⟩ := happ.mpr (hsend _ rfl)
      exact ⟨_, bind_eq_ok.mpr ⟨sq, hsq, rfl⟩⟩

theorem rpcCallGate_assertion_iff (hg : g.senders.Waiting) (name : ServerName) (m : RpcMsg) :
    g.rpcCallGate name m = .error .assertion ↔ ∃ left ∈ g.gateLeft, Refused (getRpcSize name m) left := by
  rcases rpcCallGate_eq name g m with ⟨hnone, hcall⟩ | ⟨p, hsome, hcall⟩
  · rw [hnone, hcall]
    constructor
    · intro h
      cases h
    · rintro ⟨left, hleft, -⟩
      cases hleft
  · have hs : g.sendPool.Clean := hg.clean
    have happ := SendQueue.appendSend_assertion_iff (q := (g.clients p).send) name m hs (hg.bounded p)
    rw [hsome, hcall]
    constructor
    · intro h
      rcases bind_eq_error h with h | ⟨_, -, h⟩
      · exact ⟨_, rfl, happ.mp h⟩
      · cases h
    · rintro ⟨left, hleft, hover⟩
      cases hleft
      rw [happ.mpr hover]
      rfl

end TcpClientMgr

end KcpServer
