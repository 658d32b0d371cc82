import KcpServer.RecvBuff
import KcpServer.Lib.Transition

/-!
# The object pools of `tcpclientMgr`

`m_rpcPool` and `m_pool` recycle `rpcObj`s and `sendCache`s through queues; both push functions call `init` first, so
an object that comes out of a pool is as good as new (`popRpcobj_eq_new`, `popSendcache_offset`).
-/

namespace KcpServer
open Lib

/-! ## `rpcObj`s -/

/-- `tcpclientMgr::pushRpcobj` -/
def pushRpcobj (pool : List RpcObj) (p : RpcObj) : List RpcObj := pool ++ [p.init]

/-- `tcpclientMgr::popRpcobj` -/
def popRpcobj : List RpcObj → RpcObj × List RpcObj
  | [] => (.new, [])
  | p :: pool => (p, pool)

/-- What the users of the pool do with it; an object is pushed in whatever state its last message left it. -/
inductive RpcPoolOp
  | push (p : RpcObj)
  | pop

def rpcPoolStep (pool : List RpcObj) : RpcPoolOp → Except Fault (List RpcObj)
  | .push p => .ok (pushRpcobj pool p)
  | .pop => .ok (popRpcobj pool).2

/-- Every use of the pool returns, and leaves objects as good as new. -/
theorem rpcPoolStep_new {pool : List RpcObj} (h : ∀ p ∈ pool, p = .new) (o : RpcPoolOp) :
    ∃ pool', rpcPoolStep pool o = .ok pool' ∧ ∀ p ∈ pool', p = .new := by
  cases o with
  | push q =>
    refine ⟨_, rfl, ?_⟩
    intro p hp
    rcases List.mem_append.mp hp with hp | hp
    · exact h p hp
    · rw [List.mem_singleton.mp hp, RpcObj.init_eq_new]
  | pop =>
    refine ⟨_, rfl, ?_⟩
    cases pool with
    | nil => simp [popRpcobj]
    | cons q pool => exact fun p hp => h p (List.mem_cons_of_mem q hp)

theorem foldl_pushRpcobj {pool : List RpcObj} (h : ∀ p ∈ pool, p = .new) (os : List RpcObj) :
    ∀ p ∈ os.foldl pushRpcobj pool, p = .new := by
  induction os generalizing pool with
  | nil => exact h
  | cons o os ih =>
    obtain ⟨pool', hpush, hnew⟩ := rpcPoolStep_new h (.push o)
    cases hpush
    exact ih hnew

theorem rpcPool_eq_new {pool : List RpcObj} (h : Reach rpcPoolStep (fun _ _ => True) [] pool) :
    ∀ p ∈ pool, p = .new := by
  refine h.invariant (I := fun pool => ∀ p ∈ pool, p = .new) (by simp) ?_
  intro pool o pool' hI _ hs
  obtain ⟨pool'', heq, hnew⟩ := rpcPoolStep_new hI o
  rw [hs] at heq
  cases heq
  exact hnew

/-- An `rpcObj` from the pool is as good as new, whatever messages went through it before. -/
theorem popRpcobj_eq_new {pool : List RpcObj} (h : Reach rpcPoolStep (fun _ _ => True) [] pool) :
    (popRpcobj pool).1 = .new := by
  have := rpcPool_eq_new h
  cases pool with
  | nil => rfl
  | cons p pool => exact this p (by simp)

/-! ## `sendCache`s -/

/-- `tcpclientMgr::m_pool` and the counter `sendCache::g_guid`. -/
structure SendPool where
  pool : List SendCache
  guid : Nat

namespace SendPool

/-- `tcpclientMgr::pushSendcache` -/
def pushSendcache (s : SendPool) (p : SendCache) : SendPool := { s with pool := s.pool ++ [p.init] }

/-- `tcpclientMgr::popSendcache` -/
def popSendcache (s : SendPool) : SendCache × SendPool :=
  match s.pool with
  | [] => (.new s.guid, { s with guid := s.guid + 1 })
  | p :: pool => (p, { s with pool })

/-- Every cache in the pool is empty. -/
def Clean (s : SendPool) : Prop := ∀ p ∈ s.pool, p.offset = 0

theorem clean_push {s : SendPool} (h : s.Clean) (p : SendCache) : (s.pushSendcache p).Clean := by
  intro q hq
  rcases List.mem_append.mp hq with hq | hq
  · exact h q hq
  · rw [List.mem_singleton.mp hq]; rfl

theorem clean_pop {s : SendPool} (h : s.Clean) : s.popSendcache.2.Clean := by
  unfold popSendcache
  split
  · exact h
  · next p pool hp =>
    intro q hq
    exact h q (by rw [hp]; exact List.mem_cons_of_mem p hq)

theorem popSendcache_offset {s : SendPool} (h : s.Clean) : s.popSendcache.1.offset = 0 := by
  unfold popSendcache
  split
  · rfl
  · next p pool hp => exact h p (by rw [hp]; simp)

end SendPool

end KcpServer
