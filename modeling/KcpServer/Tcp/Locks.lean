import KcpServer.SendPath
import KcpServer.Lib.Locks

/-!
# The locks of the write thread

The write thread's pass over the clients, `processDealSend`, with the scoped locks of every function on its way. A write
that fails with an error other than `EAGAIN` makes `dealSend` call `DelConn`, which locks the manager's mutex, and that
one is held from the start of the pass: the thread stays there (`processDealSend_end`). `disciplined_iff` : without such a
write the pass releases every mutex and never waits for itself.

* `Locked.*` : the functions with their locks;
* `passEnd` : how the pass ends, read off the sizes of the caches and the answers of `write`.
-/

namespace KcpServer
open Lib

/-- `tcpclientMgr::mutex`, the `mutex` of the client at an address, and `tcpclientMgr::mutexPool`. -/
inductive Mutex
  | mgr
  | client (p : Nat)
  | pool
  deriving DecidableEq

def TcpClientMgr.setSend (g : TcpClientMgr) (p : Nat) (q : SendQueue) : TcpClientMgr :=
  { g with clients := g.clients.set p { g.clients p with send := q } }

namespace Locked
open Locking

/-! ## The functions with their locks -/

variable (name : ServerName)

/-- `tcpclientMgr::pushSendcache` -/
def pushSendcache (g : TcpClientMgr) (c : SendCache) : Locking Mutex Fault TcpClientMgr :=
  withLock .pool (return { g with sendPool := g.sendPool.pushSendcache c })

/-- `tcpclientMgr::popSendcache` -/
def popSendcache (g : TcpClientMgr) : Locking Mutex Fault (SendCache × TcpClientMgr) :=
  withLock .pool (return (g.sendPool.popSendcache.1, { g with sendPool := g.sendPool.popSendcache.2 }))

/-- `tcpclient::AppendSend` -/
def appendSend (g : TcpClientMgr) (p : Nat) (m : RpcMsg) : Locking Mutex Fault TcpClientMgr :=
  withLock (.client p) do
    let needSize := getRpcSize name m
    let (c, g) ← match (g.clients p).send.pSendCache with
      | some c => pure (c, g)
      | none => popSendcache g
    let queue := (g.clients p).send.queue
    if needSize > c.getLeftSize then do
      let (c', g) ← popSendcache g
      let c' ← lift (SendQueue.putRecord name c' m)
      return g.setSend p ⟨some c', queue ++ [c]⟩
    else do
      let c ← lift (SendQueue.putRecord name c m)
      return g.setSend p ⟨some c, queue⟩

/-- `tcpclient::doconnect`, once `connect` succeeds. -/
def doconnect (g : TcpClientMgr) (p : Nat) : Locking Mutex Fault TcpClientMgr := appendSend name g p takeProxy

/-- `tcpclient::OnClose` -/
def onClose (g : TcpClientMgr) (p : Nat) (force : Bool) (fd : Int) : Locking Mutex Fault TcpClientMgr :=
  if force then
    return g
  else
    doconnect name { g with clients := g.clients.set p ((g.clients p).initSock fd) } p

/-- `tcpclientMgr::DelConn` -/
def delConn (g : TcpClientMgr) (fd newFd : Int) : Locking Mutex Fault (TcpClientMgr × Bool) :=
  withLock .mgr (match g.mapFdTcpClient[fd]? with
    | none => return (g, false)
    | some p => return (← onClose name g p false newFd, true))

/-- The `while` loop of `tcpclient::dealSend` over the caches still queued, with the answers of `write` still to come;
`newFd` is what `socket` returns if the client is reconnected. -/
def drain (p : Nat) (newFd : Int) :
    List SendCache → TcpClientMgr → List WriteRes → Locking Mutex Fault (TcpClientMgr × Int)
  | [], g, _ => return (g.setSend p .new, 0)
  | c :: rest, g, ws => do
    lift (assert (c.offset ≤ RPC_BUFF_SIZE))
    if c.offset = 0 then do
      let g ← pushSendcache g c
      drain p newFd rest g ws
    else do
      let (c, ret, _, ws) ← lift (c.dosend ws)
      if ret = -1 then do
        let g := g.setSend p ⟨none, rest⟩
        let (g, _) ← delConn name g (g.clients p).sock newFd
        let g ← pushSendcache g c
        return (g, -1)
      else do
        let g ← pushSendcache g c
        drain p newFd rest g ws

/-- `tcpclient::dealSend` -/
def dealSend (g : TcpClientMgr) (p : Nat) (ws : List WriteRes) (newFd : Int) :
    Locking Mutex Fault (TcpClientMgr × Int) :=
  withLock (.client p) (match (g.clients p).send.queue, (g.clients p).send.pSendCache with
    | [], none => lift (.error .null)
    | [], some c => if c.offset = 0 then return (g, 0) else drain name p newFd [c] g ws
    | queue, c => drain name p newFd (queue ++ c.toList) g ws)

/-- The loop of `tcpclientMgr::processDealSend` over the entries of `m_mapFdTcpClient`; `ws` are the answers of `write`
to the client under a descriptor, and `newFd` is what `socket` returns for it. -/
def dealSends (ws : Int → List WriteRes) (newFd : Int → Int) :
    List (Int × Nat) → TcpClientMgr → Locking Mutex Fault TcpClientMgr
  | [], g => return g
  | (fd, p) :: rest, g => do
    let (g, _) ← dealSend name g p (ws fd) (newFd fd)
    dealSends ws newFd rest g

/-- `tcpclientMgr::processDealSend` -/
def processDealSend (g : TcpClientMgr) (ws : Int → List WriteRes) (newFd : Int → Int) : Locking Mutex Fault TcpClientMgr :=
  withLock .mgr (dealSends name ws newFd g.mapFdTcpClient.toList g)

/-! ## How a pass ends -/

end Locked

/-- A queue that has been sent; an empty cache that is alone in it stays. -/
def SendQueue.sent (q : SendQueue) : SendQueue :=
  match q.queue, q.pSendCache with
  | [], some c => if c.offset = 0 then q else new
  | _, _ => new

/-- How the pass ends over entries of `m_mapFdTcpClient`, `qs` being the queues of the clients. -/
def passEnd (ws : Int → List WriteRes) : List (Int × Nat) → (Nat → SendQueue) → SendEnd
  | [], _ => .done
  | (fd, p) :: rest, qs =>
    (clientEnd (qs p) (ws fd)).andThen (passEnd ws rest (Function.update qs p (qs p).sent))

theorem passEnd_ne_failed {ws : Int → List WriteRes} (h : ∀ fd, .error ∉ ws fd) (es : List (Int × Nat))
    (qs : Nat → SendQueue) : passEnd ws es qs ≠ .failed := by
  induction es generalizing qs with
  | nil => simp [passEnd]
  | cons e es ih =>
    rw [passEnd]
    cases hend : clientEnd (qs e.2) (ws e.1) with
    | done => exact ih _
    | failed =>
      rw [clientEnd] at hend
      split at hend
      · cases hend
      · exact absurd hend (queueEnd_ne_failed (h e.1))
    | stopped => simp [SendEnd.andThen]

namespace Locked
open Locking

/-- `x` ends like this: it returns a result that satisfies `P` with the same mutexes, it waits for the manager's mutex,
or it fails. -/
def Ends {α : Type} (x : Locking Mutex Fault α) (held : List Mutex) (P : α → Prop) : SendEnd → Prop
  | .done => ∃ a, P a ∧ x held = .ok (a, held)
  | .failed => x held = .error (.deadlock .mgr)
  | .stopped => ∃ e, x held = .error (.fault e)

section Ends
variable {α β : Type} {x : Locking Mutex Fault α} {f : α → Locking Mutex Fault β} {held : List Mutex} {P : α → Prop}
  {Q : β → Prop} {e e' : SendEnd} {m : Mutex}

theorem Ends.bind (h : Ends x held P e) (hf : ∀ a, P a → Ends (f a) held Q e') :
    Ends (x >>= f) held Q (e.andThen e') := by
  cases e with
  | done =>
    obtain ⟨a, ha, hx⟩ := h
    have hfa := hf a ha
    cases e' with
    | done =>
      obtain ⟨b, hb, hy⟩ := hfa
      exact ⟨b, hb, by rw [bind_ok hx, hy]⟩
    | failed => exact (bind_ok hx).trans hfa
    | stopped =>
      obtain ⟨e, hy⟩ := hfa
      exact ⟨e, by rw [bind_ok hx, hy]⟩
  | failed => exact bind_error h
  | stopped =>
    obtain ⟨e, hx⟩ := h
    exact ⟨e, bind_error hx⟩

/-- A call that returns comes first. -/
theorem Ends.of_ok {a : α} (hx : x held = .ok (a, held)) : Ends (x >>= f) held Q e ↔ Ends (f a) held Q e := by
  cases e with
  | done => simp only [Ends, bind_ok hx]
  | failed => simp only [Ends, bind_ok hx]
  | stopped => simp only [Ends, bind_ok hx]

theorem Ends.withLock (hm : m ∉ held) (h : Ends x (m :: held) P e) : Ends (withLock m x) held P e := by
  cases e with
  | done =>
    obtain ⟨a, ha, hx⟩ := h
    exact ⟨a, ha, withLock_ok hm hx⟩
  | failed => exact withLock_error hm h
  | stopped =>
    obtain ⟨e, hx⟩ := h
    exact ⟨e, withLock_error hm hx⟩

theorem Ends.mono {P' : α → Prop} (h : Ends x held P e) (hP : ∀ a, P a → P' a) : Ends x held P' e := by
  cases e with
  | done =>
    obtain ⟨a, ha, hx⟩ := h
    exact ⟨a, hP a ha, hx⟩
  | failed => exact h
  | stopped => exact h

end Ends

section Pass
variable {held : List Mutex} {name : ServerName}

theorem pushSendcache_ok (hpool : .pool ∉ held) (g : TcpClientMgr) (c : SendCache) :
    pushSendcache g c held = .ok ({ g with sendPool := g.sendPool.pushSendcache c }, held) :=
  withLock_ok hpool rfl

/-- The loop of `dealSend`, in a thread that holds the manager's mutex. Where it comes to its end it has done what the
loop does without the locks. -/
theorem drain_end (hmgr : .mgr ∈ held) (hpool : .pool ∉ held) (p : Nat) (newFd : Int) (cs : List SendCache)
    (g : TcpClientMgr) (ws : List WriteRes) : Ends (drain name p newFd cs g ws) held
      (fun r => ∃ s' out, (∀ onFail, SendQueue.drain onFail cs g.sendPool ws = .ok ((s', .new), 0, out)) ∧
        r = (TcpClientMgr.setSend { g with sendPool := s' } p .new, 0))
      (queueEnd (cs.map (·.offset)) ws) := by
  induction cs generalizing g ws with
  | nil => exact ⟨_, ⟨g.sendPool, [], fun _ => rfl, rfl⟩, rfl⟩
  | cons c rest ih =>
    rw [List.map_cons, queueEnd, drain]
    by_cases hover : RPC_BUFF_SIZE < c.offset
    · have hassert : assert (c.offset ≤ RPC_BUFF_SIZE) = .error .assertion := by
        rw [decide_eq_false (not_le.mpr hover), assert_false]
      rw [if_pos hover]
      exact ⟨.assertion, bind_error (lift_error hassert)⟩
    · have hsize := c.mem.size
      have hassert : assert (c.offset ≤ RPC_BUFF_SIZE) = .ok () :=
        assert_eq_ok.mpr (decide_eq_true (not_lt.mp hover))
      have hlen : (c.mem.bytes.take c.offset).length = c.offset := by
        rw [List.length_take]
        omega
      rw [if_neg hover, Ends.of_ok (lift_ok hassert)]
      by_cases hzero : c.offset = 0
      · rw [if_pos hzero, hzero, cacheEnd, Ends.of_ok (pushSendcache_ok hpool g c)]
        apply (ih { g with sendPool := g.sendPool.pushSendcache c } ws).mono
        intro r hr
        obtain ⟨s', out, hdrain, hr⟩ := hr
        refine ⟨s', out, fun onFail => ?_, hr⟩
        rw [SendQueue.drain, hassert, ok_bind, if_pos hzero]
        exact hdrain onFail
      · rw [if_neg hzero, ← hlen, cacheEnd_eq]
        have hsend : ∀ {ret o ws'}, SendCache.dosendLoop (c.mem.bytes.take c.offset) ws = .ok (ret, o, ws') →
            c.dosend ws = .ok (if ret = 0 then c.updateOffset c.offset else c, ret, o, ws') := by
          intro ret o ws' hloop
          rw [SendCache.dosend, hloop]
          rfl
        cases hloop : SendCache.dosendLoop (c.mem.bytes.take c.offset) ws with
        | error e =>
          refine ⟨e, bind_error (lift_error ?_)⟩
          rw [SendCache.dosend, hloop]
          rfl
        | ok r =>
          obtain ⟨ret, o, ws'⟩ := r
          rw [Ends.of_ok (lift_ok (hsend hloop))]
          by_cases hret : ret = -1
          · -- `DelConn` waits for the mutex that the pass holds
            simp only [hret, if_true]
            exact bind_error (withLock_of_mem hmgr)
          · simp only [hret, if_false]
            rw [Ends.of_ok (pushSendcache_ok hpool g _)]
            apply (ih { g with sendPool := g.sendPool.pushSendcache _ } ws').mono
            intro r hr
            obtain ⟨s', out, hdrain, hr⟩ := hr
            refine ⟨s', o ++ out, fun onFail => ?_, hr⟩
            rw [SendQueue.drain, hassert, ok_bind, if_neg hzero, hsend hloop, ok_bind]
            simp only [hret, if_false]
            rw [hdrain onFail]
            rfl

theorem dealSend_end (hmgr : .mgr ∈ held) (hpool : .pool ∉ held) (g : TcpClientMgr) (p : Nat) (hp : .client p ∉ held)
    (ws : List WriteRes) (newFd : Int) : Ends (dealSend name g p ws newFd) held
      (fun r => ∃ s' out, (∀ onFail, (g.clients p).send.dealSend onFail g.sendPool ws =
        .ok ((s', (g.clients p).send.sent), 0, out)) ∧
        r = (TcpClientMgr.setSend { g with sendPool := s' } p (g.clients p).send.sent, 0))
      (clientEnd (g.clients p).send ws) := by
  have hdrain := fun cs => @drain_end (.client p :: held) name (by simp [hmgr]) (by simp [hpool]) p newFd cs g ws
  apply Ends.withLock hp
  rcases hsend : (g.clients p).send with ⟨cache, queue⟩
  cases queue with
  | nil =>
    cases cache with
    | none => exact ⟨.null, rfl⟩
    | some c =>
      by_cases hzero : c.offset = 0
      · have hsent : SendQueue.sent ⟨some c, []⟩ = ⟨some c, []⟩ := if_pos hzero
        have hend : clientEnd ⟨some c, []⟩ ws = .done := by
          simp [clientEnd, SendQueue.caches, queueEnd, hzero, cacheEnd, SendEnd.andThen]
        simp only [if_pos hzero, hsent, hend]
        refine ⟨(g, 0), ⟨g.sendPool, [], fun onFail => if_pos hzero, ?_⟩, rfl⟩
        rw [TcpClientMgr.setSend, ← hsend, Heap.set_at]
      · have hsent : SendQueue.sent ⟨some c, []⟩ = .new := if_neg hzero
        simp only [if_neg hzero, hsent, clientEnd, SendQueue.caches, SendQueue.dealSend]
        exact hdrain [c]
  | cons q queue =>
    have hsent : SendQueue.sent ⟨cache, q :: queue⟩ = .new := by cases cache <;> rfl
    simp only [hsent, clientEnd, SendQueue.caches, SendQueue.dealSend]
    exact hdrain _

theorem dealSends_end (hmgr : .mgr ∈ held) (hpool : .pool ∉ held) (hclient : ∀ p, .client p ∉ held)
    (ws : Int → List WriteRes) (newFd : Int → Int) (es : List (Int × Nat)) (g : TcpClientMgr) :
    Ends (dealSends name ws newFd es g) held (fun _ => True) (passEnd ws es fun p => (g.clients p).send) := by
  induction es generalizing g with
  | nil => exact ⟨g, trivial, rfl⟩
  | cons e rest ih =>
    obtain ⟨fd, p⟩ := e
    apply (dealSend_end hmgr hpool g p (hclient p) (ws fd) (newFd fd)).bind
    intro r hr
    obtain ⟨s', out, -, rfl⟩ := hr
    have hqueues : (fun q => ((TcpClientMgr.setSend { g with sendPool := s' } p (g.clients p).send.sent).clients q).send) =
        Function.update (fun q => (g.clients q).send) p (g.clients p).send.sent := by
      funext q
      by_cases hq : q = p
      · subst hq
        simp [TcpClientMgr.setSend]
      · simp [TcpClientMgr.setSend, Heap.set_of_ne _ hq, hq]
    rw [← hqueues]
    exact ih _

theorem processDealSend_end (name : ServerName) (g : TcpClientMgr) (ws : Int → List WriteRes) (newFd : Int → Int) :
    Ends (processDealSend name g ws newFd) [] (fun _ => True)
      (passEnd ws g.mapFdTcpClient.toList fun p => (g.clients p).send) := by
  apply Ends.withLock (by simp)
  exact dealSends_end (by simp) (by simp) (by simp) ws newFd _ g

end Pass

/-- A pass in which no write fails so is disciplined. -/
theorem disciplined_of_passEnd {name : ServerName} {g : TcpClientMgr} {ws : Int → List WriteRes} {newFd : Int → Int}
    (h : passEnd ws g.mapFdTcpClient.toList (fun p => (g.clients p).send) ≠ .failed) :
    Disciplined (processDealSend name g ws newFd) := by
  have hends := processDealSend_end name g ws newFd
  cases hend : passEnd ws g.mapFdTcpClient.toList (fun p => (g.clients p).send) with
  | done =>
    rw [hend] at hends
    obtain ⟨a, -, hends⟩ := hends
    exact Balanced.disciplined (.inl ⟨a, hends⟩)
  | failed => exact absurd hend h
  | stopped =>
    rw [hend] at hends
    exact Balanced.disciplined (.inr hends)

/-- **The locks of the write thread.** Whatever clients and queues there are and whatever `write` answers: a pass locks
no mutex that it holds and releases every one it took exactly if none of its writes fails with an error other than
`EAGAIN`. -/
theorem disciplined_iff (name : ServerName) (g : TcpClientMgr) (ws : Int → List WriteRes) (newFd : Int → Int) :
    Disciplined (processDealSend name g ws newFd) ↔
      passEnd ws g.mapFdTcpClient.toList (fun p => (g.clients p).send) ≠ .failed := by
  refine ⟨fun h hend => ?_, disciplined_of_passEnd⟩
  have hends := processDealSend_end name g ws newFd
  rw [hend] at hends
  exact absurd hends (h.noDeadlock .mgr)

/-- The answers of `write` decide it: a pass without a hard error is disciplined. -/
theorem disciplined_of_no_error (name : ServerName) (g : TcpClientMgr) {ws : Int → List WriteRes}
    (h : ∀ fd, .error ∉ ws fd) (newFd : Int → Int) : Disciplined (processDealSend name g ws newFd) :=
  disciplined_of_passEnd (passEnd_ne_failed h _ _)

/-- `gate1` has been created, and the write of its first `TakeProxy` fails. -/
theorem not_disciplined : ∃ g, TcpClientMgr.new.createTcpclient game1 TcpClient.gate1New 5 = .ok g ∧
    ¬ Disciplined (processDealSend game1 g (fun _ => [.error]) (fun _ => 5)) := by
  obtain ⟨p, hoff, hcreate⟩ := TcpClientMgr.createTcpclient_gate1
  refine ⟨_, hcreate, ?_⟩
  have hlist : (TcpClientMgr.new.mapFdTcpClient.insert 5 0).toList = [(5, 0)] := rfl
  have hend : clientEnd ⟨some p, []⟩ [.error] = .failed := clientEnd_error (by rw [hoff]; decide) (by rw [hoff]; decide)
  rw [disciplined_iff, not_not]
  simp only [hlist, passEnd, TcpClientMgr.new_alloc, hend]
  rfl

/-! ## The other threads -/

section Others
variable {held : List Mutex} {name : ServerName}

theorem balanced_appendSend (hpool : .pool ∉ held) (g : TcpClientMgr) {p : Nat} (hp : .client p ∉ held) (m : RpcMsg) :
    Balanced (appendSend name g p m) held := by
  have hpop : ∀ g, Balanced (popSendcache g) (.client p :: held) := fun g =>
    (balanced_pure _).withLock (by simp [hpool])
  apply Balanced.withLock hp
  dsimp only
  split
  all_goals
    apply Balanced.bind
    · first
      | exact balanced_pure _
      | exact hpop g
    · intro r
      split
      · apply (hpop r.2).bind
        intro r'
        exact (balanced_lift _).bind fun _ => balanced_pure _
      · exact (balanced_lift _).bind fun _ => balanced_pure _

/-- A `DelConn` of a thread that holds nothing, as the read thread calls it. -/
theorem disciplined_delConn (g : TcpClientMgr) (fd newFd : Int) : Disciplined (delConn name g fd newFd) := by
  apply Balanced.disciplined
  apply Balanced.withLock (by simp)
  split
  · exact balanced_pure _
  · next p _ =>
    apply Balanced.bind
    · exact balanced_appendSend (by simp) _ (by simp) _
    · exact fun _ => balanced_pure _

end Others

end Locked

end KcpServer
