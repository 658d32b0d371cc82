import KcpServer.Tcp.Client

/-!
# Runs of the send path

* `cacheEnd`, `queueEnd` : how the writes of a `dealSend` end, read off the sizes of the caches and the answers;
* `appendSend_cases`, `drain_cases` : what an append and a `dealSend` do to the caches;
* `null_iff` : over any run, failing writes included, `dealSend` dereferences a null `m_pSendCache` exactly if there is
  nothing to send.
-/

namespace KcpServer
open Lib

/-! ## How the writes of a `dealSend` end -/

/-- Everything is written; a write fails with an error other than `EAGAIN`; or it goes no further: a null pointer is
dereferenced, an assertion fails, or a `write` is not answered. -/
inductive SendEnd
  | done
  | failed
  | stopped
  deriving DecidableEq

/-- The end of two things done one after the other. -/
def SendEnd.andThen : SendEnd → SendEnd → SendEnd
  | .done, e => e
  | e, _ => e

/-- How `n` bytes are written, and the answers left. -/
def cacheEnd : Nat → List WriteRes → SendEnd × List WriteRes
  | 0, ws => (.done, ws)
  | _ + 1, [] => (.stopped, [])
  | n + 1, .again :: ws => cacheEnd (n + 1) ws
  | _ + 1, .error :: ws => (.failed, ws)
  | n + 1, .wrote k :: ws => cacheEnd (n + 1 - wroteCount k (min (n + 1) SEND_SIZE)) ws
termination_by structural _ ws => ws

/-- How caches of these sizes are written. -/
def queueEnd : List Nat → List WriteRes → SendEnd
  | [], _ => .done
  | n :: ns, ws =>
    if RPC_BUFF_SIZE < n then
      .stopped
    else
      (cacheEnd n ws).1.andThen (queueEnd ns (cacheEnd n ws).2)

/-- How a client's `dealSend` ends. -/
def clientEnd (q : SendQueue) (ws : List WriteRes) : SendEnd :=
  if q.caches = [] then .stopped else queueEnd (q.caches.map (·.offset)) ws

/-- `dosend` looks at the number of bytes only. -/
theorem cacheEnd_eq (bs : Bytes) (ws : List WriteRes) : cacheEnd bs.length ws =
    match SendCache.dosendLoop bs ws with
    | .ok (ret, _, ws) => (if ret = -1 then .failed else .done, ws)
    | .error _ => (.stopped, []) := by
  induction ws generalizing bs with
  | nil =>
    cases bs with
    | nil => rfl
    | cons b bs => rfl
  | cons w ws ih =>
    cases bs with
    | nil => rfl
    | cons b bs =>
      cases w with
      | again => exact ih (b :: bs)
      | error => rfl
      | wrote k =>
        have hdrop := ih ((b :: bs).drop (wroteCount k (min (b :: bs).length SEND_SIZE)))
        rw [List.length_drop, List.length_cons] at hdrop
        rw [List.length_cons, cacheEnd, hdrop, SendCache.dosendLoop, List.length_cons]
        cases SendCache.dosendLoop ((b :: bs).drop (wroteCount k (min (bs.length + 1) SEND_SIZE))) ws with
        | ok r => rfl
        | error e => rfl

/-- Without a hard error among the answers no write fails. -/
theorem cacheEnd_ne_failed {n : Nat} {ws : List WriteRes} (h : .error ∉ ws) :
    (cacheEnd n ws).1 ≠ .failed ∧ .error ∉ (cacheEnd n ws).2 := by
  induction ws generalizing n with
  | nil => cases n <;> simp [cacheEnd]
  | cons w ws ih =>
    rw [List.mem_cons, not_or] at h
    cases n with
    | zero => simpa [cacheEnd] using h
    | succ n =>
      cases w with
      | again => exact ih h.2
      | error => exact absurd rfl h.1
      | wrote k => exact ih h.2

theorem queueEnd_ne_failed {ns : List Nat} {ws : List WriteRes} (h : .error ∉ ws) : queueEnd ns ws ≠ .failed := by
  induction ns generalizing ws with
  | nil => simp [queueEnd]
  | cons n ns ih =>
    obtain ⟨hcache, hws⟩ := cacheEnd_ne_failed (n := n) h
    rw [queueEnd]
    split
    · simp
    · cases hend : (cacheEnd n ws).1 with
      | done => exact ih hws
      | failed => exact absurd hend hcache
      | stopped => simp [SendEnd.andThen]

namespace SendQueue

/-! ## An append -/

theorem putRecord_uid {name : ServerName} {c c' : SendCache} {m : RpcMsg} (h : putRecord name c m = .ok c') :
    c'.uid = c.uid := by
  obtain ⟨_, -, h⟩ := bind_eq_ok.mp h
  obtain ⟨⟨mem, offset⟩, -, h⟩ := bind_eq_ok.mp h
  cases h
  rfl

theorem putRecord_ne_null (name : ServerName) (c : SendCache) (m : RpcMsg) : putRecord name c m ≠ .error .null := by
  intro h
  rcases bind_eq_error h with h | ⟨_, -, h⟩
  · cases assert_eq_error h
  · rcases bind_eq_error h with h | ⟨_, -, h⟩
    · by_cases hfit : c.offset + recordSize name m ≤ RPC_BUFF_SIZE
      · obtain ⟨mem, henc, -⟩ := encodeBuffer_ok c.mem hfit
        rw [h] at henc
        cases henc
      · rw [encodeBuffer_error c.mem (not_le.mp hfit)] at h
        cases h
    · cases h

theorem appendSend_ne_null (name : ServerName) (s : SendPool) (q : SendQueue) (m : RpcMsg) :
    q.appendSend name s m ≠ .error .null := by
  intro h
  rw [appendSend] at h
  rcases bind_eq_error h with h | ⟨_, -, h⟩
  · exact putRecord_ne_null _ _ _ h
  · cases h

theorem putRecord_fits {name : ServerName} {c c' : SendCache} {m : RpcMsg} (h : putRecord name c m = .ok c') :
    c.offset + recordSize name m ≤ RPC_BUFF_SIZE := by
  by_contra hfit
  obtain ⟨e, he⟩ := putRecord_error name m (not_le.mp hfit)
  rw [h] at he
  cases he

/-- An append writes its record into the current cache, or into one out of the pool that it queues behind the others. -/
theorem appendSend_cases {name : ServerName} {s s' : SendPool} {q q' : SendQueue} {m : RpcMsg} (hs : s.Clean)
    (h : q.appendSend name s m = .ok (s', q')) : ∃ front c c', putRecord name c m = .ok c' ∧ q'.caches = front ++ [c'] ∧
      ((q.caches = front ++ [c] ∧ s' = s) ∨ (q.caches = front ∧ s.popSendcache = (c, s'))) := by
  have hR := RPC_BUFF_SIZE_eq
  obtain ⟨p, queue⟩ := q
  rw [appendSend] at h
  cases p with
  | none =>
    dsimp only at h
    split at h
    · -- a record that is larger than an empty cache is not written
      next hlarge =>
      exfalso
      obtain ⟨c', hput, -⟩ := bind_eq_ok.mp h
      have hfits := putRecord_fits hput
      have h0 := SendPool.popSendcache_offset hs
      have hsize := getRpcSize_add_four name m (by omega)
      have hleft := SendCache.getLeftSize_eq (c := s.popSendcache.1) (by omega)
      omega
    · obtain ⟨c', hput, h⟩ := bind_eq_ok.mp h
      cases h
      exact ⟨queue, s.popSendcache.1, c', hput, rfl, .inr ⟨by simp [caches], rfl⟩⟩
  | some c =>
    dsimp only at h
    split at h
    · obtain ⟨c', hput, h⟩ := bind_eq_ok.mp h
      cases h
      exact ⟨queue ++ [c], s.popSendcache.1, c', hput, rfl, .inr ⟨rfl, rfl⟩⟩
    · obtain ⟨c', hput, h⟩ := bind_eq_ok.mp h
      cases h
      exact ⟨queue, c, c', hput, rfl, .inl ⟨rfl, rfl⟩⟩

/-- No cache that waits to be sent is empty. -/
def Filled (q : SendQueue) : Prop := ∀ c ∈ q.caches, 0 < c.offset

theorem filled_new : new.Filled := fun _ hc => by simp [caches, new] at hc

theorem Filled.pending_eq_nil {q : SendQueue} (h : q.Filled) : q.pending = [] ↔ q.caches = [] := by
  have hR := RPC_BUFF_SIZE_eq
  constructor
  · intro hnil
    cases hc : q.caches with
    | nil => rfl
    | cons c cs =>
      have hpos := h c (by simp [hc])
      have hsize := c.mem.size
      rw [pending, hc, List.flatMap_cons] at hnil
      obtain ⟨hnil, -⟩ := List.append_eq_nil_iff.mp hnil
      have hlen := congrArg List.length hnil
      rw [List.length_take, List.length_nil] at hlen
      omega
  · intro hc
    rw [pending, hc, List.flatMap_nil]

theorem appendSend_inv {name : ServerName} {s s' : SendPool} {q q' : SendQueue} {m : RpcMsg} (hs : s.Clean)
    (hq : q.Bounded) (h : q.appendSend name s m = .ok (s', q')) :
    s'.Clean ∧ q'.Bounded ∧ q'.pending = q.pending ++ record name m ∧ (q.Filled → q'.Filled) := by
  obtain ⟨front, c, c', hput, hcaches', hcases⟩ := appendSend_cases hs h
  have hfits := putRecord_fits hput
  obtain ⟨c'', hput', hoff, hbytes⟩ := putRecord_ok name m hfits
  rw [hput] at hput'
  cases hput'
  have hpos : 0 < recordSize name m := by
    rw [recordSize]
    omega
  -- the other caches, and what was in this one
  have hfront : (∀ d ∈ front, d ∈ q.caches) ∧ s'.Clean ∧
      q.pending = (front.flatMap fun d => d.mem.bytes.take d.offset) ++ c.mem.bytes.take c.offset := by
    rcases hcases with ⟨hcaches, rfl⟩ | ⟨rfl, hpop⟩
    · refine ⟨fun d hd => by simp [hcaches, hd], hs, ?_⟩
      rw [pending, hcaches, List.flatMap_append, List.flatMap_singleton]
    · have hclean := SendPool.clean_pop hs
      have h0 := SendPool.popSendcache_offset hs
      rw [hpop] at hclean h0
      refine ⟨fun d hd => hd, hclean, ?_⟩
      rw [h0, List.take_zero, List.append_nil, pending]
  obtain ⟨hmem, hclean, hpend⟩ := hfront
  refine ⟨hclean, ?_, ?_, ?_⟩
  · intro d hd
    rw [hcaches', List.mem_append, List.mem_singleton] at hd
    rcases hd with hd | rfl
    · exact hq d (hmem d hd)
    · omega
  · rw [pending, hcaches', List.flatMap_append, List.flatMap_singleton, hbytes, hpend, List.append_assoc]
  · intro hfilled d hd
    rw [hcaches', List.mem_append, List.mem_singleton] at hd
    rcases hd with hd | rfl
    · exact hfilled d (hmem d hd)
    · omega

/-! ## A `dealSend` -/

section DealSend
variable {onFail : SendPool × SendQueue → Except Fault (SendPool × SendQueue)}

/-- The loop sends everything, or a write fails and the caches behind that one stay queued. -/
theorem drain_cases {cs : List SendCache} {s : SendPool} {ws : List WriteRes} {s' : SendPool}
    {q' : SendQueue} {ret : Int} {out : Bytes} (h : drain onFail cs s ws = .ok ((s', q'), ret, out)) :
    (queueEnd (cs.map (·.offset)) ws = .done ∧ ret = 0 ∧ (s.Clean → s'.Clean) ∧ q' = new) ∨
      (queueEnd (cs.map (·.offset)) ws = .failed ∧ ret = -1 ∧ ∃ rest s₁ s₂ p, rest <:+ cs ∧ (s.Clean → s₁.Clean) ∧
        onFail (s₁, ⟨none, rest⟩) = .ok (s₂, q') ∧ s' = s₂.pushSendcache p) := by
  induction cs generalizing s ws ret out with
  | nil =>
    cases h
    exact .inl ⟨rfl, rfl, id, rfl⟩
  | cons p rest ih =>
    rw [drain] at h
    obtain ⟨_, hassert, h⟩ := bind_eq_ok.mp h
    have hover : ¬ RPC_BUFF_SIZE < p.offset := not_lt.mpr (of_decide_eq_true (assert_eq_ok.mp hassert))
    have hlen : (p.mem.bytes.take p.offset).length = p.offset := by
      have := p.mem.size
      rw [List.length_take]
      omega
    -- the caches behind the first one
    have hlift : ∀ {ws₁ r o p'}, drain onFail rest (s.pushSendcache p') ws₁ = .ok ((s', q'), r, o) →
        queueEnd (p.offset :: rest.map (·.offset)) ws = queueEnd (rest.map (·.offset)) ws₁ →
        (queueEnd (p.offset :: rest.map (·.offset)) ws = .done ∧ r = 0 ∧ (s.Clean → s'.Clean) ∧ q' = new) ∨
          (queueEnd (p.offset :: rest.map (·.offset)) ws = .failed ∧ r = -1 ∧ ∃ rest' s₁ s₂ p'', rest' <:+ p :: rest ∧
            (s.Clean → s₁.Clean) ∧ onFail (s₁, ⟨none, rest'⟩) = .ok (s₂, q') ∧ s' = s₂.pushSendcache p'') := by
      intro ws₁ r o p' h hend
      rw [hend]
      rcases ih h with ⟨hdone, hr, hclean, hq⟩ | ⟨hfailed, hr, rest', s₁, s₂, p'', hsuf, hclean, hfail⟩
      · exact .inl ⟨hdone, hr, fun hs => hclean (SendPool.clean_push hs p'), hq⟩
      · exact .inr ⟨hfailed, hr, rest', s₁, s₂, p'', hsuf.trans (List.suffix_cons p rest),
          fun hs => hclean (SendPool.clean_push hs p'), hfail⟩
    rw [List.map_cons]
    split at h
    · next h0 =>
      apply hlift h
      rw [queueEnd, if_neg hover, h0, cacheEnd]
      rfl
    · obtain ⟨⟨p', r, o, ws'⟩, hsend, h⟩ := bind_eq_ok.mp h
      obtain ⟨⟨r₁, o₁, ws₁⟩, hloop, hk⟩ := bind_eq_ok.mp hsend
      cases hk
      have hcache : cacheEnd p.offset ws = (if r = -1 then .failed else .done, ws') := by
        rw [← hlen, cacheEnd_eq, hloop]
      dsimp only at h
      split at h
      · next hr =>
        obtain ⟨⟨s₂, q₂⟩, hfail, h⟩ := bind_eq_ok.mp h
        cases h
        refine .inr ⟨?_, rfl, rest, s, s₂, _, List.suffix_cons p rest, id, hfail, rfl⟩
        rw [queueEnd, if_neg hover, hcache, if_pos hr]
        rfl
      · next hr =>
        obtain ⟨⟨⟨s₂, q₂⟩, r₂, o₂⟩, hrest, h⟩ := bind_eq_ok.mp h
        cases h
        apply hlift hrest
        rw [queueEnd, if_neg hover, hcache, if_neg hr]
        rfl

theorem dealSend_ret {s s' : SendPool} {q q' : SendQueue} {ws : List WriteRes} {ret : Int} {out : Bytes}
    (h : q.dealSend onFail s ws = .ok ((s', q'), ret, out)) : ret = -1 ↔ clientEnd q ws = .failed := by
  rw [clientEnd]
  rcases dealSend_cases h with ⟨⟨c, hcaches, h0⟩, heq⟩ | ⟨hne, hdrain⟩
  · cases heq
    simp [hcaches, queueEnd, h0, cacheEnd, SendEnd.andThen]
  · rw [if_neg hne]
    rcases drain_cases hdrain with ⟨hend, rfl, -⟩ | ⟨hend, rfl, -⟩
    · simp [hend]
    · simp [hend]

theorem dosendLoop_error {bs : Bytes} {ws : List WriteRes} {e : Fault} (h : SendCache.dosendLoop bs ws = .error e) :
    e = .diverge := by
  induction ws generalizing bs with
  | nil =>
    cases bs with
    | nil => cases h
    | cons b bs =>
      cases h
      rfl
  | cons w ws ih =>
    cases bs with
    | nil => cases h
    | cons b bs =>
      cases w with
      | again => exact ih h
      | error => cases h
      | wrote k =>
        rw [SendCache.dosendLoop] at h
        rcases bind_eq_error h with h | ⟨r, -, h⟩
        · exact ih h
        · cases h

theorem drain_ne_null (hfail : ∀ sq, onFail sq ≠ .error .null) (cs : List SendCache) (s : SendPool)
    (ws : List WriteRes) : drain onFail cs s ws ≠ .error .null := by
  induction cs generalizing s ws with
  | nil =>
    intro h
    cases h
  | cons p rest ih =>
    intro h
    rw [drain] at h
    rcases bind_eq_error h with h | ⟨_, -, h⟩
    · cases assert_eq_error h
    · split at h
      · exact ih _ _ h
      · rcases bind_eq_error h with h | ⟨⟨p', r, o, ws'⟩, -, h⟩
        · rcases bind_eq_error h with h | ⟨_, -, h⟩
          · cases dosendLoop_error h
          · cases h
        · dsimp only at h
          split at h
          · rcases bind_eq_error h with h | ⟨_, -, h⟩
            · exact hfail _ h
            · cases h
          · rcases bind_eq_error h with h | ⟨_, -, h⟩
            · exact ih _ _ h
            · cases h

/-- `dealSend` dereferences a null `m_pSendCache` exactly if nothing is queued and there is no cache. -/
theorem dealSend_eq_null (hfail : ∀ sq, onFail sq ≠ .error .null) (s : SendPool) (q : SendQueue) (ws : List WriteRes) :
    q.dealSend onFail s ws = .error .null ↔ q.caches = [] := by
  obtain ⟨p, queue⟩ := q
  unfold dealSend
  split
  · next hqueue hp =>
    dsimp only at hqueue hp
    simp [hqueue, hp, caches]
  · next c hqueue hp =>
    dsimp only at hqueue hp
    subst hqueue hp
    split
    · simp [caches]
    · simp [drain_ne_null hfail, caches]
  · next hqueue =>
    dsimp only at hqueue
    simp [drain_ne_null hfail, hqueue, caches]

end DealSend

end SendQueue

/-! ## Runs with failing writes -/

/-- What follows a `write` that fails: the `connRpcObj` is closed, by `connObj::OnClose`, which leaves its caches alone, as
does a `DelConn` that does not find the `tcpclient`; or the `tcpclient` is reconnected. What either has sent through another
sender is an append of its own. -/
inductive AfterFail
  | closed
  | reconnected

/-- What that does to the pool and the queue. -/
def AfterFail.onFail (name : ServerName) : AfterFail → SendPool × SendQueue → Except Fault (SendPool × SendQueue)
  | .closed, sq => return sq
  | .reconnected, (s, q) => q.appendSend name s takeProxy

theorem AfterFail.onFail_ne_null (name : ServerName) (f : AfterFail) (sq : SendPool × SendQueue) :
    f.onFail name sq ≠ .error .null := by
  cases f with
  | closed =>
    intro h
    cases h
  | reconnected => exact SendQueue.appendSend_ne_null name sq.1 sq.2 takeProxy

/-- What a `dealSend` keeps, whatever its writes answer. -/
theorem SendQueue.dealSend_inv {name : ServerName} {f : AfterFail} {s s' : SendPool} {q q' : SendQueue}
    {ws : List WriteRes} {ret : Int} {out : Bytes} (hs : s.Clean) (hb : q.Bounded) (hf : q.Filled)
    (h : q.dealSend (f.onFail name) s ws = .ok ((s', q'), ret, out)) : s'.Clean ∧ q'.Bounded ∧ q'.Filled := by
  rcases dealSend_cases h with ⟨-, heq⟩ | ⟨-, hdrain⟩
  · cases heq
    exact ⟨hs, hb, hf⟩
  rcases drain_cases hdrain with ⟨-, -, hs', rfl⟩ | ⟨-, -, rest, s₁, s₂, p, hsuf, hclean, hfail, rfl⟩
  · exact ⟨hs' hs, fun c hc => by simp [caches, new] at hc, filled_new⟩
  · have hs₁ := hclean hs
    have hrest : ∀ c ∈ (⟨none, rest⟩ : SendQueue).caches, c ∈ q.caches := by
      intro c hc
      rw [caches, Option.toList_none, List.append_nil] at hc
      exact hsuf.subset hc
    have hb' : Bounded ⟨none, rest⟩ := fun c hc => hb c (hrest c hc)
    have hf' : Filled ⟨none, rest⟩ := fun c hc => hf c (hrest c hc)
    cases f with
    | closed =>
      cases hfail
      exact ⟨SendPool.clean_push hs₁ p, hb', hf'⟩
    | reconnected =>
      obtain ⟨hs₂, hb₂, -, hf₂⟩ := appendSend_inv hs₁ hb' hfail
      exact ⟨SendPool.clean_push hs₂ p, hb₂, hf₂ hf'⟩

theorem clientEnd_error {c : SendCache} (hpos : 0 < c.offset) (hle : c.offset ≤ RPC_BUFF_SIZE) :
    clientEnd ⟨some c, []⟩ [.error] = .failed := by
  obtain ⟨n, hn⟩ : ∃ n, c.offset = n + 1 := ⟨c.offset - 1, by omega⟩
  simp only [clientEnd, SendQueue.caches, Option.toList, List.nil_append, List.map_cons, queueEnd]
  rw [if_neg (List.cons_ne_nil _ _), if_neg (by omega), hn, cacheEnd]
  rfl

theorem SendQueue.dealSend_error (name : ServerName) (s : SendPool) {c : SendCache} (hpos : 0 < c.offset)
    (hle : c.offset ≤ RPC_BUFF_SIZE) : SendQueue.dealSend (AfterFail.closed.onFail name) s ⟨some c, []⟩ [.error] =
      .ok ((s.pushSendcache c, .new), -1, []) := by
  have hassert : assert (c.offset ≤ RPC_BUFF_SIZE) = .ok () := assert_eq_ok.mpr (decide_eq_true hle)
  have hsend : c.dosend [.error] = .ok (c, -1, [], []) := by
    have hsize := c.mem.size
    cases hbs : c.mem.bytes.take c.offset with
    | nil =>
      have hlen := congrArg List.length hbs
      rw [List.length_take, List.length_nil] at hlen
      omega
    | cons b bs =>
      rw [SendCache.dosend, hbs]
      rfl
  have hdrain : drain (AfterFail.closed.onFail name) [c] s [.error] = .ok ((s.pushSendcache c, .new), -1, []) := by
    rw [drain, hassert, ok_bind, if_neg (by omega), hsend]
    rfl
  exact (if_neg (by omega)).trans hdrain

theorem TcpClient.onClose_send (name : ServerName) (s : SendPool) (c : TcpClient) (fd : Int) :
    c.onClose name s false fd = (fun sq => (sq.1, { c with sock := fd, send := sq.2 })) <$>
      AfterFail.reconnected.onFail name (s, c.send) := by
  rw [onClose, if_neg Bool.false_ne_true, doconnect, appendSend, AfterFail.onFail, initSock]
  dsimp only
  cases c.send.appendSend name s takeProxy with
  | ok r => rfl
  | error e => rfl

/-- The calls of a process on its senders, which share a pool. -/
inductive SendCall (ι : Type)
  | append (i : ι) (m : RpcMsg)
  | callNet (i : ι) (m : RpcMsg)
  | deal (i : ι) (ws : List WriteRes) (f : AfterFail)

/-- The sender that is called. -/
def SendCall.sender {ι : Type} : SendCall ι → ι
  | .append i _ | .callNet i _ | .deal i _ _ => i

namespace SendWorld
variable {ι : Type} [DecidableEq ι]

/-- One call, whatever its writes answer. -/
def call (name : ServerName) (w : SendWorld ι) : SendCall ι → Except Fault (SendWorld ι)
  | .append i m => do return w.set i (← (w.queue i).appendSend name w.pool m)
  | .callNet i m => do return w.set i (← (w.queue i).rpcCallNet name w.pool m)
  | .deal i ws f => do return w.set i (← (w.queue i).dealSend (f.onFail name) w.pool ws).1

/-- No cache counts more bytes than it holds, those in the pool are empty, and those that wait to be sent are not. -/
structure Waiting (w : SendWorld ι) : Prop where
  clean : w.pool.Clean
  bounded : ∀ i, (w.queue i).Bounded
  filled : ∀ i, (w.queue i).Filled

omit [DecidableEq ι] in
theorem waiting_new : (new : SendWorld ι).Waiting where
  clean _ hp := by simp [new] at hp
  bounded i c hc := by simp [new, SendQueue.new, SendQueue.caches] at hc
  filled _ := SendQueue.filled_new

theorem Waiting.set {w : SendWorld ι} (hw : w.Waiting) (i : ι) {sq : SendPool × SendQueue} (hs : sq.1.Clean)
    (hb : sq.2.Bounded) (hf : sq.2.Filled) : (w.set i sq).Waiting where
  clean := hs
  bounded := (Function.forall_update_iff _ fun _ q => SendQueue.Bounded q).mpr ⟨hb, fun j _ => hw.bounded j⟩
  filled := (Function.forall_update_iff _ fun _ q => SendQueue.Filled q).mpr ⟨hf, fun j _ => hw.filled j⟩

theorem waiting_append {name : ServerName} {w : SendWorld ι} (hw : w.Waiting) {i : ι} {m : RpcMsg}
    {sq : SendPool × SendQueue} (h : (w.queue i).appendSend name w.pool m = .ok sq) :
    (w.set i sq).Waiting ∧ sq.2.pending = (w.queue i).pending ++ record name m := by
  obtain ⟨hs, hb, hpend, hf⟩ := SendQueue.appendSend_inv hw.clean (hw.bounded i) h
  exact ⟨hw.set i hs hb (hf (hw.filled i)), hpend⟩

theorem waiting_call {name : ServerName} {w w' : SendWorld ι} (hw : w.Waiting) {o : SendCall ι}
    (h : w.call name o = .ok w') : w'.Waiting := by
  cases o with
  | append i m =>
    obtain ⟨sq, happ, h⟩ := bind_eq_ok.mp h
    cases h
    exact (waiting_append hw happ).1
  | callNet i m =>
    obtain ⟨sq, happ, h⟩ := bind_eq_ok.mp h
    cases h
    exact (waiting_append hw happ).1
  | deal i ws f =>
    obtain ⟨⟨⟨s', q'⟩, ret, out⟩, hdeal, h⟩ := bind_eq_ok.mp h
    cases h
    obtain ⟨hs, hb, hf⟩ := SendQueue.dealSend_inv hw.clean (hw.bounded i) (hw.filled i) hdeal
    exact hw.set i hs hb hf

theorem call_queue {name : ServerName} {w w' : SendWorld ι} {o : SendCall ι} (h : w.call name o = .ok w') {i : ι}
    (hi : i ≠ o.sender) : w'.queue i = w.queue i := by
  cases o <;>
  · obtain ⟨r, -, h⟩ := bind_eq_ok.mp h
    cases h
    exact Function.update_of_ne hi _ _

/-- **When `dealSend` dereferences a null `m_pSendCache`.** In every state reached by appends and `dealSend`s of any
outcome, it does so exactly if the sender has nothing to send. An append leaves something to send; a `dealSend` whose
writes do not fail leaves nothing, so the next one dereferences the null pointer unless there is an append in between. -/
theorem null_iff (name : ServerName) {w : SendWorld ι} (h : Reach (call name) (fun _ _ => True) new w) (i : ι) :
    (∀ ws f, w.call name (.deal i ws f) = .error .null ↔ (w.queue i).pending = []) ∧
    (∀ m w', w.call name (.append i m) = .ok w' ∨ w.call name (.callNet i m) = .ok w' → (w'.queue i).pending ≠ []) ∧
    (∀ ws f w', WriteRes.error ∉ ws → w.call name (.deal i ws f) = .ok w' → (w'.queue i).pending = []) ∧
    ∀ o w', i ≠ o.sender → w.call name o = .ok w' → w'.queue i = w.queue i := by
  have hw : w.Waiting := by
    apply h.invariant waiting_new
    intro w o w' hw _ hs
    exact waiting_call hw hs
  refine ⟨?_, ?_, ?_, fun o w' hi hs => call_queue hs hi⟩
  · intro ws f
    rw [(hw.filled i).pending_eq_nil, ← SendQueue.dealSend_eq_null (f.onFail_ne_null name) w.pool _ ws]
    constructor
    · intro hs
      rcases bind_eq_error hs with hs | ⟨_, -, hs⟩
      · exact hs
      · cases hs
    · intro hs
      simp only [call, hs]
      rfl
  · intro m w' hs
    have happend : ∀ w', w.call name (.append i m) = .ok w' → (w'.queue i).pending ≠ [] := by
      intro w' hs
      obtain ⟨sq, happ, hs⟩ := bind_eq_ok.mp hs
      cases hs
      simp [set, (waiting_append hw happ).2, record, le]
    exact hs.elim (happend w') (happend w')
  · intro ws f w' hws hs
    obtain ⟨⟨⟨s', q'⟩, ret, out⟩, hdeal, hs⟩ := bind_eq_ok.mp hs
    cases hs
    obtain ⟨-, -, hpend, -⟩ := SendQueue.dealSend_ok hw.clean (hw.bounded i) hws hdeal
    simpa [set] using hpend

/-- With something appended there is nothing to fear. -/
theorem null_iff_offline : ∃ w : SendWorld Unit, Reach (call game1) (fun _ _ => True) new w ∧
    ∀ ws f, w.call game1 (.deal () ws f) ≠ .error .null := by
  obtain ⟨w, happ, -⟩ := append_first game1 () (m := offlineMsg) (by decide)
  have hcall : (new : SendWorld Unit).call game1 (.append () offlineMsg) = .ok w := happ
  have hreach : Reach (call game1) (fun _ _ => True) new w := Reach.refl.step trivial hcall
  refine ⟨w, hreach, fun ws f hnull => ?_⟩
  have hpend := (null_iff game1 .refl ()).2.1 offlineMsg w (.inl hcall)
  exact hpend (((null_iff game1 hreach ()).1 ws f).mp hnull)

/-- The first `dealSend` of a new sender. -/
theorem null_new : ∃ w : SendWorld Unit, Reach (call game1) (fun _ _ => True) new w ∧
    w.call game1 (.deal () [] .closed) = .error .null := ⟨new, .refl, rfl⟩

end SendWorld

end KcpServer
