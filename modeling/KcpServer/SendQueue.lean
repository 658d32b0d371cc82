import KcpServer.Codec

/-!
# The send path: `AppendSend`, `rpcCallNet`, `dealSend`

A `tcpclient` and a `connRpcObj` each hold a current send cache and a queue of full ones; all of them share
`tcpclientMgr`'s pool. The two classes' functions are the same code, modelled once.

An append compares the record's size without its length word with what is left of the current cache, once with `>` to
rotate to a new cache and once with `<` in an assertion, and then writes the record with its length word. `NearEnd` is
the band of sizes where the three disagree: `appendSend_ok` and `appendSend_error` say that an append stays inside its
cache exactly outside of that band, and `append_bounded_iff` says it over whole runs.
-/

namespace KcpServer
open Lib

/-- `m_pSendCache` and `m_sendCacheQueue`. -/
structure SendQueue where
  pSendCache : Option SendCache
  queue : List SendCache

namespace SendQueue

/-- As a constructor of `tcpclient` or `connRpcObj` leaves it. -/
def new : SendQueue := ⟨none, []⟩

def caches (q : SendQueue) : List SendCache := q.queue ++ q.pSendCache.toList

/-- The end of `tcpclient::AppendSend`: the assertion and the write into the chosen cache. -/
def putRecord (name : ServerName) (c : SendCache) (m : RpcMsg) : Except Fault SendCache := do
  assert (getRpcSize name m < c.getLeftSize)
  let (mem, offset) ← encodeBuffer name c.mem c.offset m
  return { c with mem }.updateOffset offset

/-- `tcpclient::AppendSend` -/
def appendSend (name : ServerName) (s : SendPool) (q : SendQueue) (m : RpcMsg) :
    Except Fault (SendPool × SendQueue) := do
  let needSize := getRpcSize name m
  let (c, s) := match q.pSendCache with
    | some c => (c, s)
    | none => s.popSendcache
  let (c, queue, s) :=
    if needSize > c.getLeftSize then
      let (c', s) := s.popSendcache
      (c', q.queue ++ [c], s)
    else
      (c, q.queue, s)
  let c ← putRecord name c m
  return (s, ⟨some c, queue⟩)

/-- `connRpcObj::rpcCallNet` -/
def rpcCallNet (name : ServerName) (s : SendPool) (q : SendQueue) (m : RpcMsg) :
    Except Fault (SendPool × SendQueue) := q.appendSend name s m

/-- The `while` loop of `dealSend` over the caches still queued, with the answers of `write` still to come: the pool and
the queue afterwards, the return value and the bytes written. `onFail` is what the class does about a connection whose
`write` failed. -/
def drain (onFail : SendPool × SendQueue → Except Fault (SendPool × SendQueue)) :
    List SendCache → SendPool → List WriteRes → Except Fault ((SendPool × SendQueue) × Int × Bytes)
  | [], s, _ => return ((s, new), 0, [])
  | p :: rest, s, ws => do
    assert (p.offset ≤ RPC_BUFF_SIZE)
    if p.offset = 0 then
      drain onFail rest (s.pushSendcache p) ws
    else
      let (p, ret, out, ws) ← p.dosend ws
      if ret = -1 then
        let (s, q) ← onFail (s, ⟨none, rest⟩)
        return ((s.pushSendcache p, q), -1, out)
      else
        let (sq, ret, out') ← drain onFail rest (s.pushSendcache p) ws
        return (sq, ret, out ++ out')

/-- `tcpclient::dealSend`, `connRpcObj::dealSend` -/
def dealSend (onFail : SendPool × SendQueue → Except Fault (SendPool × SendQueue)) (s : SendPool) (q : SendQueue)
    (ws : List WriteRes) : Except Fault ((SendPool × SendQueue) × Int × Bytes) :=
  match q.queue, q.pSendCache with
  | [], none => .error .null
  | [], some c => if c.offset = 0 then .ok ((s, q), 0, []) else drain onFail q.caches s ws
  | _ :: _, _ => drain onFail q.caches s ws

/-! ## One append -/

/-- What is left of the cache that the next append looks at. -/
def left (q : SendQueue) : Nat :=
  match q.pSendCache with
  | some c => RPC_BUFF_SIZE - c.offset
  | none => RPC_BUFF_SIZE

theorem left_le (q : SendQueue) : q.left ≤ RPC_BUFF_SIZE := by
  unfold left
  split
  · exact Nat.sub_le _ _
  · exact le_rfl

/-- The record's size fits in what is left, the record with its length word does not. -/
def NearEnd (name : ServerName) (q : SendQueue) (m : RpcMsg) : Prop :=
  getRpcSize name m ≤ q.left ∧ q.left < getRpcSize name m + 4

/-- No cache counts more bytes than it holds. -/
def Bounded (q : SendQueue) : Prop := ∀ c ∈ q.caches, c.offset ≤ RPC_BUFF_SIZE

def pending (q : SendQueue) : Bytes := q.caches.flatMap fun c => c.mem.bytes.take c.offset

theorem bounded_mk {c : SendCache} {queue : List SendCache} :
    Bounded ⟨some c, queue⟩ ↔ c.offset ≤ RPC_BUFF_SIZE ∧ ∀ c ∈ queue, c.offset ≤ RPC_BUFF_SIZE := by
  simp [Bounded, caches, or_imp, forall_and, and_comm]

theorem pending_mk (c : SendCache) (queue : List SendCache) : pending ⟨some c, queue⟩ =
    (queue.flatMap fun c => c.mem.bytes.take c.offset) ++ c.mem.bytes.take c.offset := by
  simp [pending, caches]

theorem putRecord_ok (name : ServerName) (m : RpcMsg) {c : SendCache}
    (hfit : c.offset + recordSize name m ≤ RPC_BUFF_SIZE) :
    ∃ c', putRecord name c m = .ok c' ∧ c'.offset = c.offset + recordSize name m ∧
      c'.mem.bytes.take c'.offset = c.mem.bytes.take c.offset ++ record name m := by
  have hR := RPC_BUFF_SIZE_eq
  have hsize := getRpcSize_add_four name m (by omega)
  have hleft := SendCache.getLeftSize_eq (c := c) (by omega)
  obtain ⟨mem, henc, hbytes⟩ := encodeBuffer_ok c.mem hfit
  have hoff : ({ c with mem }.updateOffset (getRpcSize name m + 4)).offset = c.offset + recordSize name m := by
    simp only [SendCache.updateOffset, uint32]
    omega
  refine ⟨{ c with mem }.updateOffset (getRpcSize name m + 4), ?_, hoff, ?_⟩
  · rw [putRecord, hleft, decide_eq_true (by omega), henc]
    rfl
  · have hc := c.mem.size
    rw [hoff, ← length_record]
    change mem.bytes.take _ = _
    rw [hbytes, take_memcpy (by omega)]

/-- A record that does not fit is either refused by the assertion or written over the end of the cache. -/
theorem putRecord_error (name : ServerName) (m : RpcMsg) {c : SendCache}
    (hfit : RPC_BUFF_SIZE < c.offset + recordSize name m) : ∃ e, putRecord name c m = .error e := by
  rw [putRecord]
  cases h : decide (getRpcSize name m < c.getLeftSize) with
  | false => exact ⟨.assertion, rfl⟩
  | true =>
    rw [encodeBuffer_error c.mem hfit]
    exact ⟨.bounds, rfl⟩

theorem appendSend_here (name : ServerName) (s : SendPool) {c : SendCache} (queue : List SendCache) {m : RpcMsg}
    (hfit : c.offset + recordSize name m ≤ RPC_BUFF_SIZE) : ∃ c',
    appendSend name s ⟨some c, queue⟩ m = .ok (s, ⟨some c', queue⟩) ∧ c'.offset = c.offset + recordSize name m ∧
      c'.mem.bytes.take c'.offset = c.mem.bytes.take c.offset ++ record name m := by
  have hR := RPC_BUFF_SIZE_eq
  have hsize := getRpcSize_add_four name m (by omega)
  have hleft := SendCache.getLeftSize_eq (c := c) (by omega)
  obtain ⟨c', hput, hoff, hbytes⟩ := putRecord_ok name m hfit
  refine ⟨c', ?_, hoff, hbytes⟩
  rw [appendSend]
  dsimp only
  rw [if_neg (by omega)]
  dsimp only
  rw [hput]
  rfl

theorem appendSend_ok {name : ServerName} {s : SendPool} {q : SendQueue} {m : RpcMsg} (hs : s.Clean)
    (hq : q.Bounded) (hfit : recordSize name m ≤ RPC_BUFF_SIZE) (hne : ¬ q.NearEnd name m) :
    ∃ s' q', q.appendSend name s m = .ok (s', q') ∧ s'.Clean ∧ q'.Bounded ∧
      q'.pending = q.pending ++ record name m := by
  have hR := RPC_BUFF_SIZE_eq
  have hsize := getRpcSize_add_four name m (by omega)
  obtain ⟨p, queue⟩ := q
  cases p with
  | none =>
    -- a cache out of the pool is empty, so there is room
    have h0 := SendPool.popSendcache_offset hs
    obtain ⟨c', hput, hoff, hbytes⟩ := putRecord_ok name m (c := s.popSendcache.1) (by omega)
    have hleft := SendCache.getLeftSize_eq (c := s.popSendcache.1) (by omega)
    refine ⟨s.popSendcache.2, ⟨some c', queue⟩, ?_, SendPool.clean_pop hs, ?_, ?_⟩
    · rw [appendSend]
      dsimp only
      rw [if_neg (by omega)]
      dsimp only
      rw [hput]
      rfl
    · exact bounded_mk.mpr ⟨by omega, fun d hd => hq d (List.mem_append_left _ hd)⟩
    · rw [pending_mk, hbytes, h0]
      simp [pending, caches]
  | some c =>
    obtain ⟨hc, hqueue⟩ := bounded_mk.mp hq
    have hleft := SendCache.getLeftSize_eq hc
    by_cases hrot : getRpcSize name m > c.getLeftSize
    · have h0 := SendPool.popSendcache_offset hs
      obtain ⟨c', hput, hoff, hbytes⟩ := putRecord_ok name m (c := s.popSendcache.1) (by omega)
      refine ⟨s.popSendcache.2, ⟨some c', queue ++ [c]⟩, ?_, SendPool.clean_pop hs, ?_, ?_⟩
      · rw [appendSend]
        dsimp only
        rw [if_pos hrot]
        dsimp only
        rw [hput]
        rfl
      · refine bounded_mk.mpr ⟨by omega, fun d hd => ?_⟩
        rcases List.mem_append.mp hd with hd | hd
        · exact hqueue d hd
        · rw [List.mem_singleton.mp hd]; exact hc
      · rw [pending_mk, pending_mk, hbytes, h0]
        simp
    · simp only [NearEnd, left] at hne
      obtain ⟨c', happ, hoff, hbytes⟩ := appendSend_here name s queue (show c.offset + recordSize name m ≤ _ by omega)
      refine ⟨s, ⟨some c', queue⟩, happ, hs, bounded_mk.mpr ⟨by omega, hqueue⟩, ?_⟩
      rw [pending_mk, pending_mk, hbytes, List.append_assoc]

theorem appendSend_new (name : ServerName) {m : RpcMsg} (hfit : recordSize name m ≤ RPC_BUFF_SIZE) :
    ∃ c, new.appendSend name ⟨[], 0⟩ m = .ok (⟨[], 1⟩, ⟨some c, []⟩) ∧ c.offset = recordSize name m := by
  have hR := RPC_BUFF_SIZE_eq
  have hsize := getRpcSize_add_four name m (by omega)
  have hleft : (SendCache.new 0).getLeftSize = RPC_BUFF_SIZE := rfl
  have h0 : (SendCache.new 0).offset = 0 := rfl
  obtain ⟨c, hput, hoff, -⟩ := putRecord_ok name m (c := .new 0) (by omega)
  refine ⟨c, ?_, by omega⟩
  rw [appendSend]
  dsimp only [new, SendPool.popSendcache]
  rw [if_neg (by omega)]
  dsimp only
  rw [hput]
  rfl

theorem appendSend_error {name : ServerName} {s : SendPool} {q : SendQueue} {m : RpcMsg} (hq : q.Bounded)
    (hfit : recordSize name m ≤ RPC_BUFF_SIZE) (hne : q.NearEnd name m) :
    ∃ e, q.appendSend name s m = .error e := by
  have hR := RPC_BUFF_SIZE_eq
  have hsize := getRpcSize_add_four name m (by omega)
  obtain ⟨p, queue⟩ := q
  cases p with
  | none =>
    simp only [NearEnd, left] at hne
    omega
  | some c =>
    obtain ⟨hc, -⟩ := bounded_mk.mp hq
    have hleft := SendCache.getLeftSize_eq hc
    simp only [NearEnd, left] at hne
    obtain ⟨e, he⟩ := putRecord_error name m (c := c) (by omega)
    refine ⟨e, ?_⟩
    rw [appendSend]
    dsimp only
    rw [if_neg (by omega)]
    dsimp only
    rw [he]
    rfl

/-! ## One `dealSend` -/

theorem dosendLoop_ok {bs : Bytes} {ws : List WriteRes} (hws : WriteRes.error ∉ ws) {ret : Int} {out : Bytes}
    {ws' : List WriteRes} (h : SendCache.dosendLoop bs ws = .ok (ret, out, ws')) :
    ret = 0 ∧ out = bs ∧ WriteRes.error ∉ ws' := by
  induction ws generalizing bs ret out ws' with
  | nil =>
    cases bs with
    | nil => cases h; exact ⟨rfl, rfl, hws⟩
    | cons b bs => cases h
  | cons w ws ih =>
    have hws' : WriteRes.error ∉ ws := fun hm => hws (List.mem_cons_of_mem w hm)
    cases bs with
    | nil => cases h; exact ⟨rfl, rfl, hws⟩
    | cons b bs =>
      cases w with
      | again => exact ih hws' h
      | error => exact absurd List.mem_cons_self hws
      | wrote k =>
        rw [SendCache.dosendLoop] at h
        obtain ⟨⟨r, o, w'⟩, hr, hk⟩ := bind_eq_ok.mp h
        cases hk
        obtain ⟨hret, hout, herr⟩ := ih hws' hr
        exact ⟨hret, by rw [hout, List.take_append_drop], herr⟩

variable {onFail : SendPool × SendQueue → Except Fault (SendPool × SendQueue)}

/-- The loop whose writes do not fail sends every cache and puts it into the pool. -/
theorem drain_ok {cs : List SendCache} {s : SendPool} {ws : List WriteRes} (hs : s.Clean)
    (hws : WriteRes.error ∉ ws) {s' : SendPool} {q' : SendQueue} {ret : Int} {out : Bytes}
    (h : drain onFail cs s ws = .ok ((s', q'), ret, out)) :
    s'.Clean ∧ q' = new ∧ ret = 0 ∧ (out = cs.flatMap fun c => c.mem.bytes.take c.offset) ∧ s'.guid = s.guid ∧
      s'.pool.map (·.uid) = s.pool.map (·.uid) ++ cs.map (·.uid) := by
  induction cs generalizing s ws s' q' ret out with
  | nil =>
    cases h
    exact ⟨hs, rfl, rfl, rfl, rfl, by simp⟩
  | cons p rest ih =>
    rw [drain] at h
    obtain ⟨_, -, h⟩ := bind_eq_ok.mp h
    split at h
    · next h0 =>
      obtain ⟨hc, hq, hret, hout, hguid, huids⟩ := ih (SendPool.clean_push hs p) hws h
      refine ⟨hc, hq, hret, by rw [hout]; simp [h0], hguid, ?_⟩
      rw [huids]
      simp [SendPool.pushSendcache, SendCache.init]
    · obtain ⟨⟨p', r, o, w'⟩, hsend, h⟩ := bind_eq_ok.mp h
      obtain ⟨⟨r₁, o₁, w₁⟩, hloop, hk⟩ := bind_eq_ok.mp hsend
      cases hk
      obtain ⟨rfl, rfl, herr⟩ := dosendLoop_ok hws hloop
      dsimp only at h
      rw [if_neg (by decide)] at h
      obtain ⟨⟨⟨s₂, q₂⟩, r₂, o₂⟩, hrest, hk⟩ := bind_eq_ok.mp h
      cases hk
      obtain ⟨hc, hq, hret, hout, hguid, huids⟩ := ih (SendPool.clean_push hs _) herr hrest
      refine ⟨hc, hq, hret, by rw [hout]; rfl, hguid, ?_⟩
      rw [huids]
      simp [SendPool.pushSendcache, SendCache.init, SendCache.updateOffset]

/-- A `dealSend` that returns had a single empty cache and has changed nothing, or it has run the loop. -/
theorem dealSend_cases {s : SendPool} {q : SendQueue} {ws : List WriteRes} {r : (SendPool × SendQueue) × Int × Bytes}
    (h : dealSend onFail s q ws = .ok r) : ((∃ c, q.caches = [c] ∧ c.offset = 0) ∧ r = ((s, q), 0, [])) ∨
      (q.caches ≠ [] ∧ drain onFail q.caches s ws = .ok r) := by
  unfold dealSend at h
  split at h
  · cases h
  · next c hqueue hp =>
    have hcaches : q.caches = [c] := by simp [caches, hqueue, hp]
    split at h
    · next h0 =>
      cases h
      exact .inl ⟨⟨c, hcaches, h0⟩, rfl⟩
    · exact .inr ⟨by simp [hcaches], h⟩
  · next hqueue => exact .inr ⟨by simp [caches, hqueue], h⟩

/-- A `dealSend` that returns and whose writes do not fail sends everything, in order. -/
theorem dealSend_ok {s : SendPool} {q : SendQueue} {ws : List WriteRes} (hs : s.Clean) (hq : q.Bounded)
    (hws : WriteRes.error ∉ ws) {s' : SendPool} {q' : SendQueue} {ret : Int} {out : Bytes}
    (h : dealSend onFail s q ws = .ok ((s', q'), ret, out)) :
    s'.Clean ∧ q'.Bounded ∧ q'.pending = [] ∧ out = q.pending := by
  rcases dealSend_cases h with ⟨⟨c, hcaches, h0⟩, heq⟩ | ⟨-, hdrain⟩
  · cases heq
    have hpend : q.pending = [] := by simp [pending, hcaches, h0]
    exact ⟨hs, hq, hpend, hpend.symm⟩
  · obtain ⟨hc, rfl, -, hout, -⟩ := drain_ok hs hws hdrain
    exact ⟨hc, fun _ hm => by simp [caches, new] at hm, rfl, hout⟩

theorem dealSend_one (onFail : SendPool × SendQueue → Except Fault (SendPool × SendQueue)) (s : SendPool) {c : SendCache} (hpos : 0 < c.offset) (hsmall : c.offset ≤ SEND_SIZE) :
    dealSend onFail s ⟨some c, []⟩ [.wrote c.offset] =
      .ok ((s.pushSendcache (c.updateOffset c.offset), new), 0, c.mem.bytes.take c.offset) := by
  have hR := RPC_BUFF_SIZE_eq
  have hS : SEND_SIZE = 65536 := rfl
  have hsize := c.mem.size
  have hlen : (c.mem.bytes.take c.offset).length = c.offset := by
    rw [List.length_take]
    omega
  have hassert : assert (c.offset ≤ RPC_BUFF_SIZE) = .ok () := assert_eq_ok.mpr (decide_eq_true (by omega))
  have hloop : SendCache.dosendLoop (c.mem.bytes.take c.offset) [.wrote c.offset] =
      .ok (0, c.mem.bytes.take c.offset, []) := by
    cases hbs : c.mem.bytes.take c.offset with
    | nil =>
      rw [hbs, List.length_nil] at hlen
      omega
    | cons b bs =>
      have hcount : wroteCount c.offset (min (b :: bs).length SEND_SIZE) = (b :: bs).length := by
        rw [hbs] at hlen
        unfold wroteCount
        omega
      rw [SendCache.dosendLoop, hcount, List.drop_length, List.take_length]
      simp [SendCache.dosendLoop, Pure.pure, Except.pure]
  have hsend : c.dosend [.wrote c.offset] = .ok (c.updateOffset c.offset, 0, c.mem.bytes.take c.offset, []) := by
    rw [SendCache.dosend, hloop]
    rfl
  have hdrain : drain onFail [c] s [.wrote c.offset] = .ok ((s.pushSendcache (c.updateOffset c.offset), new), 0,
      c.mem.bytes.take c.offset) := by
    rw [drain, hassert, ok_bind, if_neg (by omega), hsend, ok_bind]
    simp [drain, Pure.pure, Except.pure]
  exact (if_neg (by omega)).trans hdrain

end SendQueue

/-! ## Runs of the send path -/

/-- The senders of a process, which share one pool. -/
structure SendWorld (ι : Type) where
  pool : SendPool
  queue : ι → SendQueue

/-- What a process does with its senders: `tcpclient::AppendSend`, `connRpcObj::rpcCallNet` and either `dealSend`. -/
inductive SendOp (ι : Type)
  | append (i : ι) (m : RpcMsg)
  | callNet (i : ι) (m : RpcMsg)
  | deal (i : ι) (ws : List WriteRes)

namespace SendWorld
variable {ι : Type} [DecidableEq ι]

def new : SendWorld ι := ⟨⟨[], 0⟩, fun _ => .new⟩

def set (w : SendWorld ι) (i : ι) (sq : SendPool × SendQueue) : SendWorld ι :=
  ⟨sq.1, Function.update w.queue i sq.2⟩

def step (name : ServerName) (w : SendWorld ι) : SendOp ι → Except Fault (SendWorld ι)
  | .append i m => do return w.set i (← (w.queue i).appendSend name w.pool m)
  | .callNet i m => do return w.set i (← (w.queue i).rpcCallNet name w.pool m)
  | .deal i ws => do return w.set i (← (w.queue i).dealSend pure w.pool ws).1

/-- Every record fits in an empty cache, and no `write` fails. -/
def Calls (name : ServerName) (_w : SendWorld ι) : SendOp ι → Prop
  | .append _ m | .callNet _ m => recordSize name m ≤ RPC_BUFF_SIZE
  | .deal _ ws => WriteRes.error ∉ ws

/-- No cache of any sender counts more bytes than it holds, and those in the pool are empty. -/
def Bounded (w : SendWorld ι) : Prop := w.pool.Clean ∧ ∀ i, (w.queue i).Bounded

theorem bounded_set {w : SendWorld ι} {i : ι} {sq : SendPool × SendQueue} (hw : w.Bounded) (hs : sq.1.Clean)
    (hq : sq.2.Bounded) : (w.set i sq).Bounded := by
  refine ⟨hs, ?_⟩
  apply (Function.forall_update_iff _ fun _ q => SendQueue.Bounded q).mpr
  exact ⟨hq, fun j _ => hw.2 j⟩

/-- An append of a record that fits in an empty cache stays inside its cache exactly outside of the band. -/
theorem append_ok_iff {name : ServerName} {w : SendWorld ι} (hw : w.Bounded) (i : ι) {m : RpcMsg}
    (hfit : recordSize name m ≤ RPC_BUFF_SIZE) :
    (∃ w', step name w (.append i m) = .ok w' ∧ w'.Bounded) ↔ ¬ (w.queue i).NearEnd name m := by
  constructor
  · rintro ⟨w', h, -⟩ hne
    obtain ⟨e, he⟩ := SendQueue.appendSend_error (s := w.pool) (hw.2 i) hfit hne
    simp only [step, he, error_bind] at h
    cases h
  · intro hne
    obtain ⟨s', q', happ, hs, hq, -⟩ := SendQueue.appendSend_ok hw.1 (hw.2 i) hfit hne
    exact ⟨w.set i (s', q'), by simp only [step, happ, ok_bind]; rfl, bounded_set hw hs hq⟩

theorem step_bounded {name : ServerName} {w w' : SendWorld ι} {o : SendOp ι} (hw : w.Bounded)
    (ho : Calls name w o) (h : step name w o = .ok w') : w'.Bounded := by
  have happend : ∀ i m, recordSize name m ≤ RPC_BUFF_SIZE → step name w (.append i m) = .ok w' → w'.Bounded := by
    intro i m hfit h
    have hne : ¬ (w.queue i).NearEnd name m := by
      intro hne
      obtain ⟨e, he⟩ := SendQueue.appendSend_error (s := w.pool) (hw.2 i) hfit hne
      simp only [step, he, error_bind] at h
      cases h
    obtain ⟨w'', h', hb⟩ := (append_ok_iff hw i hfit).mpr hne
    rw [h] at h'
    cases h'
    exact hb
  cases o with
  | append i m => exact happend i m ho h
  | callNet i m => exact happend i m ho h
  | deal i ws =>
    obtain ⟨⟨⟨s', q'⟩, ret, out⟩, hdeal, hk⟩ := bind_eq_ok.mp h
    cases hk
    obtain ⟨hs, hq, -⟩ := SendQueue.dealSend_ok hw.1 (hw.2 i) ho hdeal
    exact bounded_set hw hs hq

theorem reach_bounded {name : ServerName} {w : SendWorld ι} (h : Reach (step name) (Calls name) new w) : w.Bounded := by
  refine h.invariant (I := Bounded) ⟨fun _ hp => by simp [new] at hp, fun i c hc => ?_⟩ ?_
  · simp [new, SendQueue.new, SendQueue.caches] at hc
  · intro w o w' hw ho hs
    exact step_bounded hw ho hs

/-- **The send caches' bound, with its exact condition.** In every state reached by appends of records that fit in an
empty cache and by successful `dealSend`s, no cache counts more bytes than it holds; there the next append, of either
class, passes its assertion and writes inside its cache if and only if the record's size is not within four bytes below
what is left of the current cache. -/
theorem append_bounded_iff (name : ServerName) {w : SendWorld ι} (h : Reach (step name) (Calls name) new w) (i : ι)
    (m : RpcMsg) (hfit : recordSize name m ≤ RPC_BUFF_SIZE) :
    w.Bounded ∧
    ((∃ w', step name w (.append i m) = .ok w' ∧ w'.Bounded) ↔
      ¬ (getRpcSize name m ≤ (w.queue i).left ∧ (w.queue i).left < getRpcSize name m + 4)) ∧
    ((∃ w', step name w (.callNet i m) = .ok w' ∧ w'.Bounded) ↔
      ¬ (getRpcSize name m ≤ (w.queue i).left ∧ (w.queue i).left < getRpcSize name m + 4)) := by
  have hw := reach_bounded h
  exact ⟨hw, append_ok_iff hw i hfit, append_ok_iff hw i hfit⟩

theorem append_first (name : ServerName) (i : ι) {m : RpcMsg} (hfit : recordSize name m ≤ RPC_BUFF_SIZE) :
    ∃ w, step name (new : SendWorld ι) (.append i m) = .ok w ∧
      (w.queue i).left = RPC_BUFF_SIZE - recordSize name m := by
  obtain ⟨c', happ, hoff⟩ := SendQueue.appendSend_new name hfit
  refine ⟨(new : SendWorld ι).set i (⟨[], 1⟩, ⟨some c', []⟩), ?_, ?_⟩
  · change (SendQueue.new.appendSend name ⟨[], 0⟩ m >>= fun sq => pure (set new i sq)) = _
    rw [happ]
    rfl
  · simp only [set, Function.update_self, SendQueue.left]
    omega

def zeroMsg (n : Nat) (h : n < 2 ^ 32) : RpcMsg :=
  ⟨⟨[77, 115, 103, 50, 103, 97, 116, 101], by simp⟩, 7, 100, List.replicate n 0, by decide, by simpa using h⟩

theorem recordSize_zeroMsg (n : Nat) (h : n < 2 ^ 32) : recordSize game1 (zeroMsg n h) = 44 + n := by
  simp [recordSize, zeroMsg, game1, CStr.length]

/-- The band is reached: a first record leaves 100 bytes, a second one of 104 bytes, which an empty cache would take, is
compared as 100 and fails its assertion. -/
theorem append_fails : ∃ w : SendWorld Unit,
    Reach (step game1) (Calls game1) new w ∧
    recordSize game1 (zeroMsg 60 (by decide)) ≤ RPC_BUFF_SIZE ∧
    ¬ ∃ w', step game1 w (.append () (zeroMsg 60 (by decide))) = .ok w' ∧ w'.Bounded := by
  have hR := RPC_BUFF_SIZE_eq
  have h1 := recordSize_zeroMsg 4194160 (by norm_num)
  have h2 := recordSize_zeroMsg 60 (by decide)
  obtain ⟨w, hw, hleft⟩ := append_first game1 () (m := zeroMsg 4194160 (by norm_num)) (by omega)
  have hcalls : Calls game1 (new : SendWorld Unit) (.append () (zeroMsg 4194160 (by norm_num))) := by
    change recordSize game1 _ ≤ RPC_BUFF_SIZE
    omega
  have hreach : Reach (step game1) (Calls game1) new w := Reach.refl.step hcalls hw
  refine ⟨w, hreach, by omega, ?_⟩
  rw [append_ok_iff (reach_bounded hreach) () (by omega), not_not]
  have hsize := getRpcSize_add_four game1 (zeroMsg 60 (by decide)) (by omega)
  simp only [SendQueue.NearEnd]
  omega

/-- Two records go into one cache and are sent; the cache goes into the pool. -/
theorem exists_sent : ∃ w₁ w : SendWorld Unit, Reach (step game1) (Calls game1) new w₁ ∧
    (w₁.queue ()).left = RPC_BUFF_SIZE - 88 ∧ step game1 w₁ (.deal () [.wrote 88]) = .ok w ∧
    w.pool.pool.length = 1 ∧ w.queue () = .new := by
  have hR := RPC_BUFF_SIZE_eq
  have hsize : recordSize game1 offlineMsg = 44 := by decide
  have hfits {w : SendWorld Unit} : Calls game1 w (.append () offlineMsg) := by
    change recordSize game1 offlineMsg ≤ RPC_BUFF_SIZE
    omega
  obtain ⟨c, happ, hoff⟩ := SendQueue.appendSend_new game1 (m := offlineMsg) (by omega)
  obtain ⟨c', happ', hoff', -⟩ := SendQueue.appendSend_here game1 ⟨[], 1⟩ (c := c) [] (m := offlineMsg) (by omega)
  set w₀ : SendWorld Unit := set new () (⟨[], 1⟩, ⟨some c, []⟩) with hw₀
  set w₁ : SendWorld Unit := set w₀ () (⟨[], 1⟩, ⟨some c', []⟩) with hw₁
  have h₁ : step game1 (new : SendWorld Unit) (.append () offlineMsg) = .ok w₀ := by
    change (SendQueue.new.appendSend game1 ⟨[], 0⟩ offlineMsg >>= fun sq => pure (set new () sq)) = _
    rw [happ]
    rfl
  have h₂ : step game1 w₀ (.append () offlineMsg) = .ok w₁ := by
    simp only [step, hw₀, set, Function.update_self, happ', ok_bind]
    rfl
  have hqueue : w₁.queue () = ⟨some c', []⟩ := by simp [hw₁, set]
  have hdeal := SendQueue.dealSend_one pure w₁.pool (c := c') (by omega) (by rw [SEND_SIZE]; omega)
  rw [← hqueue, show c'.offset = 88 by omega] at hdeal
  refine ⟨w₁, w₁.set () (w₁.pool.pushSendcache (c'.updateOffset 88), .new), (Reach.refl.step hfits h₁).step hfits h₂,
    ?_, ?_, ?_, ?_⟩
  · rw [hqueue]
    simp only [SendQueue.left]
    omega
  · simp only [step, hdeal, ok_bind]
    rfl
  · simp [hw₁, set, SendPool.pushSendcache]
  · simp [set]

theorem append_bounded_offline : ∃ w₁ w : SendWorld Unit, Reach (step game1) (Calls game1) new w₁ ∧
    step game1 w₁ (.deal () [.wrote 88]) = .ok w ∧ w.pool.pool.length = 1 ∧ w.Bounded ∧
    (∃ w', step game1 w₁ (.append () offlineMsg) = .ok w' ∧ w'.Bounded) ∧
    ∃ w', step game1 w (.append () offlineMsg) = .ok w' ∧ w'.Bounded := by
  have hR := RPC_BUFF_SIZE_eq
  have hsize : getRpcSize game1 offlineMsg = 40 := by decide
  obtain ⟨w₁, w, hreach, hleft, hdeal, hpool, hnew⟩ := exists_sent
  have hbefore := append_bounded_iff game1 hreach () offlineMsg (by decide)
  have hafter := append_bounded_iff game1 (hreach.step (o := .deal () [.wrote 88]) (by simp [Calls]) hdeal) () offlineMsg
    (by decide)
  refine ⟨w₁, w, hreach, hdeal, hpool, hafter.1, hbefore.2.1.mpr ?_, hafter.2.1.mpr ?_⟩
  · omega
  · rw [hnew]
    decide

end SendWorld

end KcpServer
