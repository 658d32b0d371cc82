import KcpServer.SendPath
import KcpServer.Lib.Partition

/-!
# What the send path writes

A `SendLog` remembers the messages appended to each sender and the bytes written to its socket. `fifo_lossless` : where
every append fits and no write fails, the bytes written are the records of the messages, in order, and every cache is in
the pool, in one sender's queue or current in one sender.

`dealSend` is taken here with a null `m_pSendCache` read as an empty cache.
-/

namespace KcpServer
open Lib

/-! ## Where the caches are -/

def SendPool.uids (s : SendPool) : List Nat := s.pool.map (·.uid)

def SendQueue.uids (q : SendQueue) : List Nat := q.caches.map (·.uid)

/-- Between the pool and a sender caches only move, and new ones get the next identities. -/
structure Moves (s : SendPool) (q : SendQueue) (s' : SendPool) (q' : SendQueue) : Prop where
  guid_le : s.guid ≤ s'.guid
  perm : (s'.uids ++ q'.uids).Perm (s.uids ++ q.uids ++ List.range' s.guid (s'.guid - s.guid))

theorem Moves.refl (s : SendPool) (q : SendQueue) : Moves s q s q := ⟨le_rfl, by simp⟩

theorem SendPool.popSendcache_uids {s s' : SendPool} {c : SendCache} (h : s.popSendcache = (c, s')) :
    s.guid ≤ s'.guid ∧ (c.uid :: s'.uids).Perm (s.uids ++ List.range' s.guid (s'.guid - s.guid)) := by
  unfold popSendcache at h
  split at h
  · next hpool =>
    cases h
    refine ⟨Nat.le_succ _, ?_⟩
    simp [uids, hpool, SendCache.new]
  · next p pool hpool =>
    cases h
    refine ⟨le_rfl, ?_⟩
    simp [uids, hpool]

namespace SendQueue

theorem appendSend_moves {name : ServerName} {s s' : SendPool} {q q' : SendQueue} {m : RpcMsg} (hs : s.Clean)
    (h : q.appendSend name s m = .ok (s', q')) : Moves s q s' q' := by
  obtain ⟨front, c, c', hput, hcaches', hcases⟩ := appendSend_cases hs h
  have huids' : q'.uids = front.map (·.uid) ++ [c.uid] := by
    rw [uids, hcaches', List.map_append, ← putRecord_uid hput]
    rfl
  rcases hcases with ⟨hcaches, rfl⟩ | ⟨hcaches, hpop⟩
  · have huids : q.uids = q'.uids := by
      rw [huids', uids, hcaches, List.map_append]
      rfl
    refine ⟨le_rfl, ?_⟩
    rw [huids]
    simp
  · obtain ⟨hle, hperm⟩ := SendPool.popSendcache_uids hpop
    refine ⟨hle, ?_⟩
    rw [huids', uids, hcaches]
    rw [List.perm_iff_count] at hperm ⊢
    intro u
    have := hperm u
    simp only [List.count_append, List.count_cons, List.count_nil] at this ⊢
    omega

/-! ## A `dealSend` whose writes do not fail -/

/-- `tcpclient::dealSend` and `connRpcObj::dealSend`, a null `m_pSendCache` being read as an empty cache. -/
def dealSendEmpty (onFail : SendPool × SendQueue → Except Fault (SendPool × SendQueue)) (s : SendPool) (q : SendQueue)
    (ws : List WriteRes) : Except Fault ((SendPool × SendQueue) × Int × Bytes) :=
  match q.queue, q.pSendCache with
  | [], none => .ok ((s, q), 0, [])
  | _, _ => q.dealSend onFail s ws

section DealSend
variable {onFail : SendPool × SendQueue → Except Fault (SendPool × SendQueue)} {s s' : SendPool} {q q' : SendQueue}
  {ws : List WriteRes} {ret : Int} {out : Bytes}

/-- It sends everything, and all caches go into the pool. -/
theorem dealSendEmpty_ok (hs : s.Clean) (hb : q.Bounded) (hf : q.Filled) (hws : WriteRes.error ∉ ws)
    (h : q.dealSendEmpty onFail s ws = .ok ((s', q'), ret, out)) :
    s'.Clean ∧ q'.Bounded ∧ q'.Filled ∧ q'.pending = [] ∧ out = q.pending ∧ Moves s q s' q' := by
  -- nothing is there to be sent
  have hquiet : q.pending = [] → ((s, q), 0, []) = ((s', q'), ret, out) →
      s'.Clean ∧ q'.Bounded ∧ q'.Filled ∧ q'.pending = [] ∧ out = q.pending ∧ Moves s q s' q' := by
    intro hpend heq
    cases heq
    exact ⟨hs, hb, hf, hpend, hpend.symm, .refl s q⟩
  unfold dealSendEmpty at h
  split at h
  · next hqueue hp => exact hquiet (by simp [pending, caches, hqueue, hp]) (Except.ok.inj h)
  · rcases dealSend_cases h with ⟨⟨c, hcaches, h0⟩, heq⟩ | ⟨-, hdrain⟩
    · exact hquiet (by simp [pending, hcaches, h0]) heq.symm
    · obtain ⟨hc, rfl, -, hout, hguid, huids⟩ := drain_ok hs hws hdrain
      refine ⟨hc, fun c hc => by simp [caches, new] at hc, filled_new, rfl, hout, hguid.ge, ?_⟩
      rw [hguid, Nat.sub_self, List.range'_zero, List.append_nil, SendPool.uids, huids]
      simp [uids, caches, new, SendPool.uids]

end DealSend

/-! ### It returns -/

/-- The answers of `write` that report bytes. -/
def wrotes (ws : List WriteRes) : Nat := ws.countP fun w => w matches .wrote _

/-- A `dosend` returns if enough of its writes take bytes; each one takes at least one. -/
theorem dosendLoop_returns (bs : Bytes) {ws : List WriteRes} (hws : WriteRes.error ∉ ws) (h : bs.length ≤ wrotes ws) :
    ∃ ret out ws', SendCache.dosendLoop bs ws = .ok (ret, out, ws') ∧ wrotes ws ≤ wrotes ws' + bs.length := by
  induction ws generalizing bs with
  | nil =>
    obtain rfl : bs = [] := List.length_eq_zero_iff.mp (Nat.le_zero.mp h)
    exact ⟨0, [], [], rfl, le_rfl⟩
  | cons w ws ih =>
    rw [List.mem_cons, not_or] at hws
    cases bs with
    | nil => exact ⟨0, [], w :: ws, rfl, le_rfl⟩
    | cons b bs =>
      cases w with
      | again => exact ih (b :: bs) hws.2 h
      | error => exact absurd rfl hws.1
      | wrote k =>
        have hcount : wrotes (.wrote k :: ws) = wrotes ws + 1 := by simp [wrotes]
        have hpos := wroteCount_pos k (min (b :: bs).length SEND_SIZE)
        have hlen := List.length_drop (l := b :: bs) (i := wroteCount k (min (b :: bs).length SEND_SIZE))
        rw [List.length_cons] at hlen h hpos
        obtain ⟨ret, out, ws', hloop, hleft⟩ := ih ((b :: bs).drop (wroteCount k (min (b :: bs).length SEND_SIZE)))
          hws.2 (by rw [List.length_cons]; omega)
        rw [List.length_cons] at hloop hleft
        refine ⟨ret, (b :: bs).take (wroteCount k (min (bs.length + 1) SEND_SIZE)) ++ out, ws', ?_, ?_⟩
        · rw [SendCache.dosendLoop, List.length_cons, hloop]
          rfl
        · rw [List.length_cons]
          omega

theorem drain_returns {onFail : SendPool × SendQueue → Except Fault (SendPool × SendQueue)} {cs : List SendCache}
    (s : SendPool) {ws : List WriteRes} (hws : WriteRes.error ∉ ws) (hb : ∀ c ∈ cs, c.offset ≤ RPC_BUFF_SIZE)
    (h : (cs.flatMap fun c => c.mem.bytes.take c.offset).length ≤ wrotes ws) : ∃ r, drain onFail cs s ws = .ok r := by
  induction cs generalizing s ws with
  | nil => exact ⟨_, rfl⟩
  | cons c rest ih =>
    rw [List.flatMap_cons, List.length_append] at h
    have hassert : assert (c.offset ≤ RPC_BUFF_SIZE) = .ok () :=
      assert_eq_ok.mpr (decide_eq_true (hb c List.mem_cons_self))
    have hrest := fun d hd => hb d (List.mem_cons_of_mem c hd)
    rw [drain, hassert, ok_bind]
    split
    · exact ih _ hws hrest (by omega)
    · obtain ⟨ret, out, ws', hloop, hleft⟩ := dosendLoop_returns (c.mem.bytes.take c.offset) hws (by omega)
      obtain ⟨rfl, -, herr⟩ := dosendLoop_ok hws hloop
      obtain ⟨r, hr⟩ := ih (s.pushSendcache (c.updateOffset c.offset)) herr hrest (by omega)
      have hsend : c.dosend ws = .ok (c.updateOffset c.offset, 0, out, ws') := by
        rw [SendCache.dosend, hloop]
        rfl
      refine ⟨(r.1, r.2.1, out ++ r.2.2), ?_⟩
      rw [hsend, ok_bind]
      dsimp only
      rw [if_neg (by decide), hr]
      rfl

theorem dealSendEmpty_returns {onFail : SendPool × SendQueue → Except Fault (SendPool × SendQueue)} (s : SendPool)
    {q : SendQueue} {ws : List WriteRes} (hws : WriteRes.error ∉ ws) (hb : q.Bounded) (h : q.pending.length ≤ wrotes ws) :
    ∃ r, q.dealSendEmpty onFail s ws = .ok r := by
  have hdrain : ∃ r, drain onFail q.caches s ws = .ok r := drain_returns s hws hb h
  unfold dealSendEmpty
  split
  · exact ⟨_, rfl⟩
  · next hne =>
    unfold dealSend
    split
    · next hqueue hp => exact absurd hp (hne hqueue)
    · split
      · exact ⟨_, rfl⟩
      · exact hdrain
    · exact hdrain

/-- The record fits in the cache that the append chooses. -/
def Fits (name : ServerName) (q : SendQueue) (m : RpcMsg) : Prop :=
  recordSize name m ≤ if getRpcSize name m ≤ q.left then q.left else RPC_BUFF_SIZE

theorem Fits.appendSend {name : ServerName} {s : SendPool} {q : SendQueue} {m : RpcMsg} (h : q.Fits name m)
    (hs : s.Clean) (hq : q.Bounded) : ∃ r, q.appendSend name s m = .ok r := by
  have hR := RPC_BUFF_SIZE_eq
  have hleft := q.left_le
  unfold Fits at h
  have hfit : recordSize name m ≤ RPC_BUFF_SIZE := by
    split at h <;> omega
  have hsize := getRpcSize_add_four name m (by omega)
  have hne : ¬ q.NearEnd name m := by
    rw [NearEnd]
    split at h <;> omega
  obtain ⟨s', q', happ, -⟩ := appendSend_ok hs hq hfit hne
  exact ⟨_, happ⟩

end SendQueue

/-! ## Runs -/

/-- The senders, what has been appended to each and what has been written to its socket. -/
structure SendLog (ι : Type) where
  world : SendWorld ι
  appended : ι → List RpcMsg
  written : ι → Bytes

/-- Where a cache can be. -/
inductive Place (ι : Type)
  | pool (k : Nat)
  | queue (i : ι) (k : Nat)
  | current (i : ι)

/-- The cache in a place. -/
def SendWorld.holds {ι : Type} (w : SendWorld ι) : Place ι → Option SendCache
  | .pool k => w.pool.pool[k]?
  | .queue i k => (w.queue i).queue[k]?
  | .current i => (w.queue i).pSendCache

def SendWorld.uids {ι : Type} (w : SendWorld ι) : Option ι → List Nat
  | none => w.pool.uids
  | some i => (w.queue i).uids

namespace SendWorld
variable {ι : Type} {w : SendWorld ι} {pl pl' : Place ι} {c : SendCache}

/-- The place as a list and an index into it: the current cache stands behind the queue. -/
def slot (w : SendWorld ι) : Place ι → Option ι × Nat
  | .pool k => (none, k)
  | .queue i k => (some i, k)
  | .current i => (some i, (w.queue i).queue.length)

theorem uids_slot (h : w.holds pl = some c) : (w.uids (w.slot pl).1)[(w.slot pl).2]? = some c.uid := by
  cases pl with
  | pool k =>
    rw [holds] at h
    simp [slot, uids, SendPool.uids, h]
  | queue i k =>
    obtain ⟨hk, hget⟩ := List.getElem?_eq_some_iff.mp h
    simp [slot, uids, SendQueue.uids, SendQueue.caches, hk, List.getElem?_append_left, hget]
  | current i =>
    rw [holds] at h
    simp [slot, uids, SendQueue.uids, SendQueue.caches, h]

theorem slot_inj (h : w.holds pl = some c) {c' : SendCache} (h' : w.holds pl' = some c') (heq : w.slot pl = w.slot pl') :
    pl = pl' := by
  cases pl with
  | pool k =>
    cases pl' with
    | pool k' => cases heq; rfl
    | queue i' k' => cases heq
    | current i' => cases heq
  | queue i k =>
    obtain ⟨hk, -⟩ := List.getElem?_eq_some_iff.mp h
    cases pl' with
    | pool k' => cases heq
    | queue i' k' => cases heq; rfl
    | current i' =>
      cases heq
      exact absurd hk (lt_irrefl _)
  | current i =>
    cases pl' with
    | pool k' => cases heq
    | queue i' k' =>
      obtain ⟨hk, -⟩ := List.getElem?_eq_some_iff.mp h'
      cases heq
      exact absurd hk (lt_irrefl _)
    | current i' => cases heq; rfl

theorem exists_holds {o : Option ι} {u : Nat} (h : u ∈ w.uids o) : ∃ pl c, w.holds pl = some c ∧ c.uid = u := by
  cases o with
  | none =>
    obtain ⟨c, hc, rfl⟩ := List.mem_map.mp h
    obtain ⟨k, hk⟩ := List.mem_iff_getElem?.mp hc
    exact ⟨.pool k, c, hk, rfl⟩
  | some i =>
    obtain ⟨c, hc, rfl⟩ := List.mem_map.mp h
    rcases List.mem_append.mp hc with hc | hc
    · obtain ⟨k, hk⟩ := List.mem_iff_getElem?.mp hc
      exact ⟨.queue i k, c, hk, rfl⟩
    · exact ⟨.current i, c, Option.mem_toList.mp hc, rfl⟩

/-- Where the identities are in one list each, every cache created is in one place. -/
theorem existsUnique_holds (h : Partition w.uids w.pool.guid) {u : Nat} (hu : u < w.pool.guid) :
    ∃! pl, (w.holds pl).map (·.uid) = some u := by
  obtain ⟨o, ho⟩ := (h.lt_iff u).mp hu
  obtain ⟨pl, c, hpl, rfl⟩ := exists_holds ho
  refine ⟨pl, by simp [hpl], ?_⟩
  intro pl' hpl'
  obtain ⟨c', hc', huid⟩ := Option.map_eq_some_iff.mp hpl'
  have hslot := uids_slot hpl
  have hslot' := uids_slot hc'
  rw [huid] at hslot'
  exact slot_inj hc' hpl ((h.existsUnique hu).unique hslot' hslot)

end SendWorld

namespace SendLog
variable {ι : Type} [DecidableEq ι]

/-- New senders. -/
def start : SendLog ι := ⟨.new, fun _ => [], fun _ => []⟩

def step (name : ServerName) (w : SendLog ι) : SendCall ι → Except Fault (SendLog ι)
  | .append i m => do
    let sq ← (w.world.queue i).appendSend name w.world.pool m
    return { w with world := w.world.set i sq, appended := Function.update w.appended i (w.appended i ++ [m]) }
  | .callNet i m => do
    let sq ← (w.world.queue i).rpcCallNet name w.world.pool m
    return { w with world := w.world.set i sq, appended := Function.update w.appended i (w.appended i ++ [m]) }
  | .deal i ws f => do
    let (sq, _, out) ← (w.world.queue i).dealSendEmpty (f.onFail name) w.world.pool ws
    return { w with world := w.world.set i sq, written := Function.update w.written i (w.written i ++ out) }

/-- Every append fits in its cache, and no write fails. -/
def Allowed (name : ServerName) (w : SendLog ι) : SendCall ι → Prop
  | .append i m | .callNet i m => (w.world.queue i).Fits name m
  | .deal _ ws _ => WriteRes.error ∉ ws

structure Inv (name : ServerName) (w : SendLog ι) : Prop where
  waiting : w.world.Waiting
  sent : ∀ i, w.written i ++ (w.world.queue i).pending = (w.appended i).flatMap (record name)
  placed : Partition w.world.uids w.world.pool.guid

omit [DecidableEq ι] in
theorem inv_start (name : ServerName) : Inv name (start : SendLog ι) where
  waiting := SendWorld.waiting_new
  sent i := rfl
  placed := Partition.empty _ fun k => by cases k <;> rfl

theorem placed_set {w : SendWorld ι} (h : Partition w.uids w.pool.guid) {i : ι} {s : SendPool}
    {q : SendQueue} (hm : Moves w.pool (w.queue i) s q) : Partition (w.set i (s, q)).uids s.guid := by
  have hperm : ((w.set i (s, q)).uids none ++ (w.set i (s, q)).uids (some i)).Perm
      (w.uids none ++ w.uids (some i) ++ List.range' w.pool.guid (s.guid - w.pool.guid)) := by
    simpa [SendWorld.uids, SendWorld.set] using hm.perm
  apply Partition.move hperm h (Option.some_ne_none i).symm hm.guid_le
  intro k hnone hi
  cases k with
  | none => exact absurd rfl hnone
  | some j =>
    have hj : j ≠ i := fun hj => hi (congrArg some hj)
    simp [SendWorld.uids, SendWorld.set, hj]

theorem inv_append {name : ServerName} {w w' : SendLog ι} (hw : w.Inv name) {i : ι} {m : RpcMsg}
    (h : w.step name (.append i m) = .ok w') : w'.Inv name := by
  obtain ⟨⟨s, q⟩, happ, h⟩ := bind_eq_ok.mp h
  cases h
  obtain ⟨hwait, hpend⟩ := SendWorld.waiting_append hw.waiting happ
  refine ⟨hwait, ?_, placed_set hw.placed (SendQueue.appendSend_moves hw.waiting.clean happ)⟩
  intro j
  by_cases hj : j = i
  · subst hj
    simp only [SendWorld.set, Function.update_self]
    rw [hpend, ← List.append_assoc, hw.sent j, List.flatMap_append, List.flatMap_singleton]
  · simpa [SendWorld.set, hj] using hw.sent j

theorem inv_deal {name : ServerName} {w w' : SendLog ι} (hw : w.Inv name) {i : ι} {ws : List WriteRes} {f : AfterFail}
    (hws : WriteRes.error ∉ ws) (h : w.step name (.deal i ws f) = .ok w') :
    w'.Inv name ∧ w'.written i = (w'.appended i).flatMap (record name) := by
  obtain ⟨⟨⟨s, q⟩, ret, out⟩, hdeal, h⟩ := bind_eq_ok.mp h
  cases h
  obtain ⟨hs, hb, hf, hpend, hout, hmoves⟩ := SendQueue.dealSendEmpty_ok hw.waiting.clean (hw.waiting.bounded i)
    (hw.waiting.filled i) hws hdeal
  have hsent : w.written i ++ out = (w.appended i).flatMap (record name) := by rw [hout, hw.sent i]
  refine ⟨⟨hw.waiting.set i hs hb hf, ?_, placed_set hw.placed hmoves⟩, by simpa using hsent⟩
  intro j
  by_cases hj : j = i
  · subst hj
    simp only [SendWorld.set, Function.update_self]
    rw [hpend, List.append_nil, hsent]
  · simpa [SendWorld.set, hj] using hw.sent j

/-- **The send path is first in, first out and loses nothing.** Whatever is appended and sent in whatever order, as long
as every append fits in its cache and no write fails: what has been written to a socket and what waits for it are the
records of the messages appended, in order; after a `dealSend` everything is written; every cache created is in the pool,
in a queue or current, in one place only; an append returns, and so does a `dealSend` once its writes have taken the
bytes. -/
theorem fifo_lossless (name : ServerName) {w : SendLog ι} (h : Reach (step name) (Allowed name) start w) :
    (∀ i, w.written i ++ (w.world.queue i).pending = (w.appended i).flatMap (record name)) ∧
    (∀ i ws f w', Allowed name w (.deal i ws f) → w.step name (.deal i ws f) = .ok w' →
      w'.written i = (w'.appended i).flatMap (record name)) ∧
    (∀ u < w.world.pool.guid, ∃! pl, (w.world.holds pl).map (·.uid) = some u) ∧
    (∀ pl c, w.world.holds pl = some c → c.uid < w.world.pool.guid) ∧
    (∀ i m, (w.world.queue i).Fits name m → (∃ w', w.step name (.append i m) = .ok w') ∧
      ∃ w', w.step name (.callNet i m) = .ok w') ∧
    ∀ i ws f, WriteRes.error ∉ ws → (w.world.queue i).pending.length ≤ SendQueue.wrotes ws →
      ∃ w', w.step name (.deal i ws f) = .ok w' := by
  have hw : w.Inv name := by
    apply h.invariant (inv_start name)
    intro w o w' hw ho hs
    cases o with
    | append i m => exact inv_append hw hs
    | callNet i m => exact inv_append (m := m) (i := i) hw hs
    | deal i ws f => exact (inv_deal hw ho hs).1
  refine ⟨hw.sent, ?_, fun u => SendWorld.existsUnique_holds hw.placed, ?_, ?_, ?_⟩
  · intro i ws f w' ho hs
    exact (inv_deal hw ho hs).2
  · intro pl c hpl
    exact hw.placed.lt (List.mem_of_getElem? (SendWorld.uids_slot hpl))
  · intro i m hfit
    obtain ⟨sq, happ⟩ := hfit.appendSend hw.waiting.clean (hw.waiting.bounded i)
    have hstep : ∃ w', w.step name (.append i m) = .ok w' := by
      simp only [step, happ]
      exact ⟨_, rfl⟩
    exact ⟨hstep, hstep⟩
  · intro i ws f hws henough
    obtain ⟨r, hdeal⟩ : ∃ r, (w.world.queue i).dealSendEmpty (f.onFail name) w.world.pool ws = .ok r :=
      SendQueue.dealSendEmpty_returns w.world.pool hws (hw.waiting.bounded i) henough
    simp only [step, hdeal]
    exact ⟨_, rfl⟩

/-- One message is appended and sent, byte by byte. -/
theorem fifo_lossless_offline : ∃ w : SendLog Unit, Reach (step game1) (Allowed game1) start w ∧
    w.written () = record game1 offlineMsg := by
  have hfit : (start : SendLog Unit).Allowed game1 (.append () offlineMsg) := by
    change SendQueue.new.Fits game1 offlineMsg
    rw [SendQueue.Fits]
    decide
  obtain ⟨-, -, -, -, happends, -⟩ := fifo_lossless game1 (w := (start : SendLog Unit)) .refl
  obtain ⟨w₁, hw₁⟩ := (happends () offlineMsg hfit).1
  have hreach := Reach.refl.step hfit hw₁
  have hlog : w₁.appended () = [offlineMsg] ∧ w₁.written () = [] := by
    obtain ⟨sq, -, hw₁⟩ := bind_eq_ok.mp hw₁
    cases hw₁
    exact ⟨rfl, rfl⟩
  obtain ⟨hsent, hdeal, -, -, -, hdeals⟩ := fifo_lossless game1 hreach
  have hpend := hsent ()
  rw [hlog.1, hlog.2, List.nil_append, List.flatMap_singleton] at hpend
  have hws : WriteRes.error ∉ List.replicate (recordSize game1 offlineMsg) (.wrote 1) := by simp
  obtain ⟨w₂, hw₂⟩ := hdeals () (.replicate (recordSize game1 offlineMsg) (.wrote 1)) .closed hws
    (by rw [hpend, length_record]; decide)
  have hw := hdeal () _ .closed w₂ hws hw₂
  have hsame : w₂.appended () = [offlineMsg] := by
    obtain ⟨⟨sq, ret, out⟩, -, hw₂⟩ := bind_eq_ok.mp hw₂
    cases hw₂
    exact hlog.1
  rw [hsame, List.flatMap_singleton] at hw
  exact ⟨w₂, hreach.step (o := SendCall.deal () _ .closed) hws hw₂, hw⟩

end SendLog

end KcpServer
