import KcpServer.Tcp.Gate

/-!
# `rpcCallNet`

A game node answers its net node on `connRpcObj::m_inst`, which is null while there is no connection. `SendableTimes` is
the exact condition under which some records of one size can be appended one behind the other.

* `Waiting` : what holds of the connection's queue and of the pool in every state;
* `rpcCallNets_ok_iff` : how some calls end.
-/

namespace KcpServer
open Lib

/-- So many records of `size` bytes are sendable, one behind the other; `left` bytes are left of the current cache. -/
def SendableTimes (size : Nat) : Nat → Nat → Prop
  | 0, _ => True
  | k + 1, left =>
    Sendable size left ∧ SendableTimes size k (if size ≤ left then left - size else RPC_BUFF_SIZE - size)

theorem sendableTimes_of_le {size k left : Nat} (h : k * size ≤ left) : SendableTimes size k left := by
  induction k generalizing left with
  | zero => trivial
  | succ k ih =>
    rw [Nat.succ_mul] at h
    have hsize : size ≤ left := by omega
    refine ⟨.inl hsize, ?_⟩
    rw [if_pos hsize]
    exact ih (by omega)

namespace SendQueue
variable {name : ServerName} {s s' : SendPool} {q q' : SendQueue} {m : RpcMsg}

/-- What an append leaves of the current cache, which may be a new one. -/
theorem appendSend_left (hs : s.Clean) (hq : q.Bounded) (h : q.appendSend name s m = .ok (s', q')) :
    q'.left = if recordSize name m ≤ q.left then q.left - recordSize name m else RPC_BUFF_SIZE - recordSize name m := by
  have hR := RPC_BUFF_SIZE_eq
  have hput : ∀ {c c' : SendCache}, putRecord name c m = .ok c' → c'.offset = c.offset + recordSize name m ∧
      c.offset + recordSize name m ≤ RPC_BUFF_SIZE ∧ getRpcSize name m + 4 = recordSize name m := by
    intro c c' hc
    have hfits := putRecord_fits hc
    obtain ⟨c'', hc'', hoff, -⟩ := putRecord_ok name m hfits
    obtain rfl : c' = c'' := Except.ok.inj (hc.symm.trans hc'')
    exact ⟨hoff, hfits, getRpcSize_add_four name m (by omega)⟩
  obtain ⟨p, queue⟩ := q
  rw [appendSend] at h
  cases p with
  | none =>
    have h0 : s.popSendcache.1.offset = 0 := SendPool.popSendcache_offset hs
    have hleft := SendCache.getLeftSize_eq (c := s.popSendcache.1) (by omega)
    dsimp only at h
    split at h
    · -- a record that is larger than an empty cache is not written
      obtain ⟨c', hc', -⟩ := bind_eq_ok.mp h
      obtain ⟨-, hfits, hsize⟩ := hput hc'
      dsimp only at hfits
      omega
    · obtain ⟨c', hc', h⟩ := bind_eq_ok.mp h
      cases h
      obtain ⟨hoff, hfits, -⟩ := hput hc'
      dsimp only at hoff
      show RPC_BUFF_SIZE - c'.offset = if recordSize name m ≤ RPC_BUFF_SIZE then _ else _
      rw [if_pos (by omega), hoff, h0, Nat.zero_add]
      rfl
  | some c =>
    obtain ⟨hc, -⟩ := bounded_mk.mp hq
    have hleft := SendCache.getLeftSize_eq hc
    have h0 : s.popSendcache.1.offset = 0 := SendPool.popSendcache_offset hs
    dsimp only at h
    split at h
    · obtain ⟨c', hc', h⟩ := bind_eq_ok.mp h
      cases h
      obtain ⟨hoff, hfits, hsize⟩ := hput hc'
      dsimp only at hoff hfits
      show RPC_BUFF_SIZE - c'.offset = if recordSize name m ≤ RPC_BUFF_SIZE - c.offset then _ else _
      rw [if_neg (by omega), hoff, h0, Nat.zero_add]
    · obtain ⟨c', hc', h⟩ := bind_eq_ok.mp h
      cases h
      obtain ⟨hoff, hfits, hsize⟩ := hput hc'
      dsimp only at hoff hfits
      show RPC_BUFF_SIZE - c'.offset = if recordSize name m ≤ RPC_BUFF_SIZE - c.offset then _ else _
      rw [if_pos (by omega), hoff]
      exact Nat.sub_add_eq ..

end SendQueue

/-- The send queue of `connRpcObj::m_inst`, if that is not null, and the pool. -/
structure NetLink where
  sendPool : SendPool
  inst : Option SendQueue

namespace NetLink

/-- `CreateConnBatch` points `m_inst` to a new object and `DelConn` clears it; the node answers, and the main loop sends
the answers; the clients use the pool as well. -/
inductive Op
  | createConn
  | delConn
  | rpcCallNet (m : RpcMsg)
  | dealSend (ws : List WriteRes)
  | popSendcache
  | pushSendcache (c : SendCache)

/-- `connRpcObj::m_inst->rpcCallNet` -/
def rpcCallNet (name : ServerName) (l : NetLink) (m : RpcMsg) : Except Fault NetLink :=
  match l.inst with
  | none => .error .null
  | some q => do
    let (sendPool, q) ← q.rpcCallNet name l.sendPool m
    return ⟨sendPool, some q⟩

def step (name : ServerName) (l : NetLink) : Op → Except Fault NetLink
  | .createConn => return { l with inst := some .new }
  | .delConn => return { l with inst := none }
  | .rpcCallNet m => l.rpcCallNet name m
  | .dealSend ws =>
    match l.inst with
    | none => return l
    | some q => do
      let ((sendPool, q), _) ← q.dealSend (AfterFail.closed.onFail name) l.sendPool ws
      return ⟨sendPool, some q⟩
  | .popSendcache => return { l with sendPool := l.sendPool.popSendcache.2 }
  | .pushSendcache c => return { l with sendPool := l.sendPool.pushSendcache c }

def new : NetLink := ⟨⟨[], 0⟩, none⟩

/-- What is left of the cache that the next call looks at, if there is a connection. -/
def left (l : NetLink) : Option Nat := l.inst.map SendQueue.left

def rpcCallNets (name : ServerName) (l : NetLink) (ms : List RpcMsg) : Except Fault NetLink :=
  ms.foldlM (rpcCallNet name) l

/-- The caches in the pool are empty, no queued cache counts more bytes than it holds, and none is empty. -/
structure Waiting (l : NetLink) : Prop where
  clean : l.sendPool.Clean
  bounded : ∀ q ∈ l.inst, q.Bounded
  filled : ∀ q ∈ l.inst, q.Filled

variable {name : ServerName} {l l' : NetLink} {m : RpcMsg}

theorem Waiting.none {s : SendPool} (hs : s.Clean) : Waiting ⟨s, .none⟩ :=
  ⟨hs, fun _ hq => (nomatch hq), fun _ hq => (nomatch hq)⟩

theorem Waiting.some {s : SendPool} {q : SendQueue} (hs : s.Clean) (hb : q.Bounded) (hf : q.Filled) :
    Waiting ⟨s, .some q⟩ := by
  refine ⟨hs, ?_, ?_⟩
  · rintro _ ⟨⟩
    exact hb
  · rintro _ ⟨⟩
    exact hf

theorem waiting_rpcCallNet (hl : l.Waiting) (h : l.rpcCallNet name m = .ok l') : l'.Waiting := by
  unfold rpcCallNet at h
  split at h
  · cases h
  · next q hq =>
    obtain ⟨⟨s, q'⟩, happ, h⟩ := bind_eq_ok.mp h
    cases h
    obtain ⟨hs, hb, -, hf⟩ := SendQueue.appendSend_inv hl.clean (hl.bounded q hq) happ
    exact .some hs hb (hf (hl.filled q hq))

theorem waiting_step (hl : l.Waiting) {o : Op} (h : l.step name o = .ok l') : l'.Waiting := by
  cases o with
  | createConn =>
    cases h
    exact .some hl.clean (fun _ hc => nomatch hc) SendQueue.filled_new
  | delConn =>
    cases h
    exact .none hl.clean
  | rpcCallNet m => exact waiting_rpcCallNet hl h
  | dealSend ws =>
    unfold step at h
    dsimp only at h
    split at h
    · cases h
      exact hl
    · next q hq =>
      obtain ⟨⟨⟨s, q'⟩, ret⟩, hdeal, h⟩ := bind_eq_ok.mp h
      cases h
      obtain ⟨hs, hb, hf⟩ := SendQueue.dealSend_inv hl.clean (hl.bounded q hq) (hl.filled q hq) hdeal
      exact .some hs hb hf
  | popSendcache =>
    cases h
    exact ⟨SendPool.clean_pop hl.clean, hl.bounded, hl.filled⟩
  | pushSendcache c =>
    cases h
    exact ⟨SendPool.clean_push hl.clean c, hl.bounded, hl.filled⟩

theorem waiting_reach (h : Reach (step name) (fun _ _ => True) new l) : l.Waiting := by
  refine h.invariant (I := Waiting) (.none fun _ hp => nomatch hp) ?_
  intro l o l' hl _ hs
  exact waiting_step hl hs

/-- How a call ends, and what it leaves of the cache. -/
theorem rpcCallNet_ok_iff (hl : l.Waiting) (name : ServerName) (m : RpcMsg) :
    ((∃ l', l.rpcCallNet name m = .ok l') ↔ ∃ left ∈ l.left, Sendable (recordSize name m) left) ∧
      ∀ l', l.rpcCallNet name m = .ok l' → ∃ left ∈ l.left, l'.left = some (if recordSize name m ≤ left then
        left - recordSize name m else RPC_BUFF_SIZE - recordSize name m) := by
  unfold rpcCallNet left
  cases hq : l.inst with
  | none =>
    constructor
    · simp
    · intro l' h
      cases h
  | some q =>
    have happ := SendQueue.appendSend_ok_iff (q := q) name m hl.clean (hl.bounded q hq)
    simp only [Option.map_some, Option.mem_def, Option.some.injEq, exists_eq_left']
    constructor
    · rw [← happ]
      constructor
      · rintro ⟨l', h⟩
        obtain ⟨sq, hsq, -⟩ := bind_eq_ok.mp h
        exact ⟨sq, hsq⟩
      · rintro ⟨sq, hsq⟩
        exact ⟨_, bind_eq_ok.mpr ⟨sq, hsq, rfl⟩⟩
    · intro l' h
      obtain ⟨⟨s', q'⟩, hsq, h⟩ := bind_eq_ok.mp h
      cases h
      exact congrArg some (SendQueue.appendSend_left hl.clean (hl.bounded q hq) hsq)

/-- How calls of one size end. -/
theorem rpcCallNets_ok_iff (hl : l.Waiting) {size : Nat} {ms : List RpcMsg} (hms : ∀ m ∈ ms, recordSize name m = size) :
    (∃ l', l.rpcCallNets name ms = .ok l') ↔ (ms ≠ [] → ∃ left ∈ l.left, SendableTimes size ms.length left) := by
  induction ms generalizing l with
  | nil => exact iff_of_true ⟨l, rfl⟩ fun h => absurd rfl h
  | cons m ms ih =>
    obtain ⟨rfl, hms⟩ := List.forall_mem_cons.mp hms
    obtain ⟨hone, hleft⟩ := rpcCallNet_ok_iff hl name m
    have hsplit : (∃ l', l.rpcCallNets name (m :: ms) = .ok l') ↔
        ∃ l₁, l.rpcCallNet name m = .ok l₁ ∧ ∃ l', l₁.rpcCallNets name ms = .ok l' := by
      unfold rpcCallNets
      rw [List.foldlM_cons]
      constructor
      · rintro ⟨l', h⟩
        obtain ⟨l₁, h₁, h⟩ := bind_eq_ok.mp h
        exact ⟨l₁, h₁, l', h⟩
      · rintro ⟨l₁, h₁, l', h⟩
        exact ⟨l', bind_eq_ok.mpr ⟨l₁, h₁, h⟩⟩
    rw [hsplit]
    constructor
    · rintro ⟨l₁, h₁, hrest⟩ -
      obtain ⟨left, hmem, hsend⟩ := hone.mp ⟨l₁, h₁⟩
      obtain ⟨left', hmem', hleft₁⟩ := hleft l₁ h₁
      obtain rfl : left = left' := Option.some.inj (hmem.symm.trans hmem')
      refine ⟨left, hmem, hsend, ?_⟩
      by_cases hnil : ms = []
      · rw [hnil]
        trivial
      · obtain ⟨left₁, hmem₁, htimes⟩ := (ih (waiting_rpcCallNet hl h₁) hms).mp hrest hnil
        rw [hleft₁] at hmem₁
        cases hmem₁
        exact htimes
    · intro h
      obtain ⟨left, hmem, hsend, htimes⟩ := h (List.cons_ne_nil m ms)
      obtain ⟨l₁, h₁⟩ := hone.mpr ⟨left, hmem, hsend⟩
      obtain ⟨left', hmem', hleft₁⟩ := hleft l₁ h₁
      obtain rfl : left = left' := Option.some.inj (hmem.symm.trans hmem')
      exact ⟨l₁, h₁, (ih (waiting_rpcCallNet hl h₁) hms).mpr fun _ => ⟨_, hleft₁, htimes⟩⟩

end NetLink

end KcpServer
