import KcpServer.Tcp.Receive
import KcpServer.Tcp.Deal
import KcpServer.Lib.Partition

/-!
# The blocks of long bodies

`decodeBuffer` puts a body of more than 256 bytes into a block of its own. `~rpcObj` deletes it; `init`, which makes an
object ready for the pool, overwrites the pointer to it.

* `Inv` : every block that has been allocated is held by one object, which is queued or has been handled;
* `owned_iff_release` : the blocks are accounted for exactly if of every handled object all that it held is released;
* `owned_iff` : what that means for `pushRpcobj`, and `owned_destroyed` for the destructor.
-/

namespace KcpServer
open Lib

namespace RpcObj

/-- The block that `m_pBuff` points to, if it points outside of the object. -/
def held (o : RpcObj) : List Nat :=
  match o.pBuff with
  | .heap addr _ => [addr]
  | _ => []

/-- What `decodeBuffer` has allocated for the body. -/
def allocated (o : RpcObj) : List Nat := if o.bodyLen > 256 then o.held else []

/-- What `rpcObj::~rpcObj` deletes. -/
def destroyed (o : RpcObj) : List Nat := if o.bodyLen ≠ 0 ∧ o.bodyLen > 256 then o.held else []

/-- What `rpcObj::init` deletes: nothing, it sets `m_pBuff` to `NULL`. -/
def initDeleted (_o : RpcObj) : List Nat := []

/-- The object holds a block just if its body is a long one. -/
def Owns (o : RpcObj) : Prop := o.held = [] ↔ o.bodyLen ≤ 256

section Owns
variable {o : RpcObj} {m : Bytes} {p addr : Nat}

theorem decodeBuffer_held (h : new.decodeBuffer m p addr = .ok o) : o.held = if 256 < o.bodyLen then [addr] else [] := by
  -- only what follows the length of the body writes to `m_pBuff`
  iterate 17 obtain ⟨_, -, h⟩ := bind_eq_ok.mp h
  split at h
  · next hzero =>
    cases h
    simp [held, new, hzero]
  · obtain ⟨bytes, -, h⟩ := bind_eq_ok.mp h
    split at h
    · next hlong =>
      cases h
      simp [held, hlong]
    · next hshort =>
      obtain ⟨buff, -, h⟩ := bind_eq_ok.mp h
      cases h
      simp [held, hshort]

theorem decodeBuffer_owns (h : new.decodeBuffer m p addr = .ok o) : o.Owns := by
  simp [Owns, decodeBuffer_held h]

theorem Owns.allocated_eq (h : o.Owns) : o.allocated = o.held := by
  unfold allocated
  split
  · rfl
  · exact (h.mpr (by omega)).symm

/-- The destructor deletes what is held. -/
theorem Owns.destroyed_eq (h : o.Owns) : o.destroyed = o.held := by
  unfold destroyed
  split
  · rfl
  · exact (h.mpr (by omega)).symm

end Owns

end RpcObj

/-! ## One `dealReadBuffer` -/

/-- Objects that have got numbers out of a range, one each where the body is a long one; the others are `unused`. -/
structure Fresh (lo hi : Nat) (objs : List RpcObj) (unused : List Nat) : Prop where
  le : lo ≤ hi
  owns : ∀ o ∈ objs, o.Owns
  perm : (objs.flatMap RpcObj.held ++ unused).Perm (List.range' lo (hi - lo))

theorem fresh_nil (addr : Nat) : Fresh addr addr [] [] := ⟨le_rfl, by simp, by simp⟩

theorem Fresh.cons {lo hi : Nat} {objs : List RpcObj} {unused : List Nat} (h : Fresh (lo + 1) hi objs unused) {o : RpcObj}
    (howns : o.Owns) (hheld : o.held = if 256 < o.bodyLen then [lo] else []) :
    ∃ unused', Fresh lo hi (o :: objs) unused' := by
  have hle := h.le
  have hrange : List.range' lo (hi - lo) = lo :: List.range' (lo + 1) (hi - (lo + 1)) := by
    rw [show hi - lo = hi - (lo + 1) + 1 by omega, List.range'_succ]
  have hall : ∀ o' ∈ o :: objs, o'.Owns := List.forall_mem_cons.mpr ⟨howns, h.owns⟩
  by_cases hlong : 256 < o.bodyLen
  · rw [if_pos hlong] at hheld
    refine ⟨unused, by omega, hall, ?_⟩
    rw [hrange, List.flatMap_cons, hheld]
    exact h.perm.cons lo
  · rw [if_neg hlong] at hheld
    refine ⟨lo :: unused, by omega, hall, ?_⟩
    rw [hrange, List.flatMap_cons, hheld]
    exact List.perm_middle.trans (h.perm.cons lo)

section Fresh
variable {lo hi a : Nat} {objs : List RpcObj} {unused : List Nat}

theorem Fresh.mem_iff (h : Fresh lo hi objs unused) :
    a ∈ objs.flatMap RpcObj.held ∨ a ∈ unused ↔ lo ≤ a ∧ a < hi := by
  have hle := h.le
  rw [← List.mem_append, h.perm.mem_iff, List.mem_range'_1]
  exact and_congr_right fun _ => by omega

theorem Fresh.not_mem (h : Fresh lo hi objs unused) (ha : a ∈ objs.flatMap RpcObj.held) : a ∉ unused := by
  have hnodup := h.perm.nodup_iff.mpr List.nodup_range'
  exact fun hu => (List.nodup_append.mp hnodup).2.2 a ha a hu rfl

theorem Fresh.mem_allocs {allocs old : List Nat} (h : Fresh lo hi objs unused)
    (hallocs : ∀ a, a ∈ allocs ↔ a < lo ∧ a ∉ old) (hold : ∀ a ∈ old, a < lo) (a : Nat) :
    a ∈ allocs ++ objs.flatMap RpcObj.held ↔ a < hi ∧ a ∉ old ++ unused := by
  have hle := h.le
  rw [List.mem_append, List.mem_append, hallocs, not_or]
  constructor
  · rintro (⟨hlt, ho⟩ | ha)
    · refine ⟨by omega, ho, fun hu => ?_⟩
      have := h.mem_iff.mp (.inr hu)
      omega
    · have hrange := h.mem_iff.mp (.inl ha)
      refine ⟨hrange.2, fun ho => ?_, h.not_mem ha⟩
      have := hold a ho
      omega
  · rintro ⟨hlt, ho, hu⟩
    by_cases hlow : a < lo
    · exact .inl ⟨hlow, ho⟩
    · exact .inr ((h.mem_iff.mpr ⟨by omega, hlt⟩).resolve_right hu)

theorem Fresh.perm_append (h : Fresh lo hi objs unused) (xs ys : List Nat) :
    (xs ++ objs.flatMap RpcObj.held ++ (ys ++ unused)).Perm (xs ++ ys ++ List.range' lo (hi - lo)) := by
  calc xs ++ objs.flatMap RpcObj.held ++ (ys ++ unused)
      = xs ++ (objs.flatMap RpcObj.held ++ ys) ++ unused := by simp only [List.append_assoc]
    _ |>.Perm (xs ++ (ys ++ objs.flatMap RpcObj.held) ++ unused) :=
        (List.perm_append_comm.append_left xs).append_right unused
    _ = xs ++ ys ++ (objs.flatMap RpcObj.held ++ unused) := by simp only [List.append_assoc]
    _ |>.Perm (xs ++ ys ++ List.range' lo (hi - lo)) := h.perm.append_left _

end Fresh

namespace TcpClient
variable {c c' : TcpClient} {pool pool' : List RpcObj} {addr addr' : Nat}

theorem dealReadLoop_fresh {m : Bytes} {n fuel : Nat} {offset : Int} (hpool : ∀ o ∈ pool, o = .new) {out : DealOut}
    (h : dealReadLoop RpcObj.decodeBuffer m n fuel offset pool addr = .ok out) :
    (∀ o ∈ out.pool, o = .new) ∧ ∃ unused, Fresh addr out.addr out.objs unused := by
  induction fuel generalizing offset pool addr out with
  | zero => cases h
  | succ fuel ih =>
    rw [dealReadLoop_succ] at h
    obtain ⟨next, -, h⟩ := bind_eq_ok.mp h
    cases next with
    | none =>
      cases h
      exact ⟨hpool, [], fresh_nil addr⟩
    | some next =>
      obtain ⟨o, ho, h⟩ := bind_eq_ok.mp h
      obtain ⟨rest, hrest, h⟩ := bind_eq_ok.mp h
      cases h
      obtain ⟨hnew, hpool⟩ := popRpcobj_of_new hpool
      rw [hnew] at ho
      obtain ⟨hpool, unused, hfresh⟩ := ih hpool hrest
      exact ⟨hpool, hfresh.cons (RpcObj.decodeBuffer_owns ho) (RpcObj.decodeBuffer_held ho)⟩

/-- What `dealReadBuffer` queues holds blocks that nothing else holds. -/
theorem dealReadBuffer_fresh (hpool : ∀ o ∈ pool, o = .new) (h : c.dealReadBuffer pool addr = .ok (c', pool', addr')) :
    (∀ o ∈ pool', o = .new) ∧ ∃ objs unused, c'.queRpcObj = c.queRpcObj ++ objs ∧ Fresh addr addr' objs unused := by
  unfold dealReadBuffer at h
  split at h
  · cases h
    exact ⟨hpool, [], [], by simp, fresh_nil addr⟩
  · obtain ⟨out, hout, h⟩ := bind_eq_ok.mp h
    obtain ⟨b, -, h⟩ := bind_eq_ok.mp h
    cases h
    obtain ⟨hpool, unused, hfresh⟩ := dealReadLoop_fresh hpool hout
    exact ⟨hpool, out.objs, unused, rfl, hfresh⟩

end TcpClient

/-! ## Runs -/

/-- The clients with the pool they share, the block that `new char[]` returns next, what has been allocated and what has
been deleted, and the objects that the handler has got. -/
structure BlockWorld where
  clients : Heap TcpClient
  rpcPool : List RpcObj
  addr : Nat
  allocs : List Nat
  frees : List Nat
  handled : List RpcObj

/-- The two calls on a client, and all else that is done to one. -/
inductive BlockOp
  | dealReadBuffer (p : Nat)
  | handleRpcObj (p : Nat)
  | client (p : Nat) (c : TcpClient)

namespace BlockWorld

/-- One call; `release` is what is deleted of an object on its way back to the pool. -/
def step (release : RpcObj → List Nat) (w : BlockWorld) : BlockOp → Except Fault BlockWorld
  | .dealReadBuffer p => do
    let (c, rpcPool, addr) ← (w.clients p).dealReadBuffer w.rpcPool w.addr
    let objs := c.queRpcObj.drop (w.clients p).queRpcObj.length
    return { w with
      clients := w.clients.set p c
      rpcPool
      addr
      allocs := w.allocs ++ objs.flatMap RpcObj.allocated }
  | .handleRpcObj p => do
    let (c, rpcPool, objs) := (w.clients p).handleRpcObj w.rpcPool
    return { w with
      clients := w.clients.set p c
      rpcPool
      frees := w.frees ++ objs.flatMap release
      handled := w.handled ++ objs }
  | .client p c => return { w with clients := w.clients.set p c }

/-- Nothing but the two calls touches `m_queRpcObj`. -/
def Allowed (w : BlockWorld) : BlockOp → Prop
  | .client p c => c.queRpcObj = (w.clients p).queRpcObj
  | _ => True

/-- An empty pool, and nothing allocated. -/
def start (clients : Heap TcpClient) : BlockWorld := ⟨clients, [], 0, [], [], []⟩

/-- A block that has been allocated and not deleted. -/
def Live (w : BlockWorld) (a : Nat) : Prop := a ∈ w.allocs ∧ a ∉ w.frees

/-- A block that is held by an object in some `m_queRpcObj`. -/
def Queued (w : BlockWorld) (a : Nat) : Prop := ∃ p, ∃ o ∈ (w.clients p).queRpcObj, a ∈ o.held

/-- **The blocks are accounted for**: the live ones are those that queued objects hold, and every other one has been
deleted, once. -/
structure Owned (w : BlockWorld) : Prop where
  live : ∀ a, w.Live a ↔ w.Queued a
  released : ∀ a ∈ w.allocs, ¬ w.Queued a → w.frees.count a = 1

/-! ## The invariant -/

/-- Where the numbers of blocks are. -/
inductive Place
  | unused
  | handled
  | queue (p : Nat)

/-- The numbers at a place; an object that has been handled is counted with what it held then. -/
def blocks (w : BlockWorld) (unused : List Nat) : Place → List Nat
  | .unused => unused
  | .handled => w.handled.flatMap RpcObj.held
  | .queue p => (w.clients p).queRpcObj.flatMap RpcObj.held

/-- Every number given out is in one place, and what has been allocated is all but the unused ones. -/
structure Placed (w : BlockWorld) (unused : List Nat) : Prop where
  partition : Partition (w.blocks unused) w.addr
  allocs : ∀ a, a ∈ w.allocs ↔ a < w.addr ∧ a ∉ unused

structure Inv (release : RpcObj → List Nat) (w : BlockWorld) : Prop where
  pool : ∀ o ∈ w.rpcPool, o = .new
  frees : w.frees = w.handled.flatMap release
  handled : ∀ o ∈ w.handled, o.Owns
  queued : ∀ p, ∀ o ∈ (w.clients p).queRpcObj, o.Owns
  placed : ∃ unused, w.Placed unused

section Inv
variable {release : RpcObj → List Nat} {w w' : BlockWorld} {p : Nat}

theorem inv_start {clients : Heap TcpClient} (hnew : ∀ p, (clients p).queRpcObj = []) : Inv release (start clients) := by
  refine ⟨by simp [start], rfl, by simp [start], by simp [start, hnew], [], ?_, by simp [start]⟩
  refine Partition.empty _ fun k => ?_
  cases k <;> simp [blocks, start, hnew]

theorem blocks_queue_of_ne {unused : List Nat} {c : TcpClient} {q : Nat} (hq : q ≠ p)
    (hclients : w'.clients = w.clients.set p c) (unused' : List Nat) :
    w'.blocks unused' (.queue q) = w.blocks unused (.queue q) := by
  simp [blocks, hclients, Heap.set_of_ne _ hq]

theorem queued_set {c : TcpClient} (h : ∀ p, ∀ o ∈ (w.clients p).queRpcObj, o.Owns) (hc : ∀ o ∈ c.queRpcObj, o.Owns)
    (q : Nat) : ∀ o ∈ (w.clients.set p c q).queRpcObj, o.Owns := by
  by_cases hq : q = p
  · subst hq
    simpa using hc
  · rw [Heap.set_of_ne _ hq]
    exact h q

/-- New numbers come to a queue, or stay unused. -/
theorem Inv.dealReadBuffer (h : w.Inv release) (hs : w.step release (.dealReadBuffer p) = .ok w') : w'.Inv release := by
  obtain ⟨⟨c, pool, addr⟩, hdeal, hs⟩ := bind_eq_ok.mp hs
  obtain ⟨unused, hplaced, hallocs⟩ := h.placed
  obtain ⟨hpool, new, skipped, hque, hfresh⟩ := TcpClient.dealReadBuffer_fresh h.pool hdeal
  have halloc : new.flatMap RpcObj.allocated = new.flatMap RpcObj.held :=
    List.flatMap_congr fun o ho => (hfresh.owns o ho).allocated_eq
  have howns : ∀ o ∈ c.queRpcObj, o.Owns := by
    rw [hque]
    exact List.forall_mem_append.mpr ⟨h.queued p, hfresh.owns⟩
  simp only [hque, List.drop_left, halloc] at hs
  cases hs
  refine ⟨hpool, h.frees, h.handled, queued_set h.queued howns, unused ++ skipped, ?_, ?_⟩
  · apply hplaced.move (a := .queue p) (b := .unused) ?_ (by simp) hfresh.le
    · intro k hk hunused
      cases k with
      | unused => exact absurd rfl hunused
      | handled => rfl
      | queue q => exact blocks_queue_of_ne (fun hq => hk (congrArg _ hq)) rfl _
    · simp only [blocks, Heap.set_self, hque, List.flatMap_append]
      exact hfresh.perm_append _ _
  · exact hfresh.mem_allocs hallocs fun a => hplaced.lt (k := .unused)

theorem Inv.handleRpcObj (h : w.Inv release) (hs : w.step release (.handleRpcObj p) = .ok w') : w'.Inv release := by
  cases hs
  obtain ⟨unused, hplaced, hallocs⟩ := h.placed
  refine ⟨foldl_pushRpcobj h.pool _, ?_, ?_, queued_set h.queued (by simp), unused, ?_, hallocs⟩
  · simp [h.frees]
  · exact List.forall_mem_append.mpr ⟨h.handled, h.queued p⟩
  · apply hplaced.move (a := .handled) (b := .queue p) ?_ (by simp) le_rfl
    · intro k hhandled hk
      cases k with
      | unused => rfl
      | handled => exact absurd rfl hhandled
      | queue q => exact blocks_queue_of_ne (fun hq => hk (congrArg _ hq)) rfl _
    · simp [blocks]

theorem Inv.client (h : w.Inv release) {c : TcpClient} (hque : c.queRpcObj = (w.clients p).queRpcObj) :
    Inv release { w with clients := w.clients.set p c } := by
  obtain ⟨unused, hplaced, hallocs⟩ := h.placed
  have hc : ∀ o ∈ c.queRpcObj, o.Owns := by
    rw [hque]
    exact h.queued p
  have hblocks : blocks { w with clients := w.clients.set p c } unused = w.blocks unused := by
    funext k
    cases k with
    | unused => rfl
    | handled => rfl
    | queue q =>
      by_cases hq : q = p
      · subst hq
        simpa [blocks] using congrArg (List.flatMap RpcObj.held) hque
      · exact blocks_queue_of_ne hq rfl _
  refine ⟨h.pool, h.frees, h.handled, queued_set h.queued hc, unused, ?_, hallocs⟩
  rwa [hblocks]

theorem inv_step (h : w.Inv release) {o : BlockOp} (ho : w.Allowed o) (hs : w.step release o = .ok w') :
    w'.Inv release := by
  cases o with
  | dealReadBuffer p => exact h.dealReadBuffer hs
  | handleRpcObj p => exact h.handleRpcObj hs
  | client p c =>
    cases hs
    exact h.client ho

theorem inv_reach {clients : Heap TcpClient} (hnew : ∀ p, (clients p).queRpcObj = [])
    (h : Reach (step release) Allowed (start clients) w) : w.Inv release :=
  h.invariant (inv_start hnew) fun _ _ _ hw ho hs => inv_step hw ho hs

/-! ## What is left over -/

/-- The blocks of handled objects: each was held by one of them, and is held by no queued one. -/
theorem Inv.handled_blocks (h : w.Inv release) : (w.handled.flatMap RpcObj.held).Nodup ∧
    (∀ a ∈ w.handled.flatMap RpcObj.held, ¬ w.Queued a) ∧
    ∀ a, a ∈ w.allocs ↔ a ∈ w.handled.flatMap RpcObj.held ∨ w.Queued a := by
  obtain ⟨unused, hplaced, hallocs⟩ := h.placed
  have hqueued : ∀ a, w.Queued a ↔ ∃ p, a ∈ w.blocks unused (.queue p) := by simp [Queued, blocks]
  refine ⟨hplaced.nodup .handled, fun a ha hq => ?_, fun a => ?_⟩
  · obtain ⟨p, hp⟩ := (hqueued a).mp hq
    cases hplaced.unique (k := .handled) ha hp
  · rw [hallocs, hplaced.lt_iff, hqueued]
    constructor
    · rintro ⟨⟨k, hk⟩, hu⟩
      cases k with
      | unused => exact absurd hk hu
      | handled => exact .inl hk
      | queue p => exact .inr ⟨p, hk⟩
    · rintro (ha | ⟨p, hp⟩)
      · refine ⟨⟨.handled, ha⟩, fun hu => ?_⟩
        have hu : a ∈ w.blocks unused .unused := hu
        cases hplaced.unique (k := .handled) ha hu
      · refine ⟨⟨.queue p, hp⟩, fun hu => ?_⟩
        have hu : a ∈ w.blocks unused .unused := hu
        cases hplaced.unique hp hu

/-- The blocks are accounted for exactly if of every handled object all that it held is released. -/
theorem Inv.owned_iff_release (h : w.Inv release) (hrel : ∀ o ∈ w.handled, release o = [] ∨ release o = o.held) :
    w.Owned ↔ ∀ o ∈ w.handled, release o = o.held := by
  obtain ⟨hnodup, hapart, hallocs⟩ := h.handled_blocks
  constructor
  · intro howned o ho
    by_contra hne
    have hnone : release o = [] := (hrel o ho).resolve_right hne
    obtain ⟨a, ha⟩ := List.exists_mem_of_ne_nil o.held fun hnil => hne (hnone.trans hnil.symm)
    have hmem : a ∈ w.handled.flatMap RpcObj.held := List.mem_flatMap_of_mem ho ha
    -- the block has been released, so one of the handled objects has released it, and that can only be `o`
    have hcount := howned.released a ((hallocs a).mpr (.inl hmem)) (hapart a hmem)
    have hfreed : a ∈ w.handled.flatMap release := by
      rw [← h.frees, ← List.count_pos_iff, hcount]
      exact Nat.one_pos
    obtain ⟨o', ho', ha'⟩ := List.mem_flatMap.mp hfreed
    have hheld : release o' = o'.held := (hrel o' ho').resolve_left (List.ne_nil_of_mem ha')
    have hsame : o = o' := by
      by_contra hdiff
      have : Std.Symm (Function.onFun List.Disjoint RpcObj.held) := ⟨fun _ _ hd => List.Disjoint.symm hd⟩
      exact (List.nodup_flatMap.mp hnodup).2.forall ho ho' hdiff ha (hheld ▸ ha')
    rw [hsame, hheld] at hne
    exact hne rfl
  · intro hall
    have hfrees : w.frees = w.handled.flatMap RpcObj.held := h.frees.trans (List.flatMap_congr hall)
    refine ⟨fun a => ?_, fun a ha hq => ?_⟩
    · rw [Live, hallocs, hfrees]
      exact ⟨fun ⟨hor, hnot⟩ => hor.resolve_left hnot, fun hq => ⟨.inr hq, fun ha => hapart a ha hq⟩⟩
    · rw [hfrees]
      exact List.count_eq_one_of_mem hnodup (((hallocs a).mp ha).resolve_right hq)

end Inv

variable {clients : Heap TcpClient} {w : BlockWorld}

/-- Were the handled objects deleted, as `connRpcObj` deletes its own, every block would be accounted for. -/
theorem owned_destroyed (hnew : ∀ p, (clients p).queRpcObj = [])
    (h : Reach (step RpcObj.destroyed) Allowed (start clients) w) : w.Owned := by
  have hw := inv_reach hnew h
  have hall : ∀ o ∈ w.handled, o.destroyed = o.held := fun o ho => (hw.handled o ho).destroyed_eq
  exact (hw.owned_iff_release fun o ho => .inr (hall o ho)).mpr hall

/-- **When the blocks of long bodies are accounted for.** In every run of `dealReadBuffer` and `handleRpcObj` on any number
of clients, each live block is held by a queued object and each other one has been released once, if and only if no RPC
that has been handled so far had a body of more than 256 bytes. -/
theorem owned_iff (hnew : ∀ p, (clients p).queRpcObj = [])
    (h : Reach (step RpcObj.initDeleted) Allowed (start clients) w) :
    w.Owned ↔ ∀ o ∈ w.handled, o.bodyLen ≤ 256 := by
  have hw := inv_reach hnew h
  rw [hw.owned_iff_release fun o _ => .inl rfl]
  refine forall₂_congr fun o ho => ?_
  exact eq_comm.trans (hw.handled o ho)

/-- An RPC that is received in one piece, queued and handled. -/
theorem exists_handled {m : RpcMsg} (hfits : recordSize game1 m ≤ RPC_BUFF_SIZE) :
    ∃ clients : Heap TcpClient, (∀ p, (clients p).queRpcObj = []) ∧ ∃ w o,
      Reach (step RpcObj.initDeleted) Allowed (start clients) w ∧ w.handled = [o] ∧ o.bodyLen = m.body.length := by
  set f := RpcFrame.ofRecord game1 m hfits with hf
  have hlen : f.bytes.length ≤ RPC_BUFF_SIZE := f.length_le
  set c : TcpClient :=
    { TcpClient.gate1New with recvBuffer := .ofBytes hlen, recvOffset := f.bytes.length } with hc
  have hbuf : c.pending = RpcFrame.stream [f] ++ [] := by
    simp [hc, TcpClient.pending, Block.ofBytes, RpcFrame.stream]
  have hrest : ([] : Bytes) ++ [] = RpcFrame.stream [] := rfl
  have hinc : rpcFraming.Incomplete [] := lenPrefixed_incomplete_of_lt (by decide)
  have hpool : ∀ o ∈ ([] : List RpcObj), o = .new := by simp
  obtain ⟨c', pool, addr, objs, hdeal, -, -, hque, hdec, -⟩ :=
    TcpClient.dealReadBuffer_spec hlen [f] hbuf hrest hinc hpool 0
  cases hdec with
  | @cons _ o _ _ hdec hnil =>
    cases hnil
    obtain ⟨a, hdec⟩ := hdec
    obtain ⟨o', ho', hrecord⟩ := decodeBuffer_record (hasAt_self (record game1 m)) a
    obtain rfl : o = o' := Except.ok.inj (hdec.symm.trans ho')
    have hque' : c'.queRpcObj = [o] := hque
    obtain ⟨w, hs, hw⟩ : ∃ w, step RpcObj.initDeleted (start (.replicate 1 c)) (.dealReadBuffer 0) = .ok w ∧
      w.handled = [] ∧ (w.clients 0).queRpcObj = [o] := ⟨_, bind_eq_ok.mpr ⟨_, hdeal, rfl⟩, rfl, by simpa using hque'⟩
    have hread : Reach (step RpcObj.initDeleted) Allowed (start (.replicate 1 c)) w :=
      Reach.refl.step (o := BlockOp.dealReadBuffer 0) trivial hs
    refine ⟨.replicate 1 c, fun p => rfl, _, o, hread.step (o := BlockOp.handleRpcObj 0) trivial rfl, ?_, hrecord.bodyLen⟩
    simp [hw]

theorem length_long : (List.replicate 257 (0 : UInt8)).length = 257 := List.length_replicate

/-- An RPC with a body of 257 bytes. -/
def longMsg : RpcMsg where
  target := takeProxy.target
  pid := 0
  msgid := 0
  body := List.replicate 257 0
  target_le := by decide
  body_lt := by
    rw [length_long]
    decide

/-- Its block is lost when its object goes back to the pool. -/
theorem not_owned : ∃ clients : Heap TcpClient, (∀ p, (clients p).queRpcObj = []) ∧ ∃ w,
    Reach (step RpcObj.initDeleted) Allowed (start clients) w ∧ (∃ a, w.Live a ∧ ¬ w.Queued a) ∧ ¬ w.Owned := by
  have hsize : recordSize game1 longMsg ≤ RPC_BUFF_SIZE := by
    rw [recordSize, show longMsg.body.length = 257 from length_long]
    decide
  obtain ⟨clients, hnew, w, o, hw, hhandled, hlen⟩ := exists_handled hsize
  have hinv := inv_reach hnew hw
  obtain ⟨-, hapart, hallocs⟩ := hinv.handled_blocks
  have hlong : o.bodyLen = 257 := hlen.trans length_long
  have howns : o.Owns := hinv.handled o (by simp [hhandled])
  have hheld : o.held ≠ [] := fun hnil => by
    have := howns.mp hnil
    omega
  obtain ⟨a, ha⟩ := List.exists_mem_of_ne_nil o.held hheld
  have hmem : a ∈ w.handled.flatMap RpcObj.held := by simpa [hhandled] using ha
  have hlive : w.Live a := by
    refine ⟨(hallocs a).mpr (.inl hmem), ?_⟩
    simp [hinv.frees, RpcObj.initDeleted]
  exact ⟨clients, hnew, w, hw, ⟨a, hlive, hapart a hmem⟩, fun howned => hapart a hmem ((howned.live a).mp hlive)⟩

/-- A short body is kept inside the object. -/
theorem owned_offline : ∃ clients : Heap TcpClient, ∃ w,
    Reach (step RpcObj.initDeleted) Allowed (start clients) w ∧ w.handled ≠ [] ∧ w.Owned := by
  obtain ⟨clients, hnew, w, o, hw, hhandled, hlen⟩ := exists_handled (m := offlineMsg) (by decide)
  refine ⟨clients, w, hw, by simp [hhandled], (owned_iff hnew hw).mpr ?_⟩
  simp [hhandled, hlen, offlineMsg]

end BlockWorld

end KcpServer
