import KcpServer.Tcp.Client
import KcpServer.Lib.Framing
import KcpServer.Lib.Transition

/-!
# The receive stream of a `tcpclient`

`dealReadBuffer` cuts what has been received into its complete records and a rest, which it moves to the front and
continues behind (`dealReadBuffer_spec`). `receives` : over any run of `OnRead`, `dealReadBuffer` and `handleRpcObj` the
handler gets the messages of the stream, each once and in order.
-/

namespace KcpServer
open Lib

/-- RPC records follow one another by their length words. -/
def rpcFraming : Framing UInt8 := lenPrefixed 0

/-- A well-formed record: it fits in the receive buffer, and it is decoded without a look behind its end. -/
structure RpcFrame where
  bytes : Bytes
  isFrame : rpcFraming.IsFrame bytes
  length_le : bytes.length ≤ RPC_BUFF_SIZE
  decode : ∀ addr, ∃ o, RpcObj.new.decodeBuffer bytes 0 addr = .ok o

namespace RpcFrame

/-- What is decoded out of the record, whatever block a long body is put into. -/
def Decodes (f : RpcFrame) (o : RpcObj) : Prop := ∃ addr, RpcObj.new.decodeBuffer f.bytes 0 addr = .ok o

def stream (fs : List RpcFrame) : Bytes := (fs.map (·.bytes)).flatten

theorem stream_nil : stream [] = [] := rfl

theorem stream_cons (f : RpcFrame) (fs : List RpcFrame) : stream (f :: fs) = f.bytes ++ stream fs := rfl

theorem stream_append (fs gs : List RpcFrame) : stream (fs ++ gs) = stream fs ++ stream gs := by
  simp [stream]

theorem length_eq (f : RpcFrame) : 4 ≤ f.bytes.length ∧ f.bytes.length = 4 + leNat (f.bytes.take 4) := by
  have h := f.isFrame
  rw [Framing.IsFrame, rpcFraming] at h
  by_cases hle : 0 + 4 ≤ f.bytes.length
  · rw [lenPrefixed_size hle] at h
    have := Option.some.inj h
    omega
  · rw [lenPrefixed_size_of_lt (by omega)] at h
    cases h

theorem length_le_stream (fs : List RpcFrame) : fs.length ≤ (stream fs).length := by
  induction fs with
  | nil => simp
  | cons f fs ih =>
    have := f.length_eq
    rw [stream_cons, List.length_append, List.length_cons]
    omega

/-- What a prefix of a stream consists of. -/
theorem split_frames {fs : List RpcFrame} {s t : Bytes} (h : s ++ t = stream fs) :
    ∃ gs hs rest, fs = gs ++ hs ∧ s = stream gs ++ rest ∧ rest ++ t = stream hs ∧ rpcFraming.Incomplete rest :=
  rpcFraming.split_prefix_map RpcFrame.bytes (fun f _ => RpcFrame.isFrame f) h

/-- The rest is the head of a record: it is shorter than the record, and its length word is that of the record. -/
theorem rest_spec {hs : List RpcFrame} {rest t : Bytes} (h : rest ++ t = stream hs) (hinc : rpcFraming.Incomplete rest) :
    (∀ f ∈ hs.head?, rest.length < f.bytes.length) ∧ (hs = [] → rest = []) ∧
      (4 ≤ rest.length → rest.length < 4 + leNat (rest.take 4) ∧ 4 + leNat (rest.take 4) ≤ RPC_BUFF_SIZE) := by
  cases hs with
  | nil =>
    obtain ⟨rfl, -⟩ := List.append_eq_nil_iff.mp h
    simp
  | cons f hs =>
    obtain ⟨hfour, hlen⟩ := f.length_eq
    have hle := f.length_le
    rw [stream_cons] at h
    have hshort : rest.length < f.bytes.length := by
      by_contra hge
      have hpre : f.bytes <+: rest :=
        List.prefix_of_prefix_length_le ⟨stream hs, h.symm⟩ (List.prefix_append rest t) (by omega)
      obtain ⟨v, rfl⟩ := hpre
      have := hinc _ (rpcFraming.size_append f.isFrame v)
      omega
    refine ⟨by simpa using hshort, by simp, ?_⟩
    intro hfour'
    have hword : rest.take 4 = f.bytes.take 4 := by
      have := congrArg (List.take 4) h
      rwa [List.take_append_of_le_length hfour', List.take_append_of_le_length hfour] at this
    rw [hword]
    omega

/-- Every record that a node sends is well-formed, as far as it fits in the receive buffer. -/
def ofRecord (name : ServerName) (m : RpcMsg) (h : recordSize name m ≤ RPC_BUFF_SIZE) : RpcFrame where
  bytes := record name m
  isFrame := record_isFrame name m (lt_of_le_of_lt h (by decide))
  length_le := by rwa [length_record]
  decode addr := by
    obtain ⟨o, ho, -⟩ := decodeBuffer_record (hasAt_self (record name m)) addr
    exact ⟨o, ho⟩

end RpcFrame

namespace TcpClient
open RpcFrame

/-! ## One `dealReadBuffer` -/

theorem popRpcobj_of_new {pool : List RpcObj} (h : ∀ o ∈ pool, o = .new) :
    (popRpcobj pool).1 = .new ∧ ∀ o ∈ (popRpcobj pool).2, o = .new := by
  cases pool with
  | nil => exact ⟨rfl, h⟩
  | cons p pool =>
    rw [List.forall_mem_cons] at h
    exact h

/-- The loop over complete records and a rest, with a pool of objects as good as new. -/
theorem dealReadLoop_spec (fs : List RpcFrame) {hs : List RpcFrame} {rest t : Bytes}
    (hrest : rest ++ t = RpcFrame.stream hs) (hinc : rpcFraming.Incomplete rest) {m : Bytes} {n p fuel : Nat} (hp : p ≤ n)
    (hn : n ≤ RPC_BUFF_SIZE) (hm : n ≤ m.length) (hslice : slice m p (n - p) = RpcFrame.stream fs ++ rest)
    (hfuel : fs.length < fuel) {pool : List RpcObj} (hpool : ∀ o ∈ pool, o = .new) (addr : Nat) :
    ∃ out, dealReadLoop RpcObj.decodeBuffer m n fuel p pool addr = .ok out ∧ out.offset = (n - rest.length : Nat) ∧
      (∀ o ∈ out.pool, o = .new) ∧ List.Forall₂ Decodes fs out.objs := by
  have hR := RPC_BUFF_SIZE_eq
  obtain ⟨k, rfl⟩ : ∃ k, fuel = k + 1 := ⟨fuel - 1, by omega⟩
  induction fs generalizing p k pool addr with
  | nil =>
    rw [RpcFrame.stream_nil, List.nil_append] at hslice
    have hlen : rest.length = n - p := by
      rw [← hslice, length_slice _ (by omega)]
    rw [dealReadLoop]
    by_cases hleft : (n : Int) - p < 4
    · rw [if_pos hleft]
      refine ⟨_, rfl, ?_, hpool, .nil⟩
      simp only
      omega
    · -- the length word of the rest is there, but not the whole record
      obtain ⟨-, -, hword⟩ := rest_spec hrest hinc
      have hfour : slice m p 4 = rest.take 4 := by
        rw [← hslice, slice, slice, List.take_take, min_eq_left (by omega)]
      obtain ⟨hshort, hsmall⟩ := hword (by omega)
      have hint : int32 (leNat (rest.take 4)) = leNat (rest.take 4) := int32_of_range (by omega) (by omega)
      rw [if_neg hleft, if_neg (by omega), Int.toNat_natCast, readLE_eq (by omega), ok_bind, hfour, hint,
        if_neg (by omega), if_pos (by omega)]
      refine ⟨_, rfl, ?_, hpool, .nil⟩
      simp only
      omega
  | cons f fs ih =>
    obtain ⟨hhead, hflen⟩ := f.length_eq
    have hfits := f.length_le
    rw [RpcFrame.stream_cons, List.append_assoc] at hslice
    have hlen : n - p = f.bytes.length + (RpcFrame.stream fs ++ rest).length := by
      rw [← List.length_append, ← hslice, length_slice _ (by omega)]
    rw [hlen, slice_add] at hslice
    obtain ⟨hframe, hslice'⟩ := List.append_inj hslice (length_slice _ (by omega))
    -- the record stands at the offset
    have hat : HasAt m p f.bytes := ⟨by omega, hframe⟩
    have hword : slice m p 4 = f.bytes.take 4 := by
      rw [← hframe, slice, slice, List.take_take, min_eq_left (by omega)]
    have hint : int32 (leNat (f.bytes.take 4)) = leNat (f.bytes.take 4) := int32_of_range (by omega) (by omega)
    obtain ⟨hp₁, hpool'⟩ := popRpcobj_of_new hpool
    obtain ⟨o, ho⟩ := f.decode addr
    obtain ⟨j, rfl⟩ : ∃ j, k = j + 1 := ⟨k - 1, by simp only [List.length_cons] at hfuel; omega⟩
    obtain ⟨out, hout, hoff, hpool'', hobjs⟩ := ih (p := p + f.bytes.length) (by omega)
      (by rw [show n - (p + f.bytes.length) = (RpcFrame.stream fs ++ rest).length by omega]; exact hslice') hpool'
      (addr + 1) j (by simp only [List.length_cons] at hfuel; omega)
    have hoffset : (p : Int) + (4 + (leNat (f.bytes.take 4) : Int)) = (p + f.bytes.length : Nat) := by omega
    rw [dealReadLoop, if_neg (by omega), if_neg (by omega), Int.toNat_natCast, readLE_eq (by omega), ok_bind, hword,
      hint, if_neg (by omega), if_neg (by omega)]
    dsimp only
    rw [hp₁, decodeBuffer_of_hasAt hat ho, ok_bind, hoffset, hout, ok_bind]
    exact ⟨_, rfl, hoff, hpool'', .cons ⟨addr, ho⟩ hobjs⟩

/-- `dealReadBuffer` queues the complete records and keeps the rest at the front. -/
theorem dealReadBuffer_spec {c : TcpClient} (hn : c.recvOffset ≤ RPC_BUFF_SIZE) (fs : List RpcFrame) {hs : List RpcFrame}
    {rest t : Bytes} (hbuf : c.pending = RpcFrame.stream fs ++ rest) (hrest : rest ++ t = RpcFrame.stream hs)
    (hinc : rpcFraming.Incomplete rest) {pool : List RpcObj} (hpool : ∀ o ∈ pool, o = .new) (addr : Nat) :
    ∃ c' pool' addr' objs, c.dealReadBuffer pool addr = .ok (c', pool', addr') ∧ c'.recvOffset = rest.length ∧
      c'.pending = rest ∧ c'.queRpcObj = c.queRpcObj ++ objs ∧ List.Forall₂ Decodes fs objs ∧
      ∀ o ∈ pool', o = .new := by
  have hsize := c.recvBuffer.size
  have hlen : c.recvOffset = (RpcFrame.stream fs).length + rest.length := by
    rw [← List.length_append, ← hbuf, pending, List.length_take]
    omega
  unfold dealReadBuffer
  by_cases h0 : c.recvOffset = 0
  · rw [if_pos h0]
    have hfs : fs = [] := by
      cases fs with
      | nil => rfl
      | cons f fs =>
        have := f.length_eq
        rw [RpcFrame.stream_cons, List.length_append] at hlen
        omega
    subst hfs
    refine ⟨c, pool, addr, [], rfl, by omega, ?_, (List.append_nil _).symm, .nil, hpool⟩
    rw [hbuf, RpcFrame.stream_nil, List.nil_append]
  · rw [if_neg h0]
    have hfuel : fs.length < c.recvOffset + 1 := by
      have := length_le_stream fs
      omega
    obtain ⟨out, hout, hoff, hpool', hobjs⟩ := dealReadLoop_spec fs hrest hinc (m := c.recvBuffer.bytes)
      (Nat.zero_le _) hn (by omega)
      (by rw [slice_zero]; exact hbuf) hfuel hpool addr
    have hleft : ((c.recvOffset : Int) - out.offset).toNat = rest.length := by omega
    have hfrom : out.offset.toNat = (RpcFrame.stream fs).length := by omega
    obtain ⟨m, hm, hbytes⟩ := c.recvBuffer.memmove_eq_ok 0 (RpcFrame.stream fs).length rest.length (by omega) (by omega)
    rw [Int.natCast_zero] at hout
    simp only [hout, hleft, hfrom, hm, ok_bind]
    refine ⟨_, _, _, out.objs, rfl, rfl, ?_, rfl, hobjs, hpool'⟩
    -- the rest is moved to the front
    have hslice : slice c.recvBuffer.bytes (RpcFrame.stream fs).length rest.length = rest := by
      have htake := slice_take c.recvBuffer.bytes (RpcFrame.stream fs).length rest.length c.recvOffset (by omega)
      rw [← htake, show c.recvBuffer.bytes.take c.recvOffset = _ from hbuf, show (RpcFrame.stream fs).length =
        (RpcFrame.stream fs).length + 0 from rfl, slice_append_right, slice_zero, List.take_length]
    rw [pending]
    simp only [hbytes, memmove, hslice]
    exact take_memcpy_zero _ _

theorem onRead_spec {c : TcpClient} {bs : Bytes} (hne : bs ≠ []) (hasked : c.recvOffset + bs.length ≤ RPC_BUFF_SIZE) :
    ∃ c', c.onRead (.data bs) = .ok (c', 2, false) ∧ c'.recvOffset = c.recvOffset + bs.length ∧
      c'.pending = c.pending ++ bs ∧ c'.queRpcObj = c.queRpcObj := by
  have hsize := c.recvBuffer.size
  have hpos := List.length_pos_iff.mpr hne
  obtain ⟨m, hm, hbytes⟩ := c.recvBuffer.memcpy_eq_ok c.recvOffset bs hasked
  rw [onRead, if_neg (by omega), hm, ok_bind, if_neg (by omega)]
  refine ⟨_, rfl, rfl, ?_, rfl⟩
  rw [pending]
  simp only [hbytes]
  rw [take_memcpy (by omega), pending]

theorem onRead_again (c : TcpClient) : c.onRead .again = .ok (c, 1, false) := by
  unfold onRead
  split <;> rfl

end TcpClient

/-! ## Runs on one connection -/

/-- A client with the shared pool, and what its connection has delivered and its handler has got so far. -/
structure RecvWorld where
  client : TcpClient
  rpcPool : List RpcObj
  received : Bytes
  handled : List RpcObj

/-- The calls of the read thread and of the main thread, and what the other clients do with the pool. -/
inductive RecvOp
  | onRead (r : ReadRes)
  | dealReadBuffer (addr : Nat)
  | handleRpcObj
  | others (o : RpcPoolOp)

namespace RecvWorld
open RpcFrame

def step (w : RecvWorld) : RecvOp → Except Fault RecvWorld
  | .onRead r => do
    let (client, _, _) ← w.client.onRead r
    return { w with client, received := w.received ++ r.bytes }
  | .dealReadBuffer addr => do
    let (client, rpcPool, _) ← w.client.dealReadBuffer w.rpcPool addr
    return { w with client, rpcPool }
  | .handleRpcObj =>
    let (client, rpcPool, objs) := w.client.handleRpcObj w.rpcPool
    return { w with client, rpcPool, handled := w.handled ++ objs }
  | .others o => do
    return { w with rpcPool := ← rpcPoolStep w.rpcPool o }

/-- The connection delivers the bytes of these records: a `read` returns some of them that come next, at most as many as
are asked for, or finds nothing. -/
def Delivers (fs : List RpcFrame) (w : RecvWorld) : RecvOp → Prop
  | .onRead .error => False
  | .onRead .again => True
  | .onRead (.data bs) =>
    bs ≠ [] ∧ w.client.recvOffset + bs.length ≤ RPC_BUFF_SIZE ∧ (w.received ++ bs) <+: RpcFrame.stream fs
  | _ => True

/-- The messages of the first records have been queued, and what has been received behind them is in the buffer. -/
structure Inv (fs : List RpcFrame) (w : RecvWorld) : Prop where
  parsed : ∃ gs hs, fs = gs ++ hs ∧ w.received = RpcFrame.stream gs ++ w.client.pending ∧
    List.Forall₂ Decodes gs (w.handled ++ w.client.queRpcObj)
  received : w.received <+: RpcFrame.stream fs
  recvOffset_le : w.client.recvOffset ≤ RPC_BUFF_SIZE
  pool : ∀ o ∈ w.rpcPool, o = .new

/-- Behind a `dealReadBuffer` every complete record is parsed: what is left is shorter than the next one. -/
structure Dealt (fs : List RpcFrame) (w : RecvWorld) : Prop where
  parsed : ∃ gs hs, fs = gs ++ hs ∧ w.received = RpcFrame.stream gs ++ w.client.pending ∧
    List.Forall₂ Decodes gs (w.handled ++ w.client.queRpcObj) ∧
    (∀ f ∈ hs.head?, w.client.pending.length < f.bytes.length) ∧ (hs = [] → w.client.pending = [])
  recvOffset_lt : w.client.recvOffset < RPC_BUFF_SIZE

theorem inv_dealReadBuffer {fs : List RpcFrame} {w : RecvWorld} (h : w.Inv fs) (addr : Nat) :
    ∃ w', w.step (.dealReadBuffer addr) = .ok w' ∧ w'.Inv fs ∧ w'.Dealt fs := by
  have hR := RPC_BUFF_SIZE_eq
  obtain ⟨gs, hs, rfl, hrecv, hobjs⟩ := h.parsed
  obtain ⟨t, ht⟩ := h.received
  have hpend : w.client.pending ++ t = RpcFrame.stream hs := by
    rw [hrecv, RpcFrame.stream_append, List.append_assoc] at ht
    exact List.append_cancel_left ht
  obtain ⟨gs', hs', rest, rfl, hsplit, hnext, hinc⟩ := RpcFrame.split_frames hpend
  obtain ⟨c, pool, addr', objs, hdeal, hoff, hrest, hque, hdec, hpool⟩ :=
    TcpClient.dealReadBuffer_spec h.recvOffset_le gs' hsplit hnext hinc h.pool addr
  obtain ⟨hshort, hnil, -⟩ := rest_spec hnext hinc
  have hlt : rest.length < RPC_BUFF_SIZE := by
    cases hs' with
    | nil =>
      rw [hnil rfl]
      simp only [List.length_nil]
      omega
    | cons f hs' => exact lt_of_lt_of_le (hshort f rfl) f.length_le
  have hparsed : List.Forall₂ Decodes (gs ++ gs') (w.handled ++ c.queRpcObj) := by
    rw [hque, ← List.append_assoc]
    exact List.rel_append hobjs hdec
  have hrecv' : w.received = RpcFrame.stream (gs ++ gs') ++ c.pending := by
    rw [hrecv, hsplit, hrest, RpcFrame.stream_append, List.append_assoc]
  refine ⟨{ w with client := c, rpcPool := pool }, ?_, ?_, ?_⟩
  · simp only [step, hdeal]
    rfl
  · exact ⟨⟨gs ++ gs', hs', (List.append_assoc _ _ _).symm, hrecv', hparsed⟩, h.received, by simp only; omega, hpool⟩
  · refine ⟨⟨gs ++ gs', hs', (List.append_assoc _ _ _).symm, hrecv', hparsed, ?_, ?_⟩, by simp only; omega⟩
    · rw [hrest]
      exact hshort
    · rw [hrest]
      exact hnil

theorem inv_step {fs : List RpcFrame} {w : RecvWorld} (h : w.Inv fs) {o : RecvOp} (ho : Delivers fs w o) :
    ∃ w', w.step o = .ok w' ∧ w'.Inv fs := by
  cases o with
  | onRead r =>
    cases r with
    | error => exact absurd ho id
    | again =>
      refine ⟨{ w with received := w.received ++ [] }, ?_, ?_⟩
      · simp only [step, TcpClient.onRead_again]
        rfl
      · rw [List.append_nil]
        exact h
    | data bs =>
      obtain ⟨hne, hasked, hpre⟩ := ho
      obtain ⟨c, hread, hoff, hpend, hque⟩ := TcpClient.onRead_spec hne hasked
      obtain ⟨gs, hs, hfs, hrecv, hobjs⟩ := h.parsed
      refine ⟨{ w with client := c, received := w.received ++ bs }, ?_, ?_⟩
      · simp only [step, hread]
        rfl
      · refine ⟨⟨gs, hs, hfs, ?_, ?_⟩, hpre, by simp only; omega, h.pool⟩
        · simp only
          rw [hrecv, hpend, List.append_assoc]
        · simp only
          rw [hque]
          exact hobjs
  | dealReadBuffer addr =>
    obtain ⟨w', hs, hinv, -⟩ := inv_dealReadBuffer h addr
    exact ⟨w', hs, hinv⟩
  | handleRpcObj =>
    obtain ⟨gs, hs, hfs, hrecv, hobjs⟩ := h.parsed
    refine ⟨_, rfl, ⟨gs, hs, hfs, hrecv, ?_⟩, h.received, h.recvOffset_le, ?_⟩
    · simpa [TcpClient.handleRpcObj] using hobjs
    · exact foldl_pushRpcobj h.pool _
  | others o =>
    obtain ⟨pool, hpool, hnew⟩ := rpcPoolStep_new h.pool o
    refine ⟨{ w with rpcPool := pool }, ?_, h.parsed, h.received, h.recvOffset_le, hnew⟩
    simp only [step, hpool]
    rfl

theorem inv_start (fs : List RpcFrame) {c : TcpClient} (hoff : c.recvOffset = 0) (hque : c.queRpcObj = [])
    {pool : List RpcObj} (hpool : ∀ o ∈ pool, o = .new) : Inv fs ⟨c, pool, [], []⟩ := by
  refine ⟨⟨[], fs, rfl, ?_, ?_⟩, List.nil_prefix, ?_, hpool⟩
  · simp [RpcFrame.stream_nil, TcpClient.pending, hoff]
  · simp [hque]
  · simp [hoff]

/-- Behind a `dealReadBuffer` with nothing more to come, all records are parsed. -/
theorem Dealt.all {fs : List RpcFrame} {w : RecvWorld} (h : w.Dealt fs) (hall : w.received = RpcFrame.stream fs) :
    w.client.pending = [] ∧ List.Forall₂ Decodes fs (w.handled ++ w.client.queRpcObj) := by
  obtain ⟨gs, hs, rfl, hrecv, hobjs, hshort, hnil⟩ := h.parsed
  rw [hrecv, RpcFrame.stream_append] at hall
  have hpend : w.client.pending = RpcFrame.stream hs := List.append_cancel_left hall
  cases hs with
  | nil =>
    rw [List.append_nil]
    exact ⟨hnil rfl, hobjs⟩
  | cons f hs =>
    have hlt := hshort f rfl
    rw [hpend, RpcFrame.stream_cons, List.length_append] at hlt
    omega

theorem Dealt.recvOffset_eq_zero {fs : List RpcFrame} {w : RecvWorld} (h : w.Dealt fs) (hpend : w.client.pending = []) :
    w.client.recvOffset = 0 := by
  have hlt := h.recvOffset_lt
  have hsize := w.client.recvBuffer.size
  have hlen := congrArg List.length hpend
  rw [TcpClient.pending, List.length_take, List.length_nil] at hlen
  omega

/-- Once all records are parsed, only the handler gets something to do. -/
theorem reach_all {fs : List RpcFrame} {w₁ w₂ : RecvWorld} (h : Reach step (Delivers fs) w₁ w₂)
    (hall : w₁.received = RpcFrame.stream fs) (hoff : w₁.client.recvOffset = 0)
    (hobjs : List.Forall₂ Decodes fs (w₁.handled ++ w₁.client.queRpcObj)) :
    List.Forall₂ Decodes fs (w₂.handled ++ w₂.client.queRpcObj) := by
  have hinv : w₂.received = RpcFrame.stream fs ∧ w₂.client.recvOffset = 0 ∧
      List.Forall₂ Decodes fs (w₂.handled ++ w₂.client.queRpcObj) := by
    apply h.invariant (I := fun w => w.received = RpcFrame.stream fs ∧ w.client.recvOffset = 0 ∧
      List.Forall₂ Decodes fs (w.handled ++ w.client.queRpcObj)) ⟨hall, hoff, hobjs⟩
    rintro w o w' ⟨hall, hoff, hobjs⟩ ho hs
    cases o with
    | onRead r =>
      cases r with
      | error => exact absurd ho id
      | again =>
        simp only [step, TcpClient.onRead_again, ok_bind] at hs
        cases hs
        simpa [ReadRes.bytes] using ⟨hall, hoff, hobjs⟩
      | data bs =>
        -- no byte is left to be delivered
        obtain ⟨hne, -, hpre⟩ := ho
        have hlen := hpre.length_le
        have hpos := List.length_pos_iff.mpr hne
        rw [hall, List.length_append] at hlen
        omega
    | dealReadBuffer addr =>
      simp only [step, TcpClient.dealReadBuffer, hoff, if_true] at hs
      cases hs
      exact ⟨hall, hoff, hobjs⟩
    | handleRpcObj =>
      cases hs
      simpa [TcpClient.handleRpcObj] using ⟨hall, hoff, hobjs⟩
    | others o =>
      obtain ⟨pool, -, hs⟩ := bind_eq_ok.mp hs
      cases hs
      exact ⟨hall, hoff, hobjs⟩
  exact hinv.2.2

/-- **The receive stream of a `tcpclient`.** However the bytes of well-formed records are cut into reads, and in whatever
order the three calls are made: every call returns; the handler has got the messages of the first records, each once and
in order; after a `dealReadBuffer` the buffer starts with exactly the bytes that have been received and not parsed, less
than a record, and is not full; and once everything is received, a `dealReadBuffer` and a later `handleRpcObj` hand on
all messages. -/
theorem receives (fs : List RpcFrame) {c : TcpClient} (hoff : c.recvOffset = 0) (hque : c.queRpcObj = [])
    {pool : List RpcObj} (hpool : Reach rpcPoolStep (fun _ _ => True) [] pool) {w : RecvWorld}
    (h : Reach step (Delivers fs) ⟨c, pool, [], []⟩ w) :
    (∀ o, Delivers fs w o → ∃ w', w.step o = .ok w') ∧
    (∃ gs, gs <+: fs ∧ List.Forall₂ Decodes gs w.handled) ∧
    (∀ addr w₁, w.step (.dealReadBuffer addr) = .ok w₁ → w₁.Dealt fs) ∧
    ∀ addr w₁ w₂ w₃, w.received = RpcFrame.stream fs → w.step (.dealReadBuffer addr) = .ok w₁ →
      Reach step (Delivers fs) w₁ w₂ → w₂.step .handleRpcObj = .ok w₃ → List.Forall₂ Decodes fs w₃.handled := by
  have hinv : w.Inv fs := by
    apply h.invariant (inv_start fs hoff hque (rpcPool_eq_new hpool))
    intro w o w' hw ho hs
    obtain ⟨w'', hs', hw'⟩ := inv_step hw ho
    rw [hs] at hs'
    cases hs'
    exact hw'
  have hdealt : ∀ addr w₁, w.step (.dealReadBuffer addr) = .ok w₁ → w₁.Dealt fs := by
    intro addr w₁ hs
    obtain ⟨w', hs', -, hd⟩ := inv_dealReadBuffer hinv addr
    rw [hs] at hs'
    cases hs'
    exact hd
  refine ⟨?_, ?_, hdealt, ?_⟩
  · intro o ho
    obtain ⟨w', hs, -⟩ := inv_step hinv ho
    exact ⟨w', hs⟩
  · obtain ⟨gs, hs, rfl, -, hobjs⟩ := hinv.parsed
    exact ⟨gs.take w.handled.length, (List.take_prefix _ _).trans (List.prefix_append _ _),
      List.forall₂_take_append _ _ _ hobjs⟩
  · intro addr w₁ w₂ w₃ hall hs₁ h₂ hs₃
    have hall₁ : w₁.received = RpcFrame.stream fs := by
      obtain ⟨⟨c', pool', addr'⟩, -, hs₁⟩ := bind_eq_ok.mp hs₁
      cases hs₁
      exact hall
    obtain ⟨hpend, hobjs⟩ := (hdealt addr w₁ hs₁).all hall₁
    have hoff₁ := (hdealt addr w₁ hs₁).recvOffset_eq_zero hpend
    cases hs₃
    exact reach_all h₂ hall₁ hoff₁ hobjs

/-! ## A record cut by a read -/

/-- Where the stream is no longer than the buffer, there is room for what is still to come. -/
theorem Inv.delivers {fs : List RpcFrame} {w : RecvWorld} (h : w.Inv fs) {bs : Bytes} (hne : bs ≠ [])
    (hpre : w.received ++ bs <+: RpcFrame.stream fs) (hsmall : (RpcFrame.stream fs).length ≤ RPC_BUFF_SIZE) :
    Delivers fs w (.onRead (.data bs)) := by
  refine ⟨hne, ?_, hpre⟩
  have hoff := h.recvOffset_le
  have hsize := w.client.recvBuffer.size
  have hlen := hpre.length_le
  obtain ⟨gs, hs, -, hrecv, -⟩ := h.parsed
  have hpend : w.client.pending.length = w.client.recvOffset := by
    rw [TcpClient.pending, List.length_take]
    omega
  rw [hrecv, List.length_append, List.length_append] at hlen
  omega

theorem step_eq {w w' : RecvWorld} {o : RecvOp} (h : w.step o = .ok w') : w'.client.send = w.client.send ∧
    w'.received = w.received ++ (match o with | .onRead r => r.bytes | _ => []) := by
  cases o with
  | onRead r =>
    obtain ⟨⟨c, ret, del⟩, hread, h⟩ := bind_eq_ok.mp h
    cases h
    refine ⟨?_, rfl⟩
    unfold TcpClient.onRead at hread
    split at hread
    · cases hread
      rfl
    · cases r with
      | error =>
        cases hread
        rfl
      | again =>
        cases hread
        rfl
      | data bs =>
        obtain ⟨m, -, hread⟩ := bind_eq_ok.mp hread
        split at hread <;> cases hread <;> rfl
  | dealReadBuffer addr =>
    obtain ⟨⟨c, pool, addr'⟩, hdeal, h⟩ := bind_eq_ok.mp h
    cases h
    refine ⟨?_, (List.append_nil _).symm⟩
    unfold TcpClient.dealReadBuffer at hdeal
    split at hdeal
    · cases hdeal
      rfl
    · obtain ⟨out, -, hdeal⟩ := bind_eq_ok.mp hdeal
      obtain ⟨m, -, hdeal⟩ := bind_eq_ok.mp hdeal
      cases hdeal
      rfl
  | handleRpcObj =>
    cases h
    exact ⟨rfl, (List.append_nil _).symm⟩
  | others o =>
    obtain ⟨pool, -, h⟩ := bind_eq_ok.mp h
    cases h
    exact ⟨rfl, (List.append_nil _).symm⟩

/-- A client on descriptor 5 of a game node. -/
def gate1Client : TcpClient := TcpClient.gate1New.initSock 5

def twoFrames : List RpcFrame := [.ofRecord game1 offlineMsg (by decide), .ofRecord game1 takeProxy (by decide)]

/-- The first read ends behind the length word of the second record. The first record is handled before the second read,
and both are parsed in the end. -/
theorem exists_two : ∃ w₁ w : RecvWorld, Reach step (Delivers twoFrames) ⟨gate1Client, [], [], []⟩ w₁ ∧
    w₁.received.length = recordSize game1 offlineMsg + 6 ∧ Reach step (Delivers twoFrames) w₁ w ∧
    w.received = RpcFrame.stream twoFrames ∧ w.client.recvOffset = 0 ∧ w.client.send = .new := by
  have hR := RPC_BUFF_SIZE_eq
  have hfirst : recordSize game1 offlineMsg = 44 := by decide
  have hsecond : recordSize game1 takeProxy = 45 := by decide
  have hlen : (RpcFrame.stream twoFrames).length = 89 := by
    simp [RpcFrame.stream, twoFrames, RpcFrame.ofRecord, length_record, hfirst, hsecond]
  set s := RpcFrame.stream twoFrames with hs
  have hinv : Inv twoFrames ⟨gate1Client, [], [], []⟩ := inv_start twoFrames rfl rfl (by simp)
  have hcut {k : Nat} (hk : k < 89) : s.drop k ≠ [] := List.ne_nil_of_length_pos (by rw [List.length_drop]; omega)
  have htake : s.take 50 ≠ [] := List.ne_nil_of_length_pos (by rw [List.length_take]; omega)
  -- the first read, parsed and handled
  have hread₁ := hinv.delivers htake (List.take_prefix 50 s) (by rw [← hs]; omega)
  obtain ⟨w₁, hw₁, hinv₁⟩ := inv_step hinv hread₁
  obtain ⟨w₂, hw₂, hinv₂, -⟩ := inv_dealReadBuffer hinv₁ 0
  obtain ⟨w₃, hw₃, hinv₃⟩ := inv_step (o := .handleRpcObj) hinv₂ trivial
  obtain ⟨hsend₁, hrecv₁⟩ := step_eq hw₁
  obtain ⟨hsend₂, hrecv₂⟩ := step_eq hw₂
  obtain ⟨hsend₃, hrecv₃⟩ := step_eq hw₃
  have hrecv : w₃.received = s.take 50 := by simp [hrecv₃, hrecv₂, hrecv₁, ReadRes.bytes]
  -- the second read
  have hread₂ : Delivers twoFrames w₃ (.onRead (.data (s.drop 50))) :=
    hinv₃.delivers (hcut (by decide)) (by rw [hrecv, List.take_append_drop]) (by rw [← hs]; omega)
  obtain ⟨w₄, hw₄, hinv₄⟩ := inv_step hinv₃ hread₂
  obtain ⟨w₅, hw₅, hinv₅, hdealt⟩ := inv_dealReadBuffer hinv₄ 0
  obtain ⟨hsend₄, hrecv₄⟩ := step_eq hw₄
  obtain ⟨hsend₅, hrecv₅⟩ := step_eq hw₅
  have hall : w₅.received = s := by simp [hrecv₅, hrecv₄, hrecv, ReadRes.bytes]
  refine ⟨w₃, w₅, ?_, ?_, ?_, hall, hdealt.recvOffset_eq_zero (hdealt.all hall).1, ?_⟩
  · have h₂ := (Reach.refl.step hread₁ hw₁).step (o := RecvOp.dealReadBuffer 0) trivial hw₂
    exact h₂.step (o := RecvOp.handleRpcObj) trivial hw₃
  · rw [hrecv, List.length_take]
    omega
  · exact (Reach.refl.step hread₂ hw₄).step (o := RecvOp.dealReadBuffer 0) trivial hw₅
  · rw [hsend₅, hsend₄, hsend₃, hsend₂, hsend₁]
    rfl

theorem receives_two : ∃ w, Reach step (Delivers twoFrames) ⟨gate1Client, [], [], []⟩ w ∧
    List.Forall₂ Decodes twoFrames w.handled := by
  obtain ⟨w₁, w, h₁, -, h₂, hall, -⟩ := exists_two
  have hreach := h₁.trans h₂
  obtain ⟨hreturns, -, -, hdone⟩ := receives twoFrames (c := gate1Client) rfl rfl .refl hreach
  obtain ⟨w₂, hw₂⟩ := hreturns (.dealReadBuffer 0) trivial
  have hreach := hreach.step (o := RecvOp.dealReadBuffer 0) trivial hw₂
  have hw₃ : w₂.step .handleRpcObj = .ok _ := rfl
  exact ⟨_, hreach.step (o := RecvOp.handleRpcObj) trivial hw₃, hdone 0 w₂ w₂ _ hall hw₂ .refl hw₃⟩

end RecvWorld

end KcpServer
