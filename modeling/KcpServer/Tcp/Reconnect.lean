import KcpServer.Tcp.Receive

/-!
# What a reconnect leaves of the old connection

`OnClose` gives a client a new socket and sends `TakeProxy`, but the received bytes stay where they are, and the next
`dealReadBuffer` takes them for the head of the new stream. `isolated_iff` : the messages of the new connection are those
of a new client exactly if no byte was left.

* `passes` : what the read thread makes of a stream, pass by pass;
* `dealReadBuffer_quiet`, `dealReadBuffer_loud` : when a `dealReadBuffer` queues nothing.
-/

namespace KcpServer
open Lib

namespace TcpClient

/-! ## The passes of the read thread -/

/-- The passes of the read thread over a stream: the messages queued. A pass asks for what the buffer has room for, and
the kernel delivers at most `k` bytes. -/
def passes (c : TcpClient) (pool : List RpcObj) (addr : Nat) (stream : Bytes) : List Nat → Except Fault (List RpcObj)
  | [] => return []
  | k :: ks => do
    let bs := stream.take (min k (RPC_BUFF_SIZE - c.recvOffset))
    let (c, _, _) ← c.onRead (if bs = [] then .again else .data bs)
    let (c', pool, addr) ← c.dealReadBuffer pool addr
    let objs := c'.queRpcObj.drop c.queRpcObj.length
    return objs ++ (← passes c' pool addr (stream.drop bs.length) ks)

/-- A new client of the same name and address, in memory that holds `mem`. -/
def fresh (c : TcpClient) (mem : Block RPC_BUFF_SIZE) : TcpClient := new c.name c.ip c.port c.bNet c.sock mem

/-- Whatever stream arrives, in whatever pieces, the messages are those that a new client makes of it, where these do not
depend on what is in the new client's memory. -/
def Isolated (c : TcpClient) (pool : List RpcObj) (addr : Nat) : Prop :=
  ∀ stream ks out, (∀ mem, (c.fresh mem).passes pool addr stream ks = out) → c.passes pool addr stream ks = out

/-! ### The passes look at the receive buffer only -/

section With
variable (c : TcpClient) (q : List RpcObj) (x : SendQueue)

theorem onRead_with (r : ReadRes) : ({ c with queRpcObj := q, send := x } : TcpClient).onRead r =
    (fun y => ({ y.1 with queRpcObj := q, send := x }, y.2)) <$> c.onRead r := by
  unfold onRead
  split
  · rfl
  · cases r with
    | error => rfl
    | again => rfl
    | data bs =>
      simp only
      cases c.recvBuffer.memcpy c.recvOffset bs with
      | error e => rfl
      | ok m =>
        simp only [ok_bind]
        split <;> rfl

theorem dealReadBuffer_with (pool : List RpcObj) (addr : Nat) :
    ({ c with queRpcObj := q, send := x } : TcpClient).dealReadBuffer pool addr =
      (fun y => ({ y.1 with queRpcObj := q ++ y.1.queRpcObj.drop c.queRpcObj.length, send := x }, y.2)) <$>
        c.dealReadBuffer pool addr := by
  unfold dealReadBuffer
  split
  · simp [Functor.map, Except.map, Pure.pure, Except.pure]
  · simp only
    cases dealReadLoop RpcObj.decodeBuffer c.recvBuffer.bytes c.recvOffset (c.recvOffset + 1) 0 pool addr with
    | error e => rfl
    | ok out =>
      simp only [ok_bind]
      cases c.recvBuffer.memmove 0 out.offset.toNat ((c.recvOffset : Int) - out.offset).toNat with
      | error e => rfl
      | ok m => simp [Functor.map, Except.map, Pure.pure, Except.pure]

theorem passes_with (pool : List RpcObj) (addr : Nat) (stream : Bytes) (ks : List Nat) :
    ({ c with queRpcObj := q, send := x } : TcpClient).passes pool addr stream ks = c.passes pool addr stream ks := by
  induction ks generalizing c q pool addr stream with
  | nil => rfl
  | cons k ks ih =>
    rw [passes, passes]
    simp only [onRead_with]
    cases hread : c.onRead (if stream.take (min k (RPC_BUFF_SIZE - c.recvOffset)) = [] then .again
        else .data (stream.take (min k (RPC_BUFF_SIZE - c.recvOffset)))) with
    | error e => rfl
    | ok y =>
      obtain ⟨c₁, ret, del⟩ := y
      simp only [Functor.map, Except.map, ok_bind]
      rw [dealReadBuffer_with]
      cases c₁.dealReadBuffer pool addr with
      | error e => rfl
      | ok z =>
        obtain ⟨c₂, pool', addr'⟩ := z
        simp only [Functor.map, Except.map, ok_bind, List.drop_left]
        rw [ih]

end With

theorem onClose_recv {name : ServerName} {s s' : SendPool} {c c' : TcpClient} {fd : Int}
    (h : c.onClose name s false fd = .ok (s', c')) : c'.recvBuffer = c.recvBuffer ∧ c'.recvOffset = c.recvOffset := by
  rw [onClose, if_neg (by simp)] at h
  obtain ⟨⟨s₁, send⟩, -, h⟩ := bind_eq_ok.mp h
  cases h
  exact ⟨rfl, rfl⟩

/-! ## When a pass queues nothing -/

/-- No record is parsed out of these bytes: they are less than a length word, or less than the record it declares. -/
def NoRecord (p : Bytes) : Prop :=
  p.length < 4 ∨ (p.length : Int) < 4 + int32 (leNat (p.take 4)) ∧ 4 + int32 (leNat (p.take 4)) < 2 ^ 31

theorem length_pending {c : TcpClient} (h : c.recvOffset ≤ RPC_BUFF_SIZE) : c.pending.length = c.recvOffset := by
  have hsize := c.recvBuffer.size
  rw [pending, List.length_take]
  omega

theorem readLE_pending {c : TcpClient} (h : c.recvOffset ≤ RPC_BUFF_SIZE) (hfour : 4 ≤ c.recvOffset) :
    readLE 4 c.recvBuffer.bytes 0 = .ok (leNat (c.pending.take 4)) := by
  have hsize := c.recvBuffer.size
  rw [readLE_eq (by omega), slice_zero, pending, List.take_take, min_eq_left hfour]

theorem dealReadBuffer_quiet {c : TcpClient} (h : c.recvOffset ≤ RPC_BUFF_SIZE) (hno : NoRecord c.pending)
    (pool : List RpcObj) (addr : Nat) : c.dealReadBuffer pool addr = .ok (c, pool, addr) := by
  have hsize := c.recvBuffer.size
  unfold dealReadBuffer
  split
  · rfl
  · have hloop : dealReadLoop RpcObj.decodeBuffer c.recvBuffer.bytes c.recvOffset (c.recvOffset + 1) 0 pool addr =
        .ok ⟨0, pool, [], addr⟩ := by
      rw [dealReadLoop]
      by_cases hfour : (c.recvOffset : Int) - 0 < 4
      · rw [if_pos hfour]
        rfl
      · rw [NoRecord, length_pending h] at hno
        rw [if_neg hfour, if_neg (by omega), Int.toNat_zero, readLE_pending h (by omega), ok_bind, if_neg (by omega),
          if_pos (by omega)]
        rfl
    obtain ⟨m, hm, hbytes⟩ := c.recvBuffer.memmove_eq_ok 0 0 c.recvOffset (by omega) (by omega)
    have hmeq : m = c.recvBuffer := by
      apply Block.ext
      rw [hbytes, memmove_self _ _ _ (by omega)]
    simp [hloop, hm, hmeq, Pure.pure, Except.pure]

/-- With a record in the buffer a `dealReadBuffer` queues a message, if it returns. -/
theorem dealReadBuffer_loud {c c' : TcpClient} (h : c.recvOffset ≤ RPC_BUFF_SIZE) (hno : ¬ NoRecord c.pending)
    {pool pool' : List RpcObj} {addr addr' : Nat} (hdeal : c.dealReadBuffer pool addr = .ok (c', pool', addr')) :
    c'.queRpcObj.drop c.queRpcObj.length ≠ [] := by
  rw [NoRecord, length_pending h] at hno
  rw [dealReadBuffer, if_neg (by omega)] at hdeal
  obtain ⟨out, hloop, hdeal⟩ := bind_eq_ok.mp hdeal
  obtain ⟨m, -, hdeal⟩ := bind_eq_ok.mp hdeal
  cases hdeal
  rw [dealReadLoop, if_neg (by omega), if_neg (by omega), Int.toNat_zero, readLE_pending h (by omega), ok_bind] at hloop
  generalize int32 (leNat (c.pending.take 4)) = bodylen at hno hloop
  by_cases hover : 4 + bodylen ≥ 2 ^ 31
  · rw [if_pos hover] at hloop
    cases hloop
  · rw [if_neg hover, if_neg (by omega)] at hloop
    obtain ⟨o, -, hloop⟩ := bind_eq_ok.mp hloop
    obtain ⟨out', -, hloop⟩ := bind_eq_ok.mp hloop
    cases hloop
    simp

theorem onRead_pass {c : TcpClient} (h : c.recvOffset ≤ RPC_BUFF_SIZE) (stream : Bytes) (k : Nat) :
    ∃ c₁ ret, c.onRead (if stream.take (min k (RPC_BUFF_SIZE - c.recvOffset)) = [] then .again
        else .data (stream.take (min k (RPC_BUFF_SIZE - c.recvOffset)))) = .ok (c₁, ret, false) ∧
      c₁.recvOffset ≤ RPC_BUFF_SIZE ∧ c₁.queRpcObj = c.queRpcObj ∧
      c₁.pending = c.pending ++ stream.take (min k (RPC_BUFF_SIZE - c.recvOffset)) := by
  split
  · next hnil =>
    refine ⟨c, 1, onRead_again c, h, rfl, ?_⟩
    rw [hnil, List.append_nil]
  · next hne =>
    have hlen : (stream.take (min k (RPC_BUFF_SIZE - c.recvOffset))).length ≤ RPC_BUFF_SIZE - c.recvOffset := by
      rw [List.length_take]
      omega
    obtain ⟨c₁, hread, hoff, hpend, hque⟩ := onRead_spec (c := c) hne (by omega)
    exact ⟨c₁, 2, hread, by omega, hque, hpend⟩

/-- A pass queues nothing exactly if there is no record in what it has then. -/
theorem passes_one_iff {c : TcpClient} (h : c.recvOffset ≤ RPC_BUFF_SIZE) (pool : List RpcObj) (addr : Nat)
    (stream : Bytes) (k : Nat) : c.passes pool addr stream [k] = .ok [] ↔
      NoRecord (c.pending ++ stream.take (min k (RPC_BUFF_SIZE - c.recvOffset))) := by
  obtain ⟨c₁, ret, hread, hle, hque, hpend⟩ := onRead_pass h stream k
  rw [← hpend, passes]
  simp only [hread, ok_bind]
  by_cases hno : NoRecord c₁.pending
  · simp [dealReadBuffer_quiet hle hno, hno, passes, Pure.pure, Except.pure]
  · simp only [hno, iff_false]
    intro heq
    obtain ⟨⟨c₂, pool', addr'⟩, hdeal, heq⟩ := bind_eq_ok.mp heq
    obtain ⟨objs, hobjs, heq⟩ := bind_eq_ok.mp heq
    cases hobjs
    have hnil := Except.ok.inj heq
    rw [List.append_nil] at hnil
    exact dealReadBuffer_loud hle hno hdeal hnil

/-! ## A left-over byte is seen -/

theorem fresh_pending (c : TcpClient) (mem : Block RPC_BUFF_SIZE) : (c.fresh mem).pending = [] := by
  simp [pending, fresh, new]

/-- A stream that completes the left-over bytes to a record while a new client still waits: three zeros, which complete
a length word, and then a byte that makes a length word of them all that is larger than the buffer. -/
def completing (n : Nat) : Bytes := [0, 0, 0, 127] ++ List.replicate n 0

/-- What `k` bytes of it are for a new client. -/
theorem noRecord_completing {n k : Nat} (hk : k ≤ RPC_BUFF_SIZE) : NoRecord ((completing n).take k) := by
  have hR := RPC_BUFF_SIZE_eq
  by_cases hfour : k < 4
  · left
    rw [List.length_take]
    omega
  · right
    have htake : ((completing n).take k).take 4 = [0, 0, 0, 127] := by
      rw [List.take_take, min_eq_left (by omega)]
      rfl
    have hint : int32 (leNat [0, 0, 0, 127] : Nat) = 2130706432 := by decide
    rw [htake, hint, List.length_take]
    omega

/-- What they are behind left-over bytes that declare a record of `w` bytes, as far as they go. -/
theorem not_noRecord_completing {p : Bytes} {w : Nat} (hp : p ≠ []) (hw : leNat ((p ++ [0, 0, 0]).take 4) = w)
    (hle : p.length < 4 + w) (hsmall : 4 + w ≤ RPC_BUFF_SIZE) :
    ¬ NoRecord (p ++ (completing (4 + w)).take (4 + w - p.length)) := by
  have hR := RPC_BUFF_SIZE_eq
  have hpos := List.length_pos_iff.mpr hp
  have htake : (p ++ (completing (4 + w)).take (4 + w - p.length)).take 4 = (p ++ [0, 0, 0]).take 4 := by
    rw [List.take_append, List.take_append, List.take_take, min_eq_left (by omega)]
    congr 1
    rw [completing, show ([0, 0, 0, 127] : Bytes) = [0, 0, 0] ++ [127] from rfl, List.append_assoc,
      List.take_append_of_le_length (by simp; omega)]
  have hint : int32 (w : Nat) = w := int32_of_range (by omega) (by omega)
  have hlen : (p ++ (completing (4 + w)).take (4 + w - p.length)).length = 4 + w := by
    rw [List.length_append, List.length_take, completing, List.length_append, List.length_replicate]
    simp
    omega
  rw [NoRecord, htake, hw, hint, hlen]
  omega

/-- A record of an unknown type. -/
def unknownType : Bytes := [1, 0, 0, 0, 1]

/-- Behind left-over bytes that declare a record that is longer than the buffer it does not show. -/
theorem noRecord_long {p : Bytes} {j : Nat} (hno : NoRecord p) (hj : j ≤ 5) (hroom : p.length + j ≤ RPC_BUFF_SIZE)
    (hlong : RPC_BUFF_SIZE < 4 + leNat ((p ++ [0, 0, 0]).take 4)) : NoRecord (p ++ unknownType.take j) := by
  have hR := RPC_BUFF_SIZE_eq
  by_cases hfour : 4 ≤ p.length
  · -- the length word stays as it is
    have htake : (p ++ [0, 0, 0]).take 4 = p.take 4 := List.take_append_of_le_length hfour
    have htake' : (p ++ unknownType.take j).take 4 = p.take 4 := List.take_append_of_le_length hfour
    have hlt : leNat (p.take 4) < 256 ^ 4 := by
      have := leNat_lt (p.take 4)
      rwa [List.length_take, min_eq_left hfour] at this
    rw [htake] at hlong
    have hsmall : leNat (p.take 4) < 2 ^ 31 := by
      by_contra hge
      have := int32_neg (n := leNat (p.take 4)) (by omega) (by omega)
      rw [NoRecord] at hno
      omega
    rw [NoRecord, int32_of_range (by omega) (by omega)] at hno
    rw [NoRecord, htake', int32_of_range (by omega) (by omega), List.length_append, List.length_take]
    omega
  · -- three bytes are left, and the first byte completes the length word
    cases j with
    | zero =>
      rw [List.take_zero, List.append_nil]
      exact hno
    | succ j =>
      match p with
      | [] => simp [leNat] at hlong; omega
      | [a] =>
        have ha := a.toNat_lt
        simp [leNat] at hlong
        omega
      | [a, b] =>
        have ha := a.toNat_lt
        have hb := b.toNat_lt
        simp [leNat] at hlong
        omega
      | [a, b, c] =>
        have ha := a.toNat_lt
        have hb := b.toNat_lt
        have hc := c.toNat_lt
        have htake : ([a, b, c] ++ unknownType.take (j + 1)).take 4 = [a, b, c, 1] := rfl
        have hword : leNat [a, b, c, 1] = a.toNat + 256 * b.toNat + 65536 * c.toNat + 16777216 := by
          simp [leNat]
          ring
        rw [NoRecord, htake, hword, int32_of_range (by omega) (by omega), List.length_append, List.length_take]
        simp only [List.length_cons, List.length_nil]
        omega
      | _ :: _ :: _ :: _ :: _ => simp at hfour

/-- A new client does not get over it. -/
theorem fresh_passes_unknownType (c : TcpClient) (mem : Block RPC_BUFF_SIZE) (pool : List RpcObj) (addr : Nat) :
    (c.fresh mem).passes pool addr unknownType [5] = .error .assertion := by
  have hR := RPC_BUFF_SIZE_eq
  obtain ⟨c₁, ret, hread, hle, -, hpend⟩ := onRead_pass (c := c.fresh mem) (Nat.zero_le _) unknownType 5
  have htake : unknownType.take (min 5 (RPC_BUFF_SIZE - (c.fresh mem).recvOffset)) = unknownType := rfl
  rw [htake, fresh_pending, List.nil_append] at hpend
  have hoff : c₁.recvOffset = 5 := by rw [← length_pending hle, hpend]; rfl
  have hsize := c₁.recvBuffer.size
  have hint : int32 (leNat [1, 0, 0, 0] : Nat) = 1 := by decide
  have htype : readLE 1 c₁.recvBuffer.bytes 4 = .ok 1 := by
    have hslice := slice_take c₁.recvBuffer.bytes 4 1 5 (by omega)
    rw [readLE_eq (by omega), ← hslice, ← hoff, show c₁.recvBuffer.bytes.take c₁.recvOffset = _ from hpend]
    rfl
  rw [passes]
  simp only [hread, ok_bind]
  rw [dealReadBuffer, if_neg (by omega), dealReadLoop, if_neg (by omega), if_neg (by omega), Int.toNat_zero,
    readLE_pending hle (by omega), hpend, ok_bind, show unknownType.take 4 = [1, 0, 0, 0] from rfl, hint,
    if_neg (by omega), if_neg (by omega)]
  simp [RpcObj.decodeBuffer, htype]

/-- **What a reconnect leaves of the old connection.** The messages of the new connection are those that a new client
makes of its stream exactly if no byte was left of the old connection. -/
theorem isolated_iff {name : ServerName} {s s' : SendPool} {c c' : TcpClient} {fd : Int}
    (hle : c.recvOffset ≤ RPC_BUFF_SIZE) (h : c.onClose name s false fd = .ok (s', c')) (pool : List RpcObj)
    (addr : Nat) : c'.Isolated pool addr ↔ c.recvOffset = 0 := by
  have hR := RPC_BUFF_SIZE_eq
  obtain ⟨-, hoff⟩ := onClose_recv h
  rw [← hoff] at hle ⊢
  have hlen := length_pending hle
  constructor
  · intro hiso
    by_contra hpos
    have hp : c'.pending ≠ [] := List.ne_nil_of_length_pos (by omega)
    -- an empty stream : nothing that was left is parsed at once
    have hno : NoRecord c'.pending := by
      have hempty := hiso [] [0] (.ok []) fun mem => (passes_one_iff (Nat.zero_le _) pool addr [] 0).mpr
        (by left; simp [fresh_pending])
      simpa using (passes_one_iff hle pool addr [] 0).mp hempty
    by_cases hlong : RPC_BUFF_SIZE < 4 + leNat ((c'.pending ++ [0, 0, 0]).take 4)
    · -- a record that stops a new client is swallowed
      have hswallow : c'.passes pool addr unknownType [5] = .ok [] := by
        apply (passes_one_iff hle pool addr unknownType 5).mpr
        exact noRecord_long hno (min_le_left _ _) (by omega) hlong
      rw [hiso unknownType [5] _ fun mem => fresh_passes_unknownType c' mem pool addr] at hswallow
      cases hswallow
    · -- what was left becomes a record while a new client waits
      set w := leNat ((c'.pending ++ [0, 0, 0]).take 4) with hw
      have hshort : c'.pending.length < 4 + w := by
        by_cases hfour : c'.pending.length < 4
        · omega
        · rw [List.take_append_of_le_length (by omega)] at hw
          rw [NoRecord, ← hw, int32_of_range (by omega) (by omega)] at hno
          omega
      have hwait := hiso (completing (4 + w)) [4 + w - c'.pending.length] (.ok []) fun mem =>
        (passes_one_iff (Nat.zero_le _) pool addr _ _).mpr (by
          rw [fresh_pending, List.nil_append]
          exact noRecord_completing (by omega))
      rw [passes_one_iff hle, min_eq_left (by omega)] at hwait
      exact not_noRecord_completing hp hw.symm hshort (by omega) hwait
  · intro hzero stream ks out hnew
    have hfresh : c' = { c'.fresh c'.recvBuffer with queRpcObj := c'.queRpcObj, send := c'.send } := by
      rw [fresh, new, ← hzero]
    rw [hfresh, passes_with]
    exact hnew c'.recvBuffer

theorem onClose_new (c : TcpClient) (hsend : c.send = .new) (fd : Int) :
    ∃ s' c', c.onClose game1 ⟨[], 0⟩ false fd = .ok (s', c') := by
  obtain ⟨p, -, hconn⟩ := doconnect_new (c.initSock fd) hsend
  exact ⟨_, _, hconn⟩

/-- The connection breaks behind two records, which have been parsed; a read had cut the second one. -/
theorem isolated_gate1 : ∃ w s' c', Reach RecvWorld.step (RecvWorld.Delivers RecvWorld.twoFrames)
    ⟨RecvWorld.gate1Client, [], [], []⟩ w ∧ w.received = RpcFrame.stream RecvWorld.twoFrames ∧
    w.client.onClose game1 ⟨[], 0⟩ false 7 = .ok (s', c') ∧ c'.Isolated w.rpcPool 2 := by
  obtain ⟨w₁, w, h₁, -, h₂, hall, hoff, hsend⟩ := RecvWorld.exists_two
  obtain ⟨s', c', h⟩ := onClose_new w.client hsend 7
  have hle : w.client.recvOffset ≤ RPC_BUFF_SIZE := by omega
  exact ⟨w, s', c', h₁.trans h₂, hall, h, (isolated_iff hle h w.rpcPool 2).mpr hoff⟩

/-- The first byte of a record has been received when the connection breaks. -/
theorem not_isolated : ∃ c s' c', RecvWorld.gate1Client.onRead (.data [16]) = .ok (c, 2, false) ∧
    c.onClose game1 ⟨[], 0⟩ false 7 = .ok (s', c') ∧ ¬ c'.Isolated [] 0 := by
  have hR := RPC_BUFF_SIZE_eq
  obtain ⟨m, hm, -⟩ := RecvWorld.gate1Client.recvBuffer.memcpy_eq_ok 0 [16] (by simp; omega)
  have hread : RecvWorld.gate1Client.onRead (.data [16]) =
      .ok ({ RecvWorld.gate1Client with recvBuffer := m, recvOffset := 1 }, 2, false) := by
    have hoff : RecvWorld.gate1Client.recvOffset = 0 := rfl
    rw [onRead, if_neg (by omega), hoff, hm]
    rfl
  obtain ⟨s', c', h⟩ := onClose_new { RecvWorld.gate1Client with recvBuffer := m, recvOffset := 1 } rfl 7
  refine ⟨_, s', c', hread, h, ?_⟩
  rw [isolated_iff (by simp only; omega) h]
  exact Nat.one_ne_zero

end TcpClient

end KcpServer
