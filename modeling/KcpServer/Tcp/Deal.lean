import KcpServer.Tcp.Client

/-!
# The loop of `dealReadBuffer`

The length word of a record is read as an `int` and added to the offset. `dealReadBuffer_progress_iff` : the loop ends, goes
forward in every iteration and stays within what has been received, exactly if every length word that it comes to is more
than -4 and leaves `4 + bodylen` an `int`. A word of -4 is a record without end.
-/

namespace KcpServer
open Lib

namespace TcpClient

/-- A decoder of records, as `rpcObj::decodeBuffer` is one. -/
abbrev Decoder := RpcObj → Bytes → Nat → Nat → Except Fault RpcObj

/-- What an iteration of the loop makes of the offset; `none` where the loop is left. -/
def dealReadNext (m : Bytes) (recvOffset : Nat) (offset : Int) : Except Fault (Option Int) :=
  let left := recvOffset - offset
  if left < 4 then
    return none
  else if offset < 0 then
    .error .bounds
  else do
    let bodylen := int32 (← readLE 4 m offset.toNat)
    if 4 + bodylen ≥ 2 ^ 31 then
      .error .overflow
    else if left < 4 + bodylen then
      return none
    else
      return some (offset + (4 + bodylen))

/-- `dealReadBuffer` with any decoder. -/
def dealReadBufferWith (decode : Decoder) (c : TcpClient) (pool : List RpcObj)
    (addr : Nat) : Except Fault (TcpClient × List RpcObj × Nat) :=
  if c.recvOffset = 0 then
    return (c, pool, addr)
  else do
    let out ← dealReadLoop decode c.recvBuffer.bytes c.recvOffset (c.recvOffset + 1) 0 pool addr
    let left := (c.recvOffset - out.offset).toNat
    let recvBuffer ← c.recvBuffer.memmove 0 out.offset.toNat left
    return ({ c with recvBuffer, recvOffset := left, queRpcObj := c.queRpcObj ++ out.objs }, out.pool, out.addr)

theorem dealReadBufferWith_decodeBuffer (c : TcpClient) (pool : List RpcObj) (addr : Nat) :
    c.dealReadBufferWith RpcObj.decodeBuffer pool addr = c.dealReadBuffer pool addr := rfl

/-- The decoder returns. -/
def Returns (decode : Decoder) : Prop := ∀ o m p addr, ∃ o', decode o m p addr = .ok o'

section Loop
variable {decode : Decoder} {m : Bytes} {n fuel : Nat} {offset next : Int}
  {pool : List RpcObj} {addr : Nat}

theorem dealReadLoop_succ : dealReadLoop decode m n (fuel + 1) offset pool addr =
    dealReadNext m n offset >>= fun
      | none => .ok ⟨offset, pool, [], addr⟩
      | some next => do
        let p ← decode (popRpcobj pool).1 m offset.toNat addr
        let out ← dealReadLoop decode m n fuel next (popRpcobj pool).2 (addr + 1)
        return { out with objs := p :: out.objs } := by
  rw [dealReadLoop, dealReadNext]
  dsimp only
  by_cases hleft : n - offset < 4
  · rw [if_pos hleft, if_pos hleft]
    rfl
  rw [if_neg hleft, if_neg hleft]
  by_cases hneg : offset < 0
  · rw [if_pos hneg, if_pos hneg]
    rfl
  rw [if_neg hneg, if_neg hneg]
  cases readLE 4 m offset.toNat with
  | error e => rfl
  | ok word =>
    rw [ok_bind, ok_bind]
    by_cases hover : 4 + int32 word ≥ 2 ^ 31
    · rw [if_pos hover, if_pos hover]
      rfl
    rw [if_neg hover, if_neg hover]
    by_cases hshort : n - offset < 4 + int32 word
    · rw [if_pos hshort, if_pos hshort]
      rfl
    · rw [if_neg hshort, if_neg hshort]
      rfl

end Loop

/-! ## Offsets -/

/-- The length word at an offset, as the `int` it is read as. -/
def bodylenAt (m : Bytes) (p : Nat) : Int := int32 (leNat (slice m p 4))

/-- The offsets at which records begin when the first `n` bytes are cut by their length words. -/
inductive Boundary (m : Bytes) (n : Nat) : Nat → Prop
  | zero : Boundary m n 0
  | next {p q : Nat} : Boundary m n p → p + 4 ≤ n → p < q → q ≤ n → (q : Int) = p + (4 + bodylenAt m p) → Boundary m n q

/-- The offsets that the loop comes to. -/
inductive Visited (m : Bytes) (n : Nat) : Int → Prop
  | zero : Visited m n 0
  | next {p q : Int} : Visited m n p → dealReadNext m n p = .ok (some q) → Visited m n q

/-- A length word that the loop can go on from. -/
def Forward (m : Bytes) (p : Nat) : Prop := -4 < bodylenAt m p ∧ 4 + bodylenAt m p < 2 ^ 31

section Offsets
variable {m : Bytes} {n p : Nat} {q : Int}

theorem dealReadNext_eq (hn : n ≤ m.length) : dealReadNext m n p =
    if n < p + 4 then .ok none
    else if 4 + bodylenAt m p ≥ 2 ^ 31 then .error .overflow
    else if n < p + (4 + bodylenAt m p) then .ok none
    else .ok (some (p + (4 + bodylenAt m p))) := by
  unfold dealReadNext
  dsimp only
  by_cases hleft : n < p + 4
  · rw [if_pos (by omega), if_pos hleft]
    rfl
  · rw [if_neg (by omega), if_neg hleft, if_neg (by omega), Int.toNat_natCast, readLE_eq (by omega), ok_bind]
    show (if 4 + bodylenAt m p ≥ 2 ^ 31 then _ else if (n - p : Int) < 4 + bodylenAt m p then _ else _) = _
    by_cases hover : 4 + bodylenAt m p ≥ 2 ^ 31
    · rw [if_pos hover, if_pos hover]
    · rw [if_neg hover, if_neg hover]
      by_cases hshort : n < p + (4 + bodylenAt m p)
      · rw [if_pos (by omega), if_pos hshort]
        rfl
      · rw [if_neg (by omega), if_neg hshort]
        rfl

theorem Boundary.le (h : Boundary m n p) : p ≤ n := by
  cases h with
  | zero => exact Nat.zero_le n
  | next _ _ _ hle _ => exact hle

/-- The loop comes to every boundary. -/
theorem Boundary.visited (hn : n ≤ m.length) (hmax : n < 2 ^ 31) (h : Boundary m n p) : Visited m n p := by
  induction h with
  | zero => exact .zero
  | @next p q _ hfour hlt hle heq ih =>
    refine ih.next ?_
    rw [dealReadNext_eq hn, if_neg (by omega), if_neg (by omega), if_neg (by omega), heq]

/-- Where all length words are ones to go on from, it comes to nothing else. -/
theorem Visited.boundary (hn : n ≤ m.length) (hforward : ∀ p, Boundary m n p → p + 4 ≤ n → Forward m p)
    (h : Visited m n q) : ∃ p : Nat, q = p ∧ Boundary m n p := by
  induction h with
  | zero => exact ⟨0, rfl, .zero⟩
  | @next p q _ hnext ih =>
    obtain ⟨p, rfl, hp⟩ := ih
    rw [dealReadNext_eq hn] at hnext
    split at hnext
    · cases hnext
    · next hfour =>
      obtain ⟨hpos, -⟩ := hforward p hp (by omega)
      split at hnext
      · cases hnext
      · split at hnext
        · cases hnext
        · next hfits =>
          have hq : (p : Int) + (4 + bodylenAt m p) = q := Option.some.inj (Except.ok.inj hnext)
          exact ⟨q.toNat, by omega, hp.next (by omega) (by omega) (by omega) (by omega)⟩

end Offsets

/-! ## Progress -/

/-- What is expected of a `dealReadBuffer`: it returns, what its loop leaves behind is within what has been received, and every
iteration goes forward within it. -/
structure Progress (decode : Decoder) (c : TcpClient) (pool : List RpcObj)
    (addr : Nat) : Prop where
  ends : ∃ out, dealReadLoop decode c.recvBuffer.bytes c.recvOffset (c.recvOffset + 1) 0 pool addr = .ok out ∧
    0 ≤ out.offset ∧ out.offset ≤ c.recvOffset
  returns : ∃ res, c.dealReadBufferWith decode pool addr = .ok res
  forward : ∀ p q, Visited c.recvBuffer.bytes c.recvOffset p →
    dealReadNext c.recvBuffer.bytes c.recvOffset p = .ok (some q) → 0 ≤ p ∧ p < q ∧ q ≤ c.recvOffset

section Progress
variable {decode : Decoder} {m : Bytes} {n p fuel : Nat}

/-- From a boundary on, with a step for every byte left. -/
theorem dealReadLoop_ends (hdecode : Returns decode) (hn : n ≤ m.length)
    (hforward : ∀ p, Boundary m n p → p + 4 ≤ n → Forward m p) (hp : Boundary m n p) (hfuel : n - p < fuel)
    (pool : List RpcObj) (addr : Nat) :
    ∃ out, dealReadLoop decode m n fuel p pool addr = .ok out ∧ 0 ≤ out.offset ∧ out.offset ≤ n := by
  induction fuel generalizing p pool addr with
  | zero => omega
  | succ fuel ih =>
    have hle := hp.le
    rw [dealReadLoop_succ, dealReadNext_eq hn]
    by_cases hfour : n < p + 4
    · rw [if_pos hfour]
      exact ⟨_, rfl, Int.natCast_nonneg p, Int.ofNat_le.mpr hle⟩
    obtain ⟨hpos, hint⟩ := hforward p hp (by omega)
    rw [if_neg hfour, if_neg (by omega)]
    by_cases hshort : n < p + (4 + bodylenAt m p)
    · rw [if_pos hshort]
      exact ⟨_, rfl, Int.natCast_nonneg p, Int.ofNat_le.mpr hle⟩
    obtain ⟨q, hq⟩ : ∃ q : Nat, (q : Int) = p + (4 + bodylenAt m p) := ⟨(p + (4 + bodylenAt m p)).toNat, by omega⟩
    obtain ⟨o, ho⟩ := hdecode (popRpcobj pool).1 m p addr
    have hnext : Boundary m n q := hp.next (by omega) (by omega) (by omega) hq
    obtain ⟨out, hout, hlow, hhigh⟩ := ih hnext (by omega) (popRpcobj pool).2 (addr + 1)
    rw [if_neg hshort, ok_bind, ← hq]
    dsimp only
    rw [Int.toNat_natCast, ho, ok_bind, hout, ok_bind]
    exact ⟨_, rfl, hlow, hhigh⟩

/-- A loop that ends does not fail where it comes to. -/
theorem Visited.next_ok {q : Int} {pool : List RpcObj} {addr : Nat} {out : DealOut}
    (hloop : dealReadLoop decode m n fuel 0 pool addr = .ok out) (h : Visited m n q) :
    ∃ r, dealReadNext m n q = .ok r := by
  -- the loop passes every offset it comes to
  have hpass : ∃ fuel' pool' addr' out', dealReadLoop decode m n fuel' q pool' addr' = .ok out' := by
    induction h with
    | zero => exact ⟨fuel, pool, addr, out, hloop⟩
    | next _ hnext ih =>
      obtain ⟨fuel', pool', addr', out', hrest⟩ := ih
      cases fuel' with
      | zero => cases hrest
      | succ fuel' =>
        rw [dealReadLoop_succ, hnext, ok_bind] at hrest
        obtain ⟨o, -, hrest⟩ := bind_eq_ok.mp hrest
        obtain ⟨out'', hrest, -⟩ := bind_eq_ok.mp hrest
        exact ⟨fuel', _, _, out'', hrest⟩
  obtain ⟨fuel', pool', addr', out', hrest⟩ := hpass
  cases fuel' with
  | zero => cases hrest
  | succ fuel' =>
    rw [dealReadLoop_succ] at hrest
    obtain ⟨r, hr, -⟩ := bind_eq_ok.mp hrest
    exact ⟨r, hr⟩

end Progress

/-- **When `dealReadBuffer` makes progress.** Whatever the receive buffer holds, and for every decoder that returns: the loop
ends, its offset increases in every iteration and stays between 0 and `m_recvOffset`, and what is moved to the front has a
length that is not negative, if and only if every length word at which a record begins is more than -4 and less than
`2 ^ 31 - 4`. -/
theorem dealReadBuffer_progress_iff {decode : Decoder} (hdecode : Returns decode) (c : TcpClient)
    (hn : c.recvOffset ≤ RPC_BUFF_SIZE) (pool : List RpcObj) (addr : Nat) : Progress decode c pool addr ↔
      ∀ p, Boundary c.recvBuffer.bytes c.recvOffset p → p + 4 ≤ c.recvOffset → Forward c.recvBuffer.bytes p := by
  have hR := RPC_BUFF_SIZE_eq
  have hsize := c.recvBuffer.size
  have hlen : c.recvOffset ≤ c.recvBuffer.bytes.length := by omega
  constructor
  · rintro ⟨⟨out, hloop, -⟩, -, hfor⟩ p hp hfour
    have hvisited := hp.visited hlen (by omega)
    obtain ⟨r, hr⟩ := hvisited.next_ok hloop
    have hnext := dealReadNext_eq (p := p) hlen
    rw [hr, if_neg (by omega)] at hnext
    split at hnext
    · cases hnext
    · next hint =>
      refine ⟨?_, by omega⟩
      by_contra hback
      rw [if_neg (by omega)] at hnext
      have hgoes := (hfor p _ hvisited (hr.trans hnext)).2.1
      omega
  · intro hforward
    obtain ⟨out, hloop, hlow, hhigh⟩ := dealReadLoop_ends hdecode hlen hforward .zero (Nat.lt_succ_self _) pool addr
    rw [Int.natCast_zero] at hloop
    refine ⟨⟨out, hloop, hlow, hhigh⟩, ?_, fun p q hp hnext => ?_⟩
    · unfold dealReadBufferWith
      split
      · exact ⟨_, rfl⟩
      · obtain ⟨b, hb, -⟩ := c.recvBuffer.memmove_eq_ok 0 out.offset.toNat (c.recvOffset - out.offset).toNat
          (by omega) (by omega)
        have hloop' : dealReadLoop decode c.recvBuffer.bytes c.recvOffset (c.recvOffset + 1) 0 pool addr = .ok out := hloop
        rw [hloop', ok_bind]
        dsimp only
        rw [hb, ok_bind]
        exact ⟨_, rfl⟩
    · obtain ⟨p, rfl, hb⟩ := hp.boundary hlen hforward
      rw [dealReadNext_eq hlen] at hnext
      split at hnext
      · cases hnext
      · next hfour =>
        obtain ⟨hpos, -⟩ := hforward p hb (by omega)
        split at hnext
        · cases hnext
        · split at hnext
          · cases hnext
          · next hfits =>
            have hq : (p : Int) + (4 + bodylenAt c.recvBuffer.bytes p) = q := Option.some.inj (Except.ok.inj hnext)
            omega

/-- Five zeros: an empty record and the head of another. -/
theorem dealReadBuffer_progress_zeros : Progress (fun o m p addr => .ok ((o.decodeBuffer m p addr).toOption.getD o))
    { gate1New with recvOffset := 5 } [] 0 := by
  refine (dealReadBuffer_progress_iff (fun o m p addr => ⟨_, rfl⟩) _ (by decide) [] 0).mpr fun p _ hp => ?_
  have hzero : slice (List.replicate RPC_BUFF_SIZE (0 : UInt8)) p 4 = [0, 0, 0, 0] := by
    have hR := RPC_BUFF_SIZE_eq
    change p + 4 ≤ 5 at hp
    rw [slice, List.drop_replicate, List.take_replicate, min_eq_left (by omega)]
    rfl
  have hword : bodylenAt (List.replicate RPC_BUFF_SIZE 0) p = 0 := by
    rw [bodylenAt, hzero]
    decide
  show Forward (List.replicate RPC_BUFF_SIZE 0) p
  rw [Forward, hword]
  decide

/-- A client that has received a length word of -4. -/
def minusFour : TcpClient :=
  { gate1New with recvBuffer := .ofBytes (show ([252, 255, 255, 255] : Bytes).length ≤ RPC_BUFF_SIZE by decide), recvOffset := 4 }

theorem dealReadNext_minusFour : dealReadNext minusFour.recvBuffer.bytes 4 0 = .ok (some 0) := by
  have hword : bodylenAt minusFour.recvBuffer.bytes 0 = -4 := by
    show bodylenAt ([252, 255, 255, 255] ++ _) 0 = -4
    rw [bodylenAt, slice_append_left _ _ (by decide)]
    decide
  have hsize : 4 ≤ minusFour.recvBuffer.bytes.length := by
    rw [minusFour.recvBuffer.size]
    decide
  rw [← Int.natCast_zero, dealReadNext_eq hsize, hword]
  rfl

/-- It does not get past this word, whatever the decoder does. -/
theorem dealReadBufferWith_minusFour {decode : Decoder} (hdecode : Returns decode) :
    minusFour.dealReadBufferWith decode [] 0 = .error .diverge := by
  have hloop : ∀ fuel pool addr, dealReadLoop decode minusFour.recvBuffer.bytes 4 fuel 0 pool addr = .error .diverge := by
    intro fuel
    induction fuel with
    | zero => intro pool addr; rfl
    | succ fuel ih =>
      intro pool addr
      obtain ⟨o, ho⟩ := hdecode (popRpcobj pool).1 minusFour.recvBuffer.bytes (0 : Int).toNat addr
      rw [dealReadLoop_succ, dealReadNext_minusFour, ok_bind]
      dsimp only
      rw [ho, ok_bind, ih]
      rfl
  have hstart : dealReadLoop decode minusFour.recvBuffer.bytes minusFour.recvOffset (minusFour.recvOffset + 1) 0 [] 0 =
      .error .diverge := hloop 5 [] 0
  rw [dealReadBufferWith, if_neg (by decide), hstart]
  rfl

/-- So does the code's own decoder, where it returns. -/
theorem not_dealReadBuffer_progress : ∃ decode c, Returns decode ∧ c.recvOffset ≤ RPC_BUFF_SIZE ∧ ¬ Progress decode c [] 0 ∧
    c.dealReadBufferWith decode [] 0 = .error .diverge := by
  refine ⟨fun o m p addr => .ok ((o.decodeBuffer m p addr).toOption.getD o), minusFour, fun o m p addr => ⟨_, rfl⟩,
    by decide, ?_, dealReadBufferWith_minusFour fun o m p addr => ⟨_, rfl⟩⟩
  rintro ⟨-, ⟨res, hres⟩, -⟩
  rw [dealReadBufferWith_minusFour fun o m p addr => ⟨_, rfl⟩] at hres
  cases hres

end TcpClient

end KcpServer
