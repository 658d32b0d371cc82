import KcpServer.Kcp.Conn

/-!
# One payload handed to `OnDealMsg`

A payload should be one message: a header of 16 bytes, whose first four are the length of the body, and the body.
`OnDealMsg` compares that length with the size of the payload, but then consumes the length and the header. So it refuses
a length above the payload's size, handles a payload that is exactly one message, and fails on everything in between
(`onDealMsg_iff`). In a payload of less than four bytes, the length is made of bytes left in the cache.
-/

namespace KcpServer
open Lib

namespace UDPConn

/-- The message at the head of a payload, if the payload holds all of it. -/
def wholeMsg (id : Int) (payload : Bytes) : Option KcpCall :=
  let bodylen := leNat (payload.take 4)
  let ppid := leNat (slice payload 8 8)
  if 16 + bodylen ≤ payload.length then
    some ⟨leNat (slice payload 4 4), slice payload 16 bodylen, int32 (ppid % 2 ^ 32 : Nat), id,
      int32 (ppid / 2 ^ 32 : Nat)⟩
  else none

/-- `OnDealMsg` returns with `m_offset` 0, and `processKcp` is not called, or called with the message that the payload
holds, as the payload alone determines it. -/
def DealsSafely (c : UDPConn) (payload : Bytes) : Prop :=
  ∃ c' ret call, c.onDealMsg = .ok (c', ret, call) ∧ c'.offset = 0 ∧
    (call = none ∨ ∃ k, wholeMsg c.id payload = some k ∧ call = some k)

/-- The body length that `OnDealMsg` reads: the first four bytes of the cache behind copying the payload into it. -/
def cachedLen (c : UDPConn) (payload : Bytes) : Nat :=
  leNat ((payload ++ c.cacheBuf.bytes.drop payload.length).take 4)

theorem sizeT_of_le {a b : Nat} (h : b ≤ a) (ha : a < 2 ^ 64) : sizeT (a - b : Int) = a - b := by
  unfold sizeT
  omega

/-! ## What is left of the session -/

/-- What one `OnDealMsg` leaves of a queue: it takes a message, if there is one of a size that it accepts. -/
def leftOver : List Bytes → List Bytes
  | [] => []
  | m :: ms => if m.length = 0 ∨ m.length > BUFF_CACHE_SIZE then m :: ms else ms

theorem leftOver_eq_nil {ms : List Bytes} :
    leftOver ms = [] ↔ ms = [] ∨ ∃ m, ms = [m] ∧ 0 < m.length ∧ m.length ≤ BUFF_CACHE_SIZE := by
  cases ms with
  | nil => simp [leftOver]
  | cons m ms =>
    by_cases hrefused : m.length = 0 ∨ m.length > BUFF_CACHE_SIZE
    · rw [leftOver, if_pos hrefused]
      simp only [reduceCtorEq, List.cons.injEq, false_or, false_iff]
      rintro ⟨_, ⟨rfl, -⟩, hsize⟩
      omega
    · rw [leftOver, if_neg hrefused]
      simp only [reduceCtorEq, List.cons.injEq, false_or]
      constructor
      · rintro rfl
        exact ⟨m, ⟨rfl, rfl⟩, by omega⟩
      · rintro ⟨_, ⟨-, rfl⟩, -⟩
        rfl

section Left
variable {c c' : UDPConn} {ret : Int}

theorem recv_cases {m : Bytes} {ms : List Bytes} (hkcp : c.kcp = some (m :: ms)) (hpos : 0 < m.length)
    (h : c.recv = .ok (c', ret)) : ∃ ms' cacheBuf, c' = { c with kcp := some ms', cacheBuf } ∧
      (c.offset = 0 → ms' = leftOver (m :: ms)) := by
  unfold recv at h
  rw [hkcp] at h
  dsimp only at h
  split at h
  · next hlarge =>
    cases h
    refine ⟨m :: ms, c.cacheBuf, by rw [← hkcp], fun hoff => ?_⟩
    rw [leftOver, if_pos (by omega)]
  · next hfits =>
    obtain ⟨cacheBuf, -, h⟩ := bind_eq_ok.mp h
    cases h
    refine ⟨ms, cacheBuf, rfl, fun hoff => ?_⟩
    rw [leftOver, if_neg (by omega)]

theorem finishMsg_cases {nread bodylen : Nat} (h : c.finishMsg nread bodylen = .ok c') :
    ∃ cacheBuf, c' = { c with cacheBuf, offset := 0 } := by
  obtain ⟨cacheBuf, -, h⟩ := bind_eq_ok.mp h
  obtain ⟨_, hassert, h⟩ := bind_eq_ok.mp h
  cases h
  have hoff := of_decide_eq_true (assert_eq_ok.mp hassert)
  dsimp only at hoff
  exact ⟨cacheBuf, by rw [hoff]⟩

/-- An `OnDealMsg` that returns has nothing to read, or it clears the flag and takes at most one message. -/
theorem onDealMsg_cases {call : Option KcpCall} (h : c.onDealMsg = .ok (c', ret, call)) :
    c.bread = false ∧ c' = c ∨ c.bread = true ∧ ∃ ms ms' cacheBuf offset, c.kcp = some ms ∧
      c' = { c with bread := false, kcp := some ms', cacheBuf, offset } ∧
      (c.offset = 0 → ms' = leftOver ms ∧ offset = 0) := by
  unfold onDealMsg at h
  split at h
  · next hread =>
    cases h
    exact .inl ⟨hread, rfl⟩
  next hread =>
  refine .inr ⟨Bool.not_eq_false _ ▸ hread, ?_⟩
  obtain ⟨psz, hpsz, h⟩ := bind_eq_ok.mp h
  dsimp only at h
  unfold peeksize at hpsz
  dsimp only at hpsz
  split at hpsz
  · cases hpsz
  · next hkcp =>
    cases hpsz
    rw [if_pos (by decide)] at h
    cases h
    exact ⟨[], [], c.cacheBuf, c.offset, hkcp, by rw [← hkcp], fun hoff => ⟨rfl, hoff⟩⟩
  next m ms hkcp =>
  cases hpsz
  refine ⟨m :: ms, ?_⟩
  split at h
  · next hempty =>
    cases h
    refine ⟨m :: ms, c.cacheBuf, c.offset, hkcp, by rw [← hkcp], fun hoff => ⟨?_, hoff⟩⟩
    rw [leftOver, if_pos (by omega)]
  next hpos =>
  split at h
  · next hlarge =>
    cases h
    refine ⟨m :: ms, c.cacheBuf, c.offset, hkcp, by rw [← hkcp], fun hoff => ⟨?_, hoff⟩⟩
    rw [leftOver, if_pos (by omega)]
  obtain ⟨⟨c₁, ret₁⟩, hrecv, h⟩ := bind_eq_ok.mp h
  obtain ⟨ms', cacheBuf, rfl, hleft⟩ := recv_cases (c := { c with bread := false }) hkcp (by omega) hrecv
  obtain ⟨bodylen, -, h⟩ := bind_eq_ok.mp h
  dsimp only at h
  split at h
  · cases h
    exact ⟨ms', cacheBuf, c.offset, hkcp, rfl, fun hoff => ⟨hleft hoff, hoff⟩⟩
  · obtain ⟨msgid, -, h⟩ := bind_eq_ok.mp h
    obtain ⟨ppid, -, h⟩ := bind_eq_ok.mp h
    obtain ⟨c₂, hfinish, h⟩ := bind_eq_ok.mp h
    cases h
    obtain ⟨cacheBuf', rfl⟩ := finishMsg_cases hfinish
    exact ⟨ms', cacheBuf', 0, hkcp, rfl, fun hoff => ⟨hleft hoff, rfl⟩⟩

end Left

/-! ## The part behind `processKcp` -/

/-- The consumed length does not wrap around where the body is no longer than the cache. -/
theorem consumed_eq {bodylen : Nat} (h : bodylen ≤ BUFF_CACHE_SIZE) : uint32 (16 + bodylen) = 16 + bodylen := by
  have hsize : BUFF_CACHE_SIZE = 16384 := rfl
  unfold uint32
  omega

theorem finishMsg_ok {c : UDPConn} (hoff : c.offset = 0) {n bodylen : Nat} (hn : n ≤ BUFF_CACHE_SIZE)
    (h : n = 16 + bodylen) : ∃ c', c.finishMsg n bodylen = .ok c' ∧ c'.offset = 0 := by
  have hleft : sizeT ((n : Int) - (16 + bodylen : Nat)) = 0 := by
    rw [← h, Int.sub_self]
    rfl
  obtain ⟨m, hm, -⟩ := c.cacheBuf.memmove_eq_ok 0 (16 + bodylen) 0 (by omega) (by omega)
  refine ⟨{ c with cacheBuf := m, offset := uint32 (c.offset + (0 : Nat)) }, ?_, ?_⟩
  · rw [finishMsg]
    dsimp only
    rw [consumed_eq (by omega), hleft, hm, ok_bind, hoff]
    rfl
  · dsimp only
    rw [hoff]
    rfl

/-- Where the consumed length is not the payload's, `memmove` leaves the cache or the assertion fails. -/
theorem finishMsg_error {c : UDPConn} (hoff : c.offset = 0) {n bodylen : Nat} (hn : n ≤ BUFF_CACHE_SIZE)
    (hle : bodylen ≤ n) (h : n ≠ 16 + bodylen) : ∃ e, c.finishMsg n bodylen = .error e := by
  have hsize : BUFF_CACHE_SIZE = 16384 := rfl
  have hbytes := c.cacheBuf.size
  rw [finishMsg]
  dsimp only
  rw [consumed_eq (by omega)]
  by_cases hlt : n < 16 + bodylen
  · -- the difference wraps around
    have hbig : BUFF_CACHE_SIZE < sizeT ((n : Int) - (16 + bodylen : Nat)) := by
      unfold sizeT
      omega
    refine ⟨.bounds, ?_⟩
    rw [Block.memmove, readAt, if_neg (by omega)]
    rfl
  · have hleft := sizeT_of_le (a := n) (b := 16 + bodylen) (by omega) (by omega)
    obtain ⟨m, hm, -⟩ := c.cacheBuf.memmove_eq_ok 0 (16 + bodylen) (n - (16 + bodylen)) (by omega) (by omega)
    have hne : uint32 ((c.offset : Int) + (n - (16 + bodylen) : Nat)) ≠ 0 := by
      rw [hoff]
      unfold uint32
      omega
    refine ⟨.assertion, ?_⟩
    rw [hleft, hm, ok_bind, decide_eq_false hne]
    rfl

/-! ## The whole function -/

/-- What `OnDealMsg` does on a payload, up to what its last part makes of it. -/
theorem onDealMsg_eq {c : UDPConn} {payload : Bytes} {rest : List Bytes} (hkcp : c.kcp = some (payload :: rest))
    (hread : c.bread = true) (hoff : c.offset = 0) (hpos : 1 ≤ payload.length) (hn : payload.length ≤ BUFF_CACHE_SIZE) :
    ∃ c₁ : UDPConn, c₁.offset = 0 ∧ c₁.id = c.id ∧
      c₁.cacheBuf.bytes = payload ++ c.cacheBuf.bytes.drop payload.length ∧
      c.onDealMsg = if payload.length < c.cachedLen payload then .ok (c₁, -3, none)
        else do
          let c₂ ← c₁.finishMsg payload.length (c.cachedLen payload)
          return (c₂, 0, some ⟨leNat (slice c₁.cacheBuf.bytes 4 4),
            slice c₁.cacheBuf.bytes 16 (c.cachedLen payload),
            int32 (leNat (slice c₁.cacheBuf.bytes 8 8) % 2 ^ 32 : Nat), c.id,
            int32 (leNat (slice c₁.cacheBuf.bytes 8 8) / 2 ^ 32 : Nat)⟩) := by
  have hsize : BUFF_CACHE_SIZE = 16384 := rfl
  obtain ⟨m, hm, hbytes⟩ := c.cacheBuf.memcpy_eq_ok 0 payload (by omega)
  rw [Lib.memcpy, List.take_zero, List.nil_append, Nat.zero_add] at hbytes
  refine ⟨{ c with bread := false, kcp := some rest, cacheBuf := m }, hoff, rfl, hbytes, ?_⟩
  have hmsize := m.size
  have hlen : leNat (slice m.bytes 0 4) = c.cachedLen payload := by rw [hbytes]; rfl
  have hnread : sizeT (payload.length : Int) = payload.length := by
    unfold sizeT
    omega
  rw [onDealMsg, if_neg (by rw [hread]; decide)]
  dsimp only
  simp only [peeksize, hkcp]
  rw [show (pure (payload.length : Int) : Except Fault Int) = .ok payload.length from rfl, ok_bind,
    if_neg (by omega), if_neg (by omega)]
  simp only [recv]
  rw [if_neg (by omega), hoff, hm]
  simp only [ok_bind, pure_bind, hnread, Nat.zero_add]
  rw [readLE_eq (by omega), ok_bind, hlen]
  by_cases hlt : payload.length < c.cachedLen payload
  · rw [if_pos hlt, if_pos hlt]
    rfl
  · rw [if_neg hlt, if_neg hlt, readLE_eq (by omega), ok_bind, readLE_eq (by omega), ok_bind]

theorem dealsSafely {c : UDPConn} {payload : Bytes} {rest : List Bytes} (hkcp : c.kcp = some (payload :: rest))
    (hread : c.bread = true) (hoff : c.offset = 0) (hpos : 1 ≤ payload.length) (hn : payload.length ≤ BUFF_CACHE_SIZE)
    (h : payload.length < c.cachedLen payload ∨ payload.length = 16 + c.cachedLen payload) :
    c.DealsSafely payload := by
  obtain ⟨c₁, hoff₁, -, hbytes, heq⟩ := onDealMsg_eq hkcp hread hoff hpos hn
  by_cases hlt : payload.length < c.cachedLen payload
  · exact ⟨c₁, -3, none, by rw [heq, if_pos hlt], hoff₁, Or.inl rfl⟩
  · have hwhole := h.resolve_left hlt
    obtain ⟨c₂, hc₂, hoff₂⟩ := finishMsg_ok hoff₁ hn hwhole
    have hbodylen : c.cachedLen payload = leNat (payload.take 4) := by
      rw [cachedLen, List.take_append_of_le_length (by omega)]
    refine ⟨c₂, 0, _, by rw [heq, if_neg hlt, hc₂]; rfl, hoff₂, Or.inr ⟨_, ?_, rfl⟩⟩
    rw [wholeMsg, if_pos (by omega), hbytes, slice_append_left _ _ (by omega), slice_append_left _ _ (by omega),
      slice_append_left _ _ (by omega), hbodylen]

theorem not_dealsSafely {c : UDPConn} {payload : Bytes} {rest : List Bytes} (hkcp : c.kcp = some (payload :: rest))
    (hread : c.bread = true) (hoff : c.offset = 0) (hpos : 1 ≤ payload.length) (hn : payload.length ≤ BUFF_CACHE_SIZE)
    (hle : c.cachedLen payload ≤ payload.length) (hne : payload.length ≠ 16 + c.cachedLen payload) :
    ¬ c.DealsSafely payload := by
  obtain ⟨c₁, hoff₁, -, -, heq⟩ := onDealMsg_eq hkcp hread hoff hpos hn
  obtain ⟨e, he⟩ := finishMsg_error hoff₁ hn hle hne
  rintro ⟨c', ret, call, hok, -⟩
  rw [heq, if_neg (by omega), he] at hok
  cases hok

/-- **One payload, with its exact condition.** For every payload of 1 to 16384 bytes and every content of the cache,
`OnDealMsg` deals safely with the payload if and only if the body length it reads is larger than the payload, or the
payload is exactly the header and a body of that length. -/
theorem onDealMsg_iff (c : UDPConn) (payload : Bytes) (rest : List Bytes) (hkcp : c.kcp = some (payload :: rest))
    (hread : c.bread = true) (hoff : c.offset = 0) (hpos : 1 ≤ payload.length) (hn : payload.length ≤ 16384) :
    (∃ c' ret call, c.onDealMsg = .ok (c', ret, call) ∧ c'.offset = 0 ∧
      (call = none ∨ ∃ k, wholeMsg c.id payload = some k ∧ call = some k)) ↔
    payload.length < leNat ((payload ++ c.cacheBuf.bytes.drop payload.length).take 4) ∨
      payload.length = 16 + leNat ((payload ++ c.cacheBuf.bytes.drop payload.length).take 4) := by
  refine ⟨fun h => ?_, dealsSafely hkcp hread hoff hpos hn⟩
  by_contra hne
  rw [not_or, not_lt] at hne
  exact not_dealsSafely hkcp hread hoff hpos hn hne.1 hne.2 h

def ready (payload : Bytes) : UDPConn := { new with kcp := some [payload], bread := true }

/-- A payload of one zero byte: the three bytes behind it are taken from the cache, the length is 0, and the difference
`nread - len` wraps around. -/
theorem not_dealsSafely_short : ∃ payload : Bytes, 1 ≤ payload.length ∧ payload.length ≤ BUFF_CACHE_SIZE ∧
    ¬ (ready payload).DealsSafely payload := by
  have hlen : (ready [0]).cachedLen [0] = 0 := rfl
  refine ⟨[0], by decide, by decide, ?_⟩
  have hkcp : (ready [0]).kcp = some [[0]] := rfl
  exact not_dealsSafely hkcp rfl rfl (by decide) (by decide) (by rw [hlen]; decide) (by rw [hlen]; decide)

/-- Command 2000 with an empty body. -/
theorem onDealMsg_command : ∃ c' ret call,
    (ready [0, 0, 0, 0, 208, 7, 0, 0, 5, 0, 0, 0, 1, 0, 0, 0]).onDealMsg = .ok (c', ret, call) ∧ c'.offset = 0 ∧
      (call = none ∨
        ∃ k, wholeMsg 0 [0, 0, 0, 0, 208, 7, 0, 0, 5, 0, 0, 0, 1, 0, 0, 0] = some k ∧ call = some k) :=
  (onDealMsg_iff (ready [0, 0, 0, 0, 208, 7, 0, 0, 5, 0, 0, 0, 1, 0, 0, 0]) _ [] rfl rfl rfl (by decide)
    (by decide)).mpr (Or.inr rfl)

end UDPConn
end KcpServer
