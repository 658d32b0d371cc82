import KcpServer.Conn
import KcpServer.Lib.Transition

/-!
# The send buffer

`connObj::send` keeps what a socket does not take in a buffer with a read offset. It is reallocated when what is behind the
waiting bytes does not suffice, which moves these to the front and may make it smaller, and it is written out in pieces.

* `unsent` : the bytes that wait;
* `SendBuf` : the offsets are in order and inside of the buffer;
* `send_spec` : one `send` appends its buffer to the waiting bytes and takes what it writes from their front;
* `send_lossless` : so it is over every sequence of `send`s.
-/

namespace KcpServer
open Lib

namespace ConnObj
variable {c c' : ConnObj} {buf : Bytes} {ws : List WriteRes}

def unsent (c : ConnObj) : Bytes := slice c.psendBuf c.sendBufOffset (c.sendBufLen - c.sendBufOffset)

structure SendBuf (c : ConnObj) : Prop where
  size : c.psendBuf.length = c.sendBufCap
  cap_lt : c.sendBufCap < 2 ^ 31
  offset_le : c.sendBufOffset ≤ c.sendBufLen
  len_le : c.sendBufLen ≤ c.sendBufCap
  waits : c.sendBufOffset < c.sendBufLen ∨ c.sendBufOffset = 0 ∧ c.sendBufLen = 0

theorem SendBuf.length_unsent (h : c.SendBuf) : c.unsent.length = c.sendBufLen - c.sendBufOffset := by
  have hsize := h.size
  have hoff := h.offset_le
  have hlen := h.len_le
  exact length_slice _ (by omega)

theorem sendBuf_new (kind : ConnKind) (fd : Int) : (ConnObj.new kind fd).SendBuf where
  size := List.length_replicate
  cap_lt := show BUFFER_SIZE < 2 ^ 31 by decide
  offset_le := Nat.le_refl 0
  len_le := Nat.zero_le _
  waits := Or.inr ⟨rfl, rfl⟩

/-! ## Storing -/

/-- Both branches of `store` append the buffer to what waits. -/
theorem SendBuf.store (h : c.SendBuf) (hsize : c.unsent.length + buf.length < 2 ^ 31) :
    ∃ c', c.store buf = .ok c' ∧ c'.SendBuf ∧ c'.bclose = c.bclose ∧ c'.unsent = c.unsent ++ buf := by
  have hlen := h.length_unsent
  have hoff := h.offset_le
  have hle := h.len_le
  have hcap := h.size
  unfold ConnObj.store
  split
  · next hmore =>
    have hread : readAt c.psendBuf c.sendBufOffset (c.sendBufLen - c.sendBufOffset) = .ok c.unsent :=
      readAt_eq (by omega)
    dsimp only
    rw [if_neg (by omega), hread, ok_bind]
    refine ⟨_, rfl, ⟨?_, ?_, ?_, ?_, Or.inl ?_⟩, rfl, ?_⟩
    · show (c.unsent ++ buf).length = buf.length + (c.sendBufLen - c.sendBufOffset)
      rw [List.length_append]
      omega
    · show buf.length + (c.sendBufLen - c.sendBufOffset) < 2 ^ 31
      omega
    · exact Nat.zero_le _
    · exact Nat.le_refl _
    · show 0 < buf.length + (c.sendBufLen - c.sendBufOffset)
      omega
    · show slice (c.unsent ++ buf) 0 (buf.length + (c.sendBufLen - c.sendBufOffset) - 0) = _
      rw [slice_zero, List.take_of_length_le (by rw [List.length_append]; omega)]
  · next hfits =>
    have hwrite : writeAt c.psendBuf c.sendBufLen buf = .ok (memcpy c.psendBuf c.sendBufLen buf) := if_pos (by omega)
    rw [hwrite, ok_bind]
    refine ⟨_, rfl, ⟨?_, h.cap_lt, ?_, ?_, ?_⟩, rfl, ?_⟩
    · exact (length_memcpy (by omega)).trans hcap
    · show c.sendBufOffset ≤ c.sendBufLen + buf.length
      omega
    · show c.sendBufLen + buf.length ≤ c.sendBufCap
      omega
    · show c.sendBufOffset < c.sendBufLen + buf.length ∨ c.sendBufOffset = 0 ∧ c.sendBufLen + buf.length = 0
      have := h.waits
      omega
    · show slice (memcpy c.psendBuf c.sendBufLen buf) c.sendBufOffset (c.sendBufLen + buf.length - c.sendBufOffset) = _
      have hsum : c.sendBufLen + buf.length - c.sendBufOffset = c.sendBufLen - c.sendBufOffset + buf.length := by omega
      rw [hsum, slice_add, Nat.add_sub_cancel' hoff, slice_memcpy_self (by omega), ← slice_take _ _ _ c.sendBufLen (by omega),
        take_memcpy_of_le le_rfl (by omega), slice_take _ _ _ _ (by omega)]
      rfl

/-! ## Writing -/

/-- The loop writes waiting bytes from the front, at most all of them, and returns at the latest when the socket has taken
them one by one. -/
theorem SendBuf.writeLoop (h : c.SendBuf) (ws : List WriteRes) (hwaits : c.sendBufOffset < c.sendBufLen) :
    (∀ e, c.writeLoop ws = .error e → e = .diverge ∧ ws.length < c.unsent.length) ∧
    ∀ out, c.writeLoop ws = .ok out →
      out.conn.SendBuf ∧ out.conn.bclose = c.bclose ∧ c.unsent = out.bytes ++ out.conn.unsent := by
  induction ws generalizing c with
  | nil =>
    refine ⟨fun e he => ?_, fun out hout => ?_⟩
    · cases he
      refine ⟨rfl, ?_⟩
      rw [h.length_unsent]
      exact Nat.sub_pos_of_lt hwaits
    · cases hout
  | cons w ws ih =>
    cases w with
    | again =>
      refine ⟨fun e he => ?_, fun out hout => ?_⟩
      · cases he
      · cases hout
        exact ⟨h, rfl, rfl⟩
    | error =>
      refine ⟨fun e he => ?_, fun out hout => ?_⟩
      · cases he
      · cases hout
        exact ⟨h, rfl, rfl⟩
    | wrote k =>
      have hlen := h.length_unsent
      have hsize := h.size
      have hle := h.len_le
      obtain ⟨n, hn⟩ : ∃ n, wroteCount k (min (c.sendBufLen - c.sendBufOffset) SEND_SIZE) = n := ⟨_, rfl⟩
      have hpos : 0 < n := hn ▸ wroteCount_pos k _
      have hmin : n ≤ min (c.sendBufLen - c.sendBufOffset) SEND_SIZE := by
        have hone : 1 ≤ min (c.sendBufLen - c.sendBufOffset) SEND_SIZE := by
          rw [SEND_SIZE]
          omega
        rw [← hn, wroteCount]
        omega
      have hnle : n ≤ c.sendBufLen - c.sendBufOffset := hmin.trans (min_le_left _ _)
      have hassert : decide (n > 0 ∧ n ≤ min (c.sendBufLen - c.sendBufOffset) SEND_SIZE) = true :=
        decide_eq_true ⟨hpos, hmin⟩
      have hread : readAt c.psendBuf c.sendBufOffset n = .ok (slice c.psendBuf c.sendBufOffset n) := readAt_eq (by omega)
      have hsplit : c.unsent = slice c.psendBuf c.sendBufOffset n ++
          slice c.psendBuf (c.sendBufOffset + n) (c.sendBufLen - (c.sendBufOffset + n)) := by
        rw [← slice_add]
        show slice _ _ _ = _
        congr 1
        omega
      rw [ConnObj.writeLoop, hn, hassert, assert_true, ok_bind, hread, ok_bind]
      split
      · next hall =>
        refine ⟨fun e he => ?_, fun out hout => ?_⟩
        · cases he
        · cases hout
          refine ⟨⟨hsize, h.cap_lt, Nat.le_refl 0, Nat.zero_le _, Or.inr ⟨rfl, rfl⟩⟩, rfl, ?_⟩
          have hn' : n = c.sendBufLen - c.sendBufOffset := by omega
          rw [hn']
          exact (List.append_nil _).symm
      · next hrest =>
        have h' : ({ c with sendBufOffset := c.sendBufOffset + n } : ConnObj).SendBuf :=
          ⟨hsize, h.cap_lt, show c.sendBufOffset + n ≤ c.sendBufLen by omega, hle, Or.inl (by
            show c.sendBufOffset + n < c.sendBufLen
            omega)⟩
        have hlen' := h'.length_unsent
        obtain ⟨herr, hok⟩ := ih h' (show c.sendBufOffset + n < c.sendBufLen by omega)
        refine ⟨fun e he => ?_, fun out hout => ?_⟩
        · rcases bind_eq_error he with he | ⟨_, -, he⟩
          · obtain ⟨rfl, hlt⟩ := herr e he
            refine ⟨rfl, ?_⟩
            rw [hlen'] at hlt
            rw [hlen, List.length_cons]
            change ws.length < c.sendBufLen - (c.sendBufOffset + n) at hlt
            omega
          · cases he
        · obtain ⟨out', hout', hout⟩ := bind_eq_ok.mp hout
          cases hout
          obtain ⟨hbuf, hclose, hunsent⟩ := hok out' hout'
          refine ⟨hbuf, hclose, ?_⟩
          rw [hsplit, List.append_assoc, ← hunsent]
          rfl

/-! ## `send` -/

/-- One `send` on an open connection appends its buffer to the waiting bytes and takes what it writes from their front. It
does not fail, and returns at the latest when the socket has taken all of them one by one. -/
theorem SendBuf.send (h : c.SendBuf) (ws : List WriteRes) (hopen : c.bclose = false) {buf : Option Bytes}
    (hsize : c.unsent.length + (buf.getD []).length < 2 ^ 31) :
    (∀ e, c.send buf ws = .error e → e = .diverge ∧ ws.length < c.unsent.length + (buf.getD []).length) ∧
    ∀ out, c.send buf ws = .ok out → out.conn.SendBuf ∧ out.conn.bclose = false ∧
      c.unsent ++ buf.getD [] = out.bytes ++ out.conn.unsent := by
  unfold ConnObj.send
  rw [if_neg (by simp [hopen])]
  split
  · next hempty =>
    refine ⟨fun e he => ?_, fun out hout => ?_⟩
    · cases he
    · cases hout
      have hbuf : buf.getD [] = [] := List.length_eq_zero_iff.mp hempty.1
      exact ⟨h, hopen, by rw [hbuf, List.append_nil]; rfl⟩
  · next hsome =>
    obtain ⟨c₁, hstore, hbuf₁, hopen₁, hunsent₁⟩ : ∃ c₁, buf.elim (pure c) c.store = .ok c₁ ∧ c₁.SendBuf ∧
        c₁.bclose = c.bclose ∧ c₁.unsent = c.unsent ++ buf.getD [] := by
      cases buf with
      | none => exact ⟨c, rfl, h, rfl, (List.append_nil _).symm⟩
      | some b => exact h.store hsize
    have hlen : c₁.unsent.length = c.unsent.length + (buf.getD []).length := by rw [hunsent₁, List.length_append]
    have hwaits : c₁.sendBufOffset < c₁.sendBufLen := by
      have hlen₁ := hbuf₁.length_unsent
      have hlen₀ := h.length_unsent
      have hwaits₀ := h.waits
      by_contra hnot
      exact hsome ⟨by omega, by omega⟩
    obtain ⟨herr, hok⟩ := hbuf₁.writeLoop ws hwaits
    rw [hstore, ok_bind, ← hunsent₁, ← hlen, ← hopen, ← hopen₁]
    exact ⟨herr, hok⟩

end ConnObj

/-! ## Sequences of `send`s -/

/-- A connection, the bytes that have been passed to `send` and those that have been written. -/
structure SendState where
  conn : ConnObj
  accepted : Bytes
  written : Bytes

namespace SendState

def new (kind : ConnKind) (fd : Int) : SendState := ⟨.new kind fd, [], []⟩

def step (s : SendState) (o : Option Bytes × List WriteRes) : Except Fault SendState := do
  let out ← s.conn.send o.1 o.2
  return ⟨out.conn, s.accepted ++ o.1.getD [], s.written ++ out.bytes⟩

/-- What waits and the buffer are less than `2 ^ 31` bytes. -/
def Fits (s : SendState) (o : Option Bytes × List WriteRes) : Prop :=
  s.conn.sendBufLen - s.conn.sendBufOffset + (o.1.getD []).length < 2 ^ 31

/-- The law of a connection. -/
structure Lossless (s : SendState) : Prop where
  buf : s.conn.SendBuf
  opened : s.conn.bclose = false
  bytes : s.written ++ s.conn.unsent = s.accepted

theorem Lossless.fits {s : SendState} (h : s.Lossless) {o : Option Bytes × List WriteRes} (hfits : s.Fits o) :
    s.conn.unsent.length + (o.1.getD []).length < 2 ^ 31 := by
  rw [h.buf.length_unsent]
  exact hfits

theorem Lossless.step {s s' : SendState} (h : s.Lossless) {o : Option Bytes × List WriteRes} (hfits : s.Fits o)
    (heq : s.step o = .ok s') : s'.Lossless := by
  obtain ⟨out, hout, heq⟩ := bind_eq_ok.mp heq
  cases heq
  obtain ⟨hbuf, hopen, hbytes⟩ := (h.buf.send o.2 h.opened (h.fits hfits)).2 out hout
  refine ⟨hbuf, hopen, ?_⟩
  show s.written ++ out.bytes ++ out.conn.unsent = s.accepted ++ o.1.getD []
  rw [List.append_assoc, ← hbytes, ← List.append_assoc, h.bytes]

/-- **`send` is a lossless queue.** Over every sequence of `send`s on a connection, whatever `write` answers, the offsets of
the send buffer are in order, and the bytes written followed by the waiting ones are those that have been passed to `send`.
The next `send` stays inside of its blocks and fails no assertion, and it returns when `write` has answered often enough. -/
theorem send_lossless {kind : ConnKind} {fd : Int} {s : SendState} (h : Reach step Fits (new kind fd) s) :
    s.conn.sendBufOffset ≤ s.conn.sendBufLen ∧ s.conn.sendBufLen ≤ s.conn.sendBufCap ∧
      s.conn.psendBuf.length = s.conn.sendBufCap ∧
      (s.conn.sendBufOffset < s.conn.sendBufLen ∨ s.conn.sendBufOffset = 0 ∧ s.conn.sendBufLen = 0) ∧
      s.written ++ slice s.conn.psendBuf s.conn.sendBufOffset (s.conn.sendBufLen - s.conn.sendBufOffset) = s.accepted ∧
      ∀ o, s.Fits o → (∀ e, s.step o = .error e → e = .diverge) ∧
        (s.conn.sendBufLen - s.conn.sendBufOffset + (o.1.getD []).length ≤ o.2.length → ∃ s', s.step o = .ok s') := by
  have hs : s.Lossless := by
    refine h.invariant (I := Lossless) ⟨ConnObj.sendBuf_new kind fd, rfl, rfl⟩ ?_
    intro s o s' hs hfits heq
    exact hs.step hfits heq
  have hbuf := hs.buf
  refine ⟨hbuf.offset_le, hbuf.len_le, hbuf.size, hbuf.waits, hs.bytes, fun o hfits => ?_⟩
  obtain ⟨herr, -⟩ := hbuf.send o.2 hs.opened (hs.fits hfits)
  have hfail : ∀ e, s.step o = .error e → e = .diverge ∧ o.2.length < s.conn.unsent.length + (o.1.getD []).length := by
    intro e he
    rcases bind_eq_error he with he | ⟨_, -, he⟩
    · exact herr e he
    · cases he
  refine ⟨fun e he => (hfail e he).1, fun hmany => ?_⟩
  cases hstep : s.step o with
  | ok s' => exact ⟨s', rfl⟩
  | error e =>
    have hfew := (hfail e hstep).2
    rw [hbuf.length_unsent] at hfew
    omega

/-- Three bytes are passed to `send`, and the socket takes two of them. -/
theorem send_lossless_again : ∃ s s' : SendState,
    (new .net 5).step (some [1, 2, 3], [.wrote 2, .again, .again]) = .ok s ∧ s.step (none, [.wrote 1, .again, .again]) = .ok s' ∧
      s'.written ++ slice s'.conn.psendBuf s'.conn.sendBufOffset (s'.conn.sendBufLen - s'.conn.sendBufOffset) = [1, 2, 3] := by
  have haccepted : ∀ {s s' : SendState} {o}, s.step o = .ok s' → s'.accepted = s.accepted ++ o.1.getD [] := by
    intro s s' o heq
    obtain ⟨out, -, heq⟩ := bind_eq_ok.mp heq
    cases heq
    rfl
  have hfits : (new .net 5).Fits (some [1, 2, 3], [.wrote 2, .again, .again]) := show 0 - 0 + 3 < 2 ^ 31 by decide
  obtain ⟨-, -, -, -, -, hnext⟩ := send_lossless (.refl : Reach step Fits (new .net 5) (new .net 5))
  obtain ⟨s, hs⟩ := (hnext _ hfits).2 (show 0 - 0 + 3 ≤ 3 by decide)
  have hreach := Reach.refl.step hfits hs
  obtain ⟨-, -, -, -, hbytes, hnext'⟩ := send_lossless hreach
  have hwait : s.conn.sendBufLen - s.conn.sendBufOffset ≤ 3 := by
    have hlen := congrArg List.length hbytes
    rw [haccepted hs, List.length_append, length_slice] at hlen
    · exact (Nat.le_add_left _ _).trans hlen.le
    · obtain ⟨hoff, hle, hsize, -⟩ := send_lossless hreach
      omega
  have hfits' : s.Fits (none, [.wrote 1, .again, .again]) := by
    show s.conn.sendBufLen - s.conn.sendBufOffset + 0 < 2 ^ 31
    omega
  obtain ⟨s', hs'⟩ := (hnext' _ hfits').2 hwait
  obtain ⟨-, -, -, -, hbytes', -⟩ := send_lossless (hreach.step hfits' hs')
  refine ⟨s, s', hs, hs', hbytes'.trans ?_⟩
  rw [haccepted hs', haccepted hs]
  rfl

end SendState

end KcpServer
