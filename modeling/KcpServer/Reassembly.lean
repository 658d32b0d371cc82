import KcpServer.Conn
import KcpServer.Codec
import KcpServer.Lib.Framing

/-!
# Reassembling the stream of an accepted connection

Both subclasses read frames with a length word: `ConnKind.framing`. One `OnRead` cuts what it has into its complete
frames and a rest, as the framing says (`onRead_spec`), but when it completes a frame and is left with less than a
header, the rest is dropped: the parser has moved it to the front already, and `resetBuffer`, which looks at the stale
read offset, takes it for consumed. `reassembled_iff` says that this is the only way to lose bytes.
-/

namespace KcpServer
open Lib

/-- How the frames of a connection follow one another. -/
def ConnKind.framing (k : ConnKind) : Framing UInt8 := lenPrefixed k.extra

/-- The number of bytes of a header. -/
def ConnKind.header (k : ConnKind) : Nat := k.extra + 4

/-- A complete frame that fits in the receive buffer. -/
structure Frame (k : ConnKind) where
  bytes : Bytes
  isFrame : k.framing.IsFrame bytes
  fits : bytes.length ≤ RECV_BUFFER_SIZE

/-- What the parser makes of a frame that nothing follows. -/
def Frame.deal {k : ConnKind} (addr : Nat) (f : Frame k) : Except Fault Msg := k.deal addr f.bytes 0

/-- The frame can be read at all, without a look behind its end. -/
def Frame.Decodable {k : ConnKind} (addr : Nat) (f : Frame k) : Prop := ∃ msg, f.deal addr = .ok msg

/-- The frames hold these messages. -/
def Hold {k : ConnKind} (addr : Nat) (fs : List (Frame k)) (msgs : List Msg) : Prop :=
  List.Forall₂ (fun f msg => f.deal addr = .ok msg) fs msgs

def stream {k : ConnKind} (fs : List (Frame k)) : Bytes := (fs.map (·.bytes)).flatten

def received (rs : List (Int × ReadRes)) : Bytes := rs.flatMap fun r => r.2.bytes

namespace ConnObj

/-- A list of `OnRead`s, each at its time and with its `read`. -/
def readAll (addr : Nat) (c : ConnObj) : List (Int × ReadRes) → Except Fault (List ReadOut)
  | [] => return []
  | (sec, r) :: rs => do
    let out ← c.onRead addr sec r
    let outs ← readAll addr out.conn rs
    return out :: outs

/-- No `read` delivers more than it was asked for. -/
def Asked (addr : Nat) (c : ConnObj) : List (Int × ReadRes) → Prop
  | [] => True
  | (sec, r) :: rs => c.netOffset + r.bytes.length ≤ RECV_BUFFER_SIZE ∧
      ∀ out, c.onRead addr sec r = .ok out → Asked addr out.conn rs

/-! ## A frame is read where it stands -/

/-- Reading a frame inside of a buffer gives what reading it alone gives. -/
theorem dealNet_of_hasAt {f m : Bytes} {p : Nat} {msg : Msg} (hm : HasAt m p f) (h : dealNet f 0 = .ok msg) :
    dealNet m p = .ok msg := by
  obtain ⟨bodylen, hlen, h⟩ := bind_eq_ok.mp h
  obtain ⟨msgid, hid, h⟩ := bind_eq_ok.mp h
  obtain ⟨body, hbody, h⟩ := bind_eq_ok.mp h
  rw [dealNet, hm.readLE_of hlen (by omega), ok_bind, hm.readLE_of hid (by omega), ok_bind,
    hm.readAt_of hbody (by omega), ok_bind]
  exact h

theorem deal_of_hasAt {k : ConnKind} {addr : Nat} {f m : Bytes} {p : Nat} {msg : Msg} (hm : HasAt m p f)
    (h : k.deal addr f 0 = .ok msg) : k.deal addr m p = .ok msg := by
  cases k with
  | net => exact dealNet_of_hasAt hm h
  | rpc =>
    change RpcObj.new.decodeBuffer f 0 addr >>= (fun o => pure (Msg.rpc o)) = _ at h
    obtain ⟨o, ho, h⟩ := bind_eq_ok.mp h
    change RpcObj.new.decodeBuffer m p addr >>= (fun o => pure (Msg.rpc o)) = _
    rw [decodeBuffer_of_hasAt hm ho]
    exact h

end ConnObj

/-! ## Frames -/

section Frames
variable {k : ConnKind}

theorem stream_nil : stream ([] : List (Frame k)) = [] := rfl

theorem stream_cons (f : Frame k) (fs : List (Frame k)) : stream (f :: fs) = f.bytes ++ stream fs := rfl

theorem stream_append (fs gs : List (Frame k)) : stream (fs ++ gs) = stream fs ++ stream gs := by
  simp [stream]

theorem Frame.header_le (f : Frame k) : k.header ≤ f.bytes.length := by
  have h := f.isFrame
  rw [Framing.IsFrame, ConnKind.framing] at h
  by_contra hlt
  rw [lenPrefixed_size_of_lt (by unfold ConnKind.header at hlt; omega)] at h
  cases h

/-- The length word of a frame counts what follows the header. -/
theorem Frame.length_eq (f : Frame k) : f.bytes.length = k.header + leNat (f.bytes.take 4) := by
  have h := f.isFrame
  have hle := f.header_le
  rw [Framing.IsFrame, ConnKind.framing, lenPrefixed_size hle] at h
  exact (Option.some.inj h).symm

theorem hold_nil (addr : Nat) : Hold addr ([] : List (Frame k)) [] := .nil

theorem exists_hold {addr : Nat} {fs : List (Frame k)} (h : ∀ f ∈ fs, f.Decodable addr) : ∃ msgs, Hold addr fs msgs := by
  induction fs with
  | nil => exact ⟨[], .nil⟩
  | cons f fs ih =>
    obtain ⟨⟨msg, hmsg⟩, hfs⟩ := List.forall_mem_cons.mp h
    obtain ⟨msgs, hmsgs⟩ := ih hfs
    exact ⟨msg :: msgs, .cons hmsg hmsgs⟩

theorem Hold.decodable {addr : Nat} {fs : List (Frame k)} {msgs : List Msg} (h : Hold addr fs msgs) :
    ∀ f ∈ fs, f.Decodable addr := by
  induction h with
  | nil => exact fun _ hf => absurd hf List.not_mem_nil
  | cons hmsg _ ih => exact List.forall_mem_cons.mpr ⟨⟨_, hmsg⟩, ih⟩

theorem hold_singleton {addr : Nat} {f : Frame k} {msg : Msg} {msgs : List Msg} (hmsg : f.deal addr = .ok msg)
    (h : Hold addr [f] msgs) : msgs = [msg] := by
  cases h with
  | cons hmsg' h =>
    cases h
    rw [Except.ok.inj (hmsg'.symm.trans hmsg)]

theorem hold_append {addr : Nat} {fs gs : List (Frame k)} {msgs msgs' : List Msg} (h : Hold addr fs msgs) :
    Hold addr (fs ++ gs) (msgs ++ msgs') ↔ Hold addr gs msgs' := by
  induction h with
  | nil => rfl
  | cons hmsg _ ih => exact List.forall₂_cons.trans ((and_iff_right hmsg).trans ih)

end Frames

namespace ConnObj
variable {k : ConnKind} {addr : Nat}

/-! ## One `OnRead` -/

/-- The parser's loop over complete frames and a rest. -/
theorem parseLoop_spec {fs : List (Frame k)} {msgs : List Msg} (hmsgs : Hold addr fs msgs) {rest : Bytes}
    (hrest : k.framing.Incomplete rest) {buf : Block RECV_BUFFER_SIZE} {n r : Nat} (hr : r ≤ n)
    (hn : n ≤ RECV_BUFFER_SIZE) (hbuf : slice buf.bytes r (n - r) = stream fs ++ rest) :
    ∃ out, parseLoop k.extra (k.deal addr) buf n r = .ok out ∧ out.msgs = msgs ∧ out.quit = false ∧
      out.readOffset = n - rest.length ∧
      if rest.length < k.header then out.netOffset = rest.length ∧ out.netBuffer.bytes.take rest.length = rest
      else out.netOffset = n ∧ out.netBuffer = buf := by
  have hsize := buf.size
  induction hmsgs generalizing r with
  | nil =>
    rw [stream_nil, List.nil_append] at hbuf
    have hlen : rest.length = n - r := by rw [← hbuf, length_slice _ (by omega)]
    rw [parseLoop]
    by_cases hlt : n - r < k.extra + 4
    · obtain ⟨buf', hmove, hbytes⟩ := buf.memmove_eq_ok 0 r (n - r) (by omega) (by omega)
      rw [dif_pos hlt, hmove]
      refine ⟨_, rfl, rfl, rfl, by simp only; omega, ?_⟩
      rw [if_pos (by rw [ConnKind.header]; omega)]
      refine ⟨hlen.symm, ?_⟩
      simp only
      rw [hbytes, memmove, hbuf, take_memcpy_zero]
    · rw [dif_neg hlt, readLE_eq (by omega), ok_bind]
      have hword : slice buf.bytes r 4 = rest.take 4 := by
        rw [← hbuf, slice, slice, List.take_take, min_eq_left (by omega)]
      have hinc : rest.length < k.extra + 4 + leNat (rest.take 4) := hrest _ (lenPrefixed_size (by omega))
      rw [hword, if_pos (by omega)]
      refine ⟨_, rfl, rfl, rfl, by simp only; omega, ?_⟩
      rw [if_neg (by rw [ConnKind.header]; omega)]
      exact ⟨rfl, rfl⟩
  | @cons f msg fs msgs hmsg _ ih =>
    have hhead := f.header_le
    have hflen := f.length_eq
    have hfits := f.fits
    have hR : RECV_BUFFER_SIZE = 4096 := rfl
    rw [ConnKind.header] at hhead hflen
    rw [stream_cons, List.append_assoc] at hbuf
    have hlen : n - r = f.bytes.length + (stream fs ++ rest).length := by
      rw [← List.length_append, ← hbuf, length_slice _ (by omega)]
    -- the frame stands at the read offset, and its length word is there
    rw [hlen, slice_add] at hbuf
    obtain ⟨hframe, hrest'⟩ := List.append_inj hbuf (length_slice _ (by omega))
    have hat : HasAt buf.bytes r f.bytes := ⟨by omega, hframe⟩
    have hword : slice buf.bytes r 4 = f.bytes.take 4 := by
      rw [← hframe, slice, slice, List.take_take, min_eq_left (by omega)]
    obtain ⟨out, hout, hmsgs, hquit, hread, hbuf'⟩ := ih (r := r + f.bytes.length) (by omega)
      (by rw [show n - (r + f.bytes.length) = (stream fs ++ rest).length by omega]; exact hrest')
    rw [parseLoop, dif_neg (by omega), readLE_eq (by omega), ok_bind, hword, if_neg (by omega), if_neg (by omega),
      deal_of_hasAt hat hmsg, ok_bind, show leNat (f.bytes.take 4) + (k.extra + 4) = f.bytes.length by omega, hout]
    exact ⟨_, rfl, by rw [hmsgs], hquit, hread, hbuf'⟩

theorem length_pending {c : ConnObj} (h : c.netOffset ≤ RECV_BUFFER_SIZE) : c.pending.length = c.netOffset := by
  have hsize := c.netBuffer.size
  rw [pending, List.length_take]
  omega

def unread (c : ConnObj) : Bytes := slice c.netBuffer.bytes c.readOffset (c.netOffset - c.readOffset)

theorem _onRead_spec {c : ConnObj} (hopen : c.bclose = false) {r : ReadRes}
    (hasked : c.netOffset + r.bytes.length ≤ RECV_BUFFER_SIZE) :
    ∃ c' ret quits, c._onRead r = .ok (c', ret, quits) ∧ c'.kind = c.kind ∧ c'.bclose = c.bclose ∧
      c'.netOffset = c.netOffset + r.bytes.length ∧ c'.pending = c.pending ++ r.bytes := by
  have hsize := c.netBuffer.size
  have hR : RECV_BUFFER_SIZE = 4096 := rfl
  have hB : BUFFER_SIZE = 32768 := rfl
  have happend : ∀ m : Block RECV_BUFFER_SIZE, m.bytes = memcpy c.netBuffer.bytes c.netOffset r.bytes →
      m.bytes.take (c.netOffset + r.bytes.length) = c.pending ++ r.bytes := by
    intro m hm
    rw [hm, take_memcpy (by omega), pending]
  unfold _onRead
  rw [if_neg (by rw [hopen]; decide)]
  cases r with
  | error => exact ⟨_, _, _, rfl, rfl, rfl, rfl, (List.append_nil _).symm⟩
  | again => exact ⟨_, _, _, rfl, rfl, rfl, rfl, (List.append_nil _).symm⟩
  | data bs =>
    simp only [ReadRes.bytes] at hasked happend ⊢
    obtain ⟨m, hm, hbytes⟩ := c.netBuffer.memcpy_eq_ok c.netOffset bs hasked
    have hm' := happend m hbytes
    rw [hm, ok_bind]
    by_cases hzero : bs.length = 0 ∧ c.chkReadZero
    · rw [if_pos hzero]
      rw [hzero.1, Nat.add_zero] at hm'
      exact ⟨_, _, _, rfl, rfl, rfl, by rw [hzero.1]; rfl, hm'⟩
    · rw [if_neg hzero, if_pos (by omega)]
      exact ⟨_, _, _, rfl, rfl, rfl, rfl, hm'⟩

/-- The parser hands on the complete frames. It leaves the rest to be kept, unless a frame was complete and the rest is
shorter than a header: then the rest stands at the front, but the read offset still counts the frames. -/
theorem parseBuff_spec {c : ConnObj} (hk : c.kind = k) (hn : c.netOffset ≤ RECV_BUFFER_SIZE) {fs : List (Frame k)}
    {msgs : List Msg} (hmsgs : Hold addr fs msgs) {rest : Bytes} (hrest : k.framing.Incomplete rest)
    (hbuf : c.pending = stream fs ++ rest) (sec : Int) :
    ∃ parsed c' quits, c.parseBuff addr sec = .ok (parsed, c', msgs, quits) ∧ c'.kind = k ∧
      c'.bclose = c.bclose ∧ c'.netOffset ≤ RECV_BUFFER_SIZE ∧
      c'.unread = if fs ≠ [] ∧ rest.length < k.header then [] else rest := by
  subst hk
  have hsize := c.netBuffer.size
  have hlen := length_pending hn
  rw [hbuf, List.length_append] at hlen
  have hfs : fs ≠ [] → c.kind.header ≤ (stream fs).length := by
    intro hne
    obtain ⟨f, gs, rfl⟩ := List.exists_cons_of_ne_nil hne
    have := f.header_le
    rw [stream_cons, List.length_append]
    omega
  have hheader : 0 < c.kind.header := Nat.succ_pos _
  unfold parseBuff
  by_cases h0 : c.netOffset = 0
  · have hnil : rest = [] := List.length_eq_zero_iff.mp (by omega)
    have hfs' : fs = [] := by
      by_contra hne
      have := hfs hne
      omega
    subst hfs' hnil
    cases hmsgs
    rw [if_pos h0]
    exact ⟨_, _, _, rfl, rfl, rfl, hn, by simp [unread, h0, slice]⟩
  · obtain ⟨out, hout, hdeal, -, hread, hcase⟩ := parseLoop_spec hmsgs hrest (n := c.netOffset) (r := 0) (Nat.zero_le _)
      hn (by rw [slice_zero]; exact hbuf)
    rw [if_neg h0, hout, ok_bind, hdeal]
    refine ⟨_, _, _, rfl, rfl, rfl, ?_, ?_⟩
    · simp only
      split_ifs at hcase <;> omega
    · simp only [unread]
      split_ifs at hcase with hshort
      · obtain ⟨hoff, hbytes⟩ := hcase
        by_cases hne : fs = []
        · subst hne
          rw [stream_nil, List.length_nil] at hlen
          rw [if_neg (fun h => h.1 rfl), show out.readOffset = 0 by omega, hoff]
          exact hbytes
        · have := hfs hne
          rw [if_pos ⟨hne, hshort⟩, show out.netOffset - out.readOffset = 0 by omega]
          exact List.take_zero
      · obtain ⟨hoff, hsame⟩ := hcase
        have htake := slice_take c.netBuffer.bytes out.readOffset rest.length c.netOffset (by omega)
        rw [if_neg (fun h => hshort h.2), hsame, show out.netOffset - out.readOffset = rest.length by omega, ← htake,
          show c.netBuffer.bytes.take c.netOffset = _ from hbuf, show out.readOffset = (stream fs).length + 0 by omega,
          slice_append_right, slice_zero, List.take_length]

theorem resetBuffer_spec {c : ConnObj} (hn : c.netOffset ≤ RECV_BUFFER_SIZE) :
    ∃ c', c.resetBuffer = .ok c' ∧ c'.kind = c.kind ∧ c'.bclose = c.bclose ∧ c'.netOffset ≤ RECV_BUFFER_SIZE ∧
      c'.pending = c.unread := by
  have hsize := c.netBuffer.size
  unfold resetBuffer
  by_cases hle : c.netOffset ≤ c.readOffset
  · rw [if_pos hle]
    refine ⟨_, rfl, rfl, rfl, Nat.zero_le _, ?_⟩
    rw [unread, show c.netOffset - c.readOffset = 0 by omega]
    rfl
  · obtain ⟨m, hm, hbytes⟩ := c.netBuffer.memmove_eq_ok 0 c.readOffset (c.netOffset - c.readOffset) (by omega)
      (by omega)
    rw [if_neg hle, hm]
    refine ⟨_, rfl, rfl, rfl, show c.netOffset - c.readOffset ≤ _ by omega, ?_⟩
    have hlen : c.unread.length = c.netOffset - c.readOffset := length_slice _ (by omega)
    have htake := take_memcpy_zero c.netBuffer.bytes c.unread
    rw [hlen] at htake
    rw [pending]
    simp only [hbytes]
    exact htake

/-- One `OnRead` cuts what it has into its complete frames and a rest, and keeps the rest unless a frame was complete and
the rest is shorter than a header. -/
theorem onRead_spec {c : ConnObj} (hk : c.kind = k) (hopen : c.bclose = false) {fs : List (Frame k)} {msgs : List Msg}
    (hmsgs : Hold addr fs msgs) {rest : Bytes} (hrest : k.framing.Incomplete rest) {r : ReadRes}
    (hasked : c.netOffset + r.bytes.length ≤ RECV_BUFFER_SIZE) (hbuf : c.pending ++ r.bytes = stream fs ++ rest)
    (sec : Int) :
    ∃ out, c.onRead addr sec r = .ok out ∧ out.msgs = msgs ∧ out.conn.kind = k ∧
      out.conn.bclose = false ∧ out.conn.netOffset = out.conn.pending.length ∧
      out.conn.pending = if fs ≠ [] ∧ rest.length < k.header then [] else rest := by
  obtain ⟨c₁, ret, quits, hread, hkind, hopen₁, hoff, hpend⟩ := _onRead_spec hopen hasked
  rw [← hpend] at hbuf
  obtain ⟨parsed, c₂, quits', hparse, hk₂, hopen₂, hn₂, hunread⟩ :=
    parseBuff_spec (hkind.trans hk) (by omega) hmsgs hrest hbuf sec
  obtain ⟨c₃, hreset, hkind₃, hopen₃, hn₃, hpend₃⟩ := resetBuffer_spec hn₂
  unfold onRead
  rw [if_neg (by rw [hopen]; decide), hread, ok_bind]
  dsimp only
  rw [hparse, ok_bind]
  dsimp only
  rw [hreset]
  exact ⟨_, rfl, rfl, hkind₃.trans hk₂, by rw [hopen₃, hopen₂, hopen₁, hopen], (length_pending hn₃).symm,
    hpend₃.trans hunread⟩

theorem parseLoop_left {h : Nat} {deal : Bytes → Nat → Except Fault Msg} {buf : Block RECV_BUFFER_SIZE} {n r : Nat}
    (hn : n ≤ RECV_BUFFER_SIZE) {out : ParseOut} (hout : parseLoop h deal buf n r = .ok out) :
    out.quit = false ∧ out.netOffset - out.readOffset ≤ n - r ∧ out.netOffset ≤ n := by
  have hR : RECV_BUFFER_SIZE = 4096 := rfl
  fun_induction parseLoop h deal buf n r generalizing out with
  | case1 r hlt =>
    obtain ⟨buf', -, hout⟩ := bind_eq_ok.mp hout
    cases hout
    exact ⟨rfl, Nat.sub_le _ _, Nat.sub_le _ _⟩
  | case2 r hlt ih =>
    obtain ⟨size, -, hout⟩ := bind_eq_ok.mp hout
    split at hout
    · cases hout
      exact ⟨rfl, le_rfl, le_rfl⟩
    · next hle =>
      -- a complete frame is inside of the buffer, far below the limit
      rw [if_neg (by omega)] at hout
      obtain ⟨m, -, hout⟩ := bind_eq_ok.mp hout
      obtain ⟨out', hout', hout⟩ := bind_eq_ok.mp hout
      cases hout
      obtain ⟨hquit, hleft, hoff⟩ := ih size hle (by omega) hout'
      refine ⟨hquit, le_trans hleft ?_, hoff⟩
      omega

theorem resetBuffer_offset {c c' : ConnObj} (h : c.resetBuffer = .ok c') :
    c'.fd = c.fd ∧ c'.bclose = c.bclose ∧ c'.netOffset = c.netOffset - c.readOffset := by
  unfold resetBuffer at h
  split at h
  · next hle =>
    cases h
    exact ⟨rfl, rfl, (Nat.sub_eq_zero_of_le hle).symm⟩
  · obtain ⟨m, -, h⟩ := bind_eq_ok.mp h
    cases h
    exact ⟨rfl, rfl, rfl⟩

theorem onRead_offset_le {c : ConnObj} {sec : Int} {r : ReadRes} {out : ReadOut}
    (hasked : c.netOffset + r.bytes.length ≤ RECV_BUFFER_SIZE) (h : c.onRead addr sec r = .ok out) :
    out.conn.netOffset ≤ c.netOffset + r.bytes.length := by
  unfold onRead at h
  split at h
  · cases h
    exact Nat.le_add_right _ _
  · next hopen =>
    obtain ⟨c₁, ret, quits, hread, -, -, hoff, -⟩ := _onRead_spec (Bool.of_not_eq_true hopen) hasked
    rw [hread, ok_bind] at h
    obtain ⟨⟨parsed, c₂, msgs, quits'⟩, hparse, h⟩ := bind_eq_ok.mp h
    obtain ⟨c₃, hreset, h⟩ := bind_eq_ok.mp h
    cases h
    obtain ⟨-, -, hoff₃⟩ := resetBuffer_offset hreset
    have hoff₂ : c₂.netOffset ≤ c₁.netOffset := by
      unfold parseBuff at hparse
      split at hparse
      · cases hparse
        exact le_rfl
      · obtain ⟨o, ho, hparse⟩ := bind_eq_ok.mp hparse
        cases hparse
        exact (parseLoop_left (by omega) ho).2.2
    simp only
    omega

theorem asked_of_length_le {rs : List (Int × ReadRes)} {c : ConnObj}
    (h : c.netOffset + (received rs).length ≤ RECV_BUFFER_SIZE) : Asked addr c rs := by
  induction rs generalizing c with
  | nil => trivial
  | cons r rs ih =>
    obtain ⟨sec, r⟩ := r
    have hlen : (received ((sec, r) :: rs)).length = r.bytes.length + (received rs).length := List.length_append
    have hasked : c.netOffset + r.bytes.length ≤ RECV_BUFFER_SIZE := by omega
    refine ⟨hasked, fun out hout => ih ?_⟩
    have := onRead_offset_le hasked hout
    omega

theorem onRead_ids {c : ConnObj} {sec : Int} {r : ReadRes} {out : ReadOut} (h : c.onRead addr sec r = .ok out) :
    out.conn.fd = c.fd ∧ out.conn.pid = c.pid := by
  have hread : ∀ {c' ret quits}, c._onRead r = .ok (c', ret, quits) → c'.fd = c.fd ∧ c'.pid = c.pid := by
    intro c' ret quits h
    unfold _onRead at h
    split at h
    · cases h
      exact ⟨rfl, rfl⟩
    · split at h
      · cases h
        exact ⟨rfl, rfl⟩
      · cases h
        exact ⟨rfl, rfl⟩
      · obtain ⟨m, -, h⟩ := bind_eq_ok.mp h
        dsimp only at h
        split_ifs at h <;> cases h <;> exact ⟨rfl, rfl⟩
  have hparse : ∀ {c c' : ConnObj} {parsed msgs quits}, c.parseBuff addr sec = .ok (parsed, c', msgs, quits) →
      c'.fd = c.fd ∧ c'.pid = c.pid := by
    intro c c' parsed msgs quits h
    unfold parseBuff at h
    split at h
    · cases h
      exact ⟨rfl, rfl⟩
    · obtain ⟨out, -, h⟩ := bind_eq_ok.mp h
      cases h
      exact ⟨rfl, rfl⟩
  have hreset : ∀ {c c' : ConnObj}, c.resetBuffer = .ok c' → c'.fd = c.fd ∧ c'.pid = c.pid := by
    intro c c' h
    unfold resetBuffer at h
    split at h
    · cases h
      exact ⟨rfl, rfl⟩
    · obtain ⟨m, -, h⟩ := bind_eq_ok.mp h
      cases h
      exact ⟨rfl, rfl⟩
  unfold onRead at h
  split at h
  · cases h
    exact ⟨rfl, rfl⟩
  · obtain ⟨⟨c₁, ret, quits⟩, h₁, h⟩ := bind_eq_ok.mp h
    obtain ⟨⟨parsed, c₂, msgs, quits'⟩, h₂, h⟩ := bind_eq_ok.mp h
    obtain ⟨c₃, h₃, h⟩ := bind_eq_ok.mp h
    cases h
    simp only
    rw [(hreset h₃).1, (hreset h₃).2, (hparse h₂).1, (hparse h₂).2, (hread h₁).1, (hread h₁).2]
    exact ⟨rfl, rfl⟩

/-! ## Runs of reads -/

/-- The messages handed on by a list of `OnRead`s. -/
def dispatched (outs : List ReadOut) : List Msg := outs.flatMap (·.msgs)

/-- The reads return and hand on exactly the frames' messages, and after each of them the buffer holds the bytes that have
arrived and belong to none of the messages handed on so far. -/
def Reassembled (addr : Nat) (c : ConnObj) (fs : List (Frame k)) (rs : List (Int × ReadRes)) : Prop :=
  ∃ outs, c.readAll addr rs = .ok outs ∧ Hold addr fs (dispatched outs) ∧
    ∀ n out, outs[n]? = some out → c.pending ++ received (rs.take (n + 1)) =
      stream (fs.take (dispatched (outs.take (n + 1))).length) ++ out.conn.pending

/-- A read that starts behind `a` bytes of the stream and ends behind `b` completes a frame and ends strictly inside of
the header of the next one. -/
def CutsHeader (fs : List (Frame k)) (a b : Nat) : Prop :=
  ∃ gs hs, fs = gs ++ hs ∧ a < (stream gs).length ∧ (stream gs).length < b ∧ b < (stream gs).length + k.header

theorem cutsHeader_iff_take {fs : List (Frame k)} {a b : Nat} : CutsHeader fs a b ↔ ∃ n < fs.length + 1,
    a < (stream (fs.take n)).length ∧ (stream (fs.take n)).length < b ∧ b < (stream (fs.take n)).length + k.header := by
  constructor
  · rintro ⟨gs, hs, rfl, h⟩
    refine ⟨gs.length, by rw [List.length_append]; omega, ?_⟩
    rwa [List.take_left]
  · rintro ⟨n, -, h⟩
    exact ⟨fs.take n, fs.drop n, (List.take_append_drop n fs).symm, h⟩

instance (fs : List (Frame k)) (a b : Nat) : Decidable (CutsHeader fs a b) := decidable_of_iff' _ cutsHeader_iff_take

/-- No read of the list, which starts behind `a` bytes of the stream, does. -/
def NoCut (fs : List (Frame k)) (a : Nat) (rs : List (Int × ReadRes)) : Prop :=
  ∀ n < rs.length, ¬ CutsHeader fs (a + (received (rs.take n)).length) (a + (received (rs.take (n + 1))).length)

instance (fs : List (Frame k)) (a : Nat) (rs : List (Int × ReadRes)) : Decidable (NoCut fs a rs) :=
  inferInstanceAs (Decidable (∀ n < rs.length, _))

theorem received_cons (r : Int × ReadRes) (rs : List (Int × ReadRes)) :
    received (r :: rs) = r.2.bytes ++ received rs := rfl

/-- A stream that starts with a frame is not incomplete once the frame is there. -/
theorem not_incomplete (f : Frame k) {s t u : Bytes} (h : s ++ t = f.bytes ++ u) (hle : f.bytes.length ≤ s.length) :
    ¬ k.framing.Incomplete s := by
  intro hinc
  have hpre : f.bytes <+: s := List.prefix_of_prefix_length_le ⟨u, h.symm⟩ (List.prefix_append s t) hle
  obtain ⟨v, rfl⟩ := hpre
  have := hinc _ (k.framing.size_append f.isFrame v)
  omega

/-- What a prefix of a stream of frames consists of. -/
theorem split_frames {fs : List (Frame k)} {s t : Bytes} (h : s ++ t = stream fs) :
    ∃ gs hs rest, fs = gs ++ hs ∧ s = stream gs ++ rest ∧ rest ++ t = stream hs ∧ k.framing.Incomplete rest :=
  k.framing.split_prefix_map Frame.bytes (fun f _ => Frame.isFrame f) h

/-- Whether a read cuts a header is seen from the frames it completes and the rest it leaves. -/
theorem cutsHeader_iff {gs hs : List (Frame k)} {p r rest t : Bytes} (hp : k.framing.Incomplete p)
    (hrest : k.framing.Incomplete rest) (hsplit : p ++ r = stream gs ++ rest) (hnext : rest ++ t = stream hs) :
    CutsHeader (gs ++ hs) p.length (p.length + r.length) ↔ gs ≠ [] ∧ rest ≠ [] ∧ rest.length < k.header := by
  have hlen := congrArg List.length hsplit
  simp only [List.length_append] at hlen
  constructor
  · rintro ⟨gs', hs', heq, ha, hb, hhead⟩
    rcases List.append_eq_append_iff.mp heq with ⟨as, rfl, rfl⟩ | ⟨as, rfl, rfl⟩
    · cases as with
      | nil =>
        simp only [List.append_nil] at ha hb hhead ⊢
        refine ⟨?_, ?_, by omega⟩
        · rintro rfl
          exact absurd ha (Nat.not_lt_zero _)
        · rintro rfl
          rw [List.length_nil] at hlen
          omega
      | cons f as =>
        -- the next frame would be complete in the rest
        rw [stream_append, stream_cons, List.length_append, List.length_append] at hb
        refine absurd hrest (not_incomplete f (t := t) (u := stream (as ++ hs')) ?_ (by omega))
        rw [hnext, List.cons_append, stream_cons]
    · cases as with
      | nil =>
        simp only [List.append_nil] at hlen ⊢
        refine ⟨?_, ?_, by omega⟩
        · rintro rfl
          exact absurd ha (Nat.not_lt_zero _)
        · rintro rfl
          rw [List.length_nil] at hlen
          omega
      | cons f as =>
        have := f.header_le
        rw [stream_append, stream_cons, List.length_append, List.length_append] at hlen
        omega
  · rintro ⟨hgs, hne, hhead⟩
    have hpos := List.length_pos_iff.mpr hne
    refine ⟨gs, hs, rfl, ?_, by omega, by omega⟩
    obtain ⟨f, gs, rfl⟩ := List.exists_cons_of_ne_nil hgs
    by_contra hle
    rw [stream_cons, List.length_append] at hle
    refine absurd hp (not_incomplete f (t := r) (u := stream gs ++ rest) ?_ (by omega))
    rw [hsplit, stream_cons, List.append_assoc]

theorem cutsHeader_append (gs hs : List (Frame k)) (a b : Nat) :
    CutsHeader (gs ++ hs) ((stream gs).length + a) ((stream gs).length + b) ↔ CutsHeader hs a b := by
  constructor
  · rintro ⟨gs', hs', heq, ha, hb, hhead⟩
    rcases List.append_eq_append_iff.mp heq with ⟨as, rfl, rfl⟩ | ⟨as, rfl, rfl⟩
    · rw [stream_append, List.length_append] at ha hb hhead
      exact ⟨as, hs', rfl, by omega, by omega, by omega⟩
    · rw [stream_append, List.length_append] at ha
      omega
  · rintro ⟨gs', hs', rfl, ha, hb, hhead⟩
    refine ⟨gs ++ gs', hs', (List.append_assoc _ _ _).symm, ?_⟩
    rw [stream_append, List.length_append]
    omega

/-- One read more: behind the frames it completes, the rest of the run is a run over the frames that are left. -/
theorem reassembled_cons {c : ConnObj} {gs hs : List (Frame k)} {sec : Int} {r : ReadRes} {rs : List (Int × ReadRes)}
    {out : ReadOut} {rest : Bytes} (hout : c.onRead addr sec r = .ok out) (hmsgs : Hold addr gs out.msgs)
    (hsplit : c.pending ++ r.bytes = stream gs ++ rest) :
    Reassembled addr c (gs ++ hs) ((sec, r) :: rs) ↔ out.conn.pending = rest ∧ Reassembled addr out.conn hs rs := by
  have hlen : out.msgs.length = gs.length := hmsgs.length_eq.symm
  have hcount : ∀ outs : List ReadOut, (dispatched (out :: outs)).length = gs.length + (dispatched outs).length := by
    intro outs
    rw [dispatched, List.flatMap_cons, List.length_append, hlen]
    rfl
  constructor
  · rintro ⟨outs, hall, hdisp, hpend⟩
    obtain ⟨out', hout', hall⟩ := bind_eq_ok.mp hall
    rw [hout] at hout'
    cases hout'
    obtain ⟨outs', hall', hk⟩ := bind_eq_ok.mp hall
    cases hk
    have h0 := hpend 0 out rfl
    have hrest : out.conn.pending = rest := by
      rw [List.take_succ_cons, List.take_succ_cons, List.take_zero, List.take_zero, hcount, received_cons] at h0
      rw [show (dispatched ([] : List ReadOut)).length = 0 from rfl, Nat.add_zero, List.take_left,
        show received [] = [] from rfl, List.append_nil, hsplit] at h0
      exact (List.append_cancel_left h0).symm
    refine ⟨hrest, outs', hall', ?_, fun n o ho => ?_⟩
    · exact (hold_append hmsgs).mp hdisp
    · have hn := hpend (n + 1) o ho
      rw [List.take_succ_cons, List.take_succ_cons, hcount, received_cons, ← List.append_assoc, hsplit,
        List.take_length_add_append, stream_append, List.append_assoc, List.append_assoc] at hn
      rw [hrest]
      exact List.append_cancel_left hn
  · rintro ⟨hrest, outs, hall, hdisp, hpend⟩
    refine ⟨out :: outs, ?_, ?_, fun n o ho => ?_⟩
    · rw [readAll, hout, ok_bind, hall]
      rfl
    · exact (hold_append hmsgs).mpr hdisp
    · cases n with
      | zero =>
        cases ho
        rw [List.take_succ_cons, List.take_succ_cons, List.take_zero, List.take_zero, hcount, received_cons,
          show (dispatched ([] : List ReadOut)).length = 0 from rfl, Nat.add_zero, List.take_left,
          show received [] = [] from rfl, List.append_nil, hsplit, hrest]
      | succ n =>
        have hn := hpend n o ho
        rw [List.take_succ_cons, List.take_succ_cons, hcount, received_cons, ← List.append_assoc, hsplit,
          List.take_length_add_append, stream_append, List.append_assoc, List.append_assoc, ← hn, hrest]

theorem noCut_cons {gs hs : List (Frame k)} {sec : Int} {p rest : Bytes} {r : ReadRes} {rs : List (Int × ReadRes)}
    (hsplit : p ++ r.bytes = stream gs ++ rest) :
    NoCut (gs ++ hs) p.length ((sec, r) :: rs) ↔
      ¬ CutsHeader (gs ++ hs) p.length (p.length + r.bytes.length) ∧ NoCut hs rest.length rs := by
  have hlen := congrArg List.length hsplit
  simp only [List.length_append] at hlen
  have hshift : ∀ n, p.length + (received (((sec, r) :: rs).take (n + 1))).length =
      (stream gs).length + (rest.length + (received (rs.take n)).length) := by
    intro n
    rw [List.take_succ_cons, received_cons, List.length_append]
    dsimp only
    omega
  have hcut : ∀ n, CutsHeader (gs ++ hs) (p.length + (received (((sec, r) :: rs).take (n + 1))).length)
      (p.length + (received (((sec, r) :: rs).take (n + 2))).length) ↔
      CutsHeader hs (rest.length + (received (rs.take n)).length) (rest.length + (received (rs.take (n + 1))).length) := by
    intro n
    rw [hshift, hshift, cutsHeader_append]
  have h0 : p.length + (received (((sec, r) :: rs).take 0)).length = p.length := rfl
  have h1 : p.length + (received (((sec, r) :: rs).take 1)).length = p.length + r.bytes.length := by
    simp [received]
  constructor
  · intro h
    refine ⟨?_, fun n hn => ?_⟩
    · have := h 0 (by simp)
      rwa [h0, h1] at this
    · have := h (n + 1) (by simpa using hn)
      rwa [hcut] at this
  · rintro ⟨hzero, h⟩ n hn
    cases n with
    | zero => rwa [h0, h1]
    | succ n =>
      rw [hcut]
      exact h n (by simpa using hn)

/-- From any state whose pending bytes are the head of the stream that is still to come. -/
theorem reassembled_iff_noCut {fs : List (Frame k)} (hdec : ∀ f ∈ fs, f.Decodable addr) {rs : List (Int × ReadRes)}
    {c : ConnObj} (hk : c.kind = k) (hopen : c.bclose = false) (hinc : k.framing.Incomplete c.pending)
    (hasked : Asked addr c rs) (hstream : c.pending ++ received rs = stream fs) :
    Reassembled addr c fs rs ↔ NoCut fs c.pending.length rs := by
  induction rs generalizing c fs with
  | nil =>
    refine ⟨fun _ n hn => absurd hn (Nat.not_lt_zero n), fun _ => ⟨[], rfl, ?_, fun n out ho => by simp at ho⟩⟩
    cases fs with
    | nil => exact .nil
    | cons f fs =>
      rw [stream_cons] at hstream
      refine absurd hinc (not_incomplete f hstream ?_)
      have := congrArg List.length hstream
      simp only [List.length_append, received, List.flatMap_nil, List.length_nil] at this
      omega
  | cons r rs ih =>
    obtain ⟨sec, r⟩ := r
    obtain ⟨hfit, hasked⟩ := hasked
    rw [received_cons, ← List.append_assoc] at hstream
    obtain ⟨gs, hs, rest, rfl, hsplit, hnext, hrest⟩ := split_frames hstream
    obtain ⟨hgs, hhs⟩ := List.forall_mem_append.mp hdec
    obtain ⟨msgs, hmsgs⟩ := exists_hold hgs
    obtain ⟨out, hout, rfl, hk', hopen', -, hpend⟩ := onRead_spec hk hopen hmsgs hrest hfit hsplit sec
    have hlenp := length_pending (c := c) (by omega)
    rw [reassembled_cons hout hmsgs hsplit, noCut_cons hsplit, cutsHeader_iff hinc hrest hsplit hnext]
    by_cases hcut : gs ≠ [] ∧ rest ≠ [] ∧ rest.length < k.header
    · -- the rest is dropped
      rw [if_pos ⟨hcut.1, hcut.2.2⟩] at hpend
      refine iff_of_false (fun h => hcut.2.1 ?_) fun h => h.1 hcut
      rw [← h.1, hpend]
    · have hpend' : out.conn.pending = rest := by
        rw [hpend]
        split_ifs with h
        · by_contra hne
          exact hcut ⟨h.1, fun hnil => hne hnil.symm, h.2⟩
        · rfl
      rw [ih hhs hk' hopen' (hpend' ▸ hrest) (hasked out hout) (hpend' ▸ hnext), hpend']
      exact ⟨fun h => ⟨hcut, h.2⟩, fun h => ⟨rfl, h.2⟩⟩

/-- **Reassembly, with its exact condition.** On an open connection with an empty buffer, for every sequence of frames
that fit in the buffer and every way of cutting their bytes into reads, the reads return and hand on exactly those frames,
each once and in order, with exactly the bytes not yet handed on in the buffer after each of them, if and only if every
frame can be read without a look behind its end and no read that completes a frame ends strictly inside of the header of
the next one. -/
theorem reassembled_iff (c : ConnObj) (hk : c.kind = k) (hopen : c.bclose = false) (hempty : c.netOffset = 0)
    (fs : List (Frame k)) (rs : List (Int × ReadRes)) (hasked : Asked addr c rs) (hrs : received rs = stream fs) :
    Reassembled addr c fs rs ↔ (∀ f ∈ fs, f.Decodable addr) ∧ NoCut fs 0 rs := by
  have hpend : c.pending = [] := by rw [pending, hempty, List.take_zero]
  have hinc : k.framing.Incomplete c.pending := by
    rw [hpend]
    exact fun n hn => k.framing.size_pos hn
  have hstream : c.pending ++ received rs = stream fs := by
    rw [hpend]
    exact hrs
  have hcut : (∀ f ∈ fs, f.Decodable addr) → (Reassembled addr c fs rs ↔ NoCut fs 0 rs) := by
    intro hdec
    have h := reassembled_iff_noCut hdec hk hopen hinc hasked hstream
    rwa [hpend] at h
  constructor
  · intro h
    have hdec : ∀ f ∈ fs, f.Decodable addr := by
      obtain ⟨outs, -, hhold, -⟩ := h
      exact hhold.decodable
    exact ⟨hdec, (hcut hdec).mp h⟩
  · rintro ⟨hdec, hno⟩
    exact (hcut hdec).mpr hno

/-! ## Frames of either kind -/

end ConnObj

theorem dealNet_message (msgid : UInt32) {body : Bytes} (h : body.length ≤ 4088) :
    ConnObj.dealNet (le 4 body.length ++ le 4 msgid.toNat ++ body) 0 =
      .ok (.net ⟨msgid.toNat, body.length, body⟩) := by
  obtain ⟨hhead, hbody⟩ := hasAt_append.mp (hasAt_self (le 4 body.length ++ le 4 msgid.toNat ++ body))
  obtain ⟨hlen, hid⟩ := hasAt_append.mp hhead
  have hmsgid : msgid.toNat < 256 ^ 4 := msgid.toNat_lt
  have rlen := hlen.readLE rfl (by omega)
  have rid := hid.readLE (q := 0 + 4) (by rw [length_le]) hmsgid
  have rbody := hbody.readAt (q := 0 + 8) (by rw [List.length_append, length_le, length_le]) rfl
  rw [ConnObj.dealNet, rlen, ok_bind, rid, ok_bind, rbody]
  rfl

/-- A client's message as a frame. -/
def netFrame (msgid : UInt32) (body : Bytes) (h : body.length ≤ 4088) : Frame .net where
  bytes := le 4 body.length ++ le 4 msgid.toNat ++ body
  isFrame := lenPrefixed_isFrame _ _ (length_le _ _) (lt_of_le_of_lt h (by decide))
  fits := by
    have hR : RECV_BUFFER_SIZE = 4096 := rfl
    rw [List.length_append, List.length_append, length_le, length_le]
    omega

theorem deal_netFrame (addr : Nat) (msgid : UInt32) {body : Bytes} (h : body.length ≤ 4088) :
    (netFrame msgid body h).deal addr = .ok (.net ⟨msgid.toNat, body.length, body⟩) := dealNet_message msgid h

theorem exists_rpcFrame (addr : Nat) (name : ServerName) (m : RpcMsg) (h : recordSize name m ≤ RECV_BUFFER_SIZE) :
    ∃ (f : Frame .rpc) (o : RpcObj), f.bytes = record name m ∧ f.deal addr = .ok (.rpc o) ∧
      Decoded name m shiftedRes addr o := by
  have hR : RECV_BUFFER_SIZE = 4096 := rfl
  have hlen := length_record name m
  obtain ⟨o, ho, hdec⟩ := decodeBuffer_record (hasAt_self (record name m)) addr
  refine ⟨⟨record name m, record_isFrame name m (by omega), by omega⟩, o, rfl, ?_, hdec⟩
  rw [Frame.deal, ConnKind.deal, ConnObj.dealRpc, ho]
  rfl

namespace ConnObj

/-- Two empty messages, the second one's first byte arriving with the first one: that byte is lost. -/
theorem not_reassembled : ∃ rs,
    Asked 0 (new .net 5) rs ∧
    received rs = stream [netFrame 100 [] (by simp), netFrame 101 [] (by simp)] ∧
    ¬ Reassembled 0 (new .net 5) [netFrame 100 [] (by simp), netFrame 101 [] (by simp)] rs := by
  have hasked : Asked 0 (new .net 5) [(0, .data [0, 0, 0, 0, 100, 0, 0, 0, 0]), (0, .data [0, 0, 0, 101, 0, 0, 0])] :=
    asked_of_length_le (by decide)
  refine ⟨_, hasked, rfl, ?_⟩
  rw [reassembled_iff_noCut (k := .net) ?_ rfl rfl (lenPrefixed_incomplete_of_lt (by decide)) hasked rfl]
  · intro h
    exact h 0 (by decide) ⟨[netFrame 100 [] (by simp)], [netFrame 101 [] (by simp)], rfl, by decide, by decide, by decide⟩
  · rw [List.forall_mem_cons, List.forall_mem_singleton]
    exact ⟨⟨_, deal_netFrame 0 100 _⟩, ⟨_, deal_netFrame 0 101 _⟩⟩

/-- Two messages in three reads: the first one ends inside of the first header, the second one behind the second header. -/
theorem reassembled_two : Reassembled 0 (new .net 5) [netFrame 100 [7, 8] (by simp), netFrame 101 [9, 10] (by simp)]
    [(0, .data [2, 0, 0, 0, 100]), (0, .data [0, 0, 0, 7, 8, 2, 0, 0, 0, 101, 0, 0, 0, 9]), (1, .data [10])] := by
  refine (reassembled_iff (k := .net) (new .net 5) rfl rfl rfl _ _ (asked_of_length_le (by decide)) rfl).mpr ⟨?_, ?_⟩
  · rw [List.forall_mem_cons, List.forall_mem_singleton]
    exact ⟨⟨_, deal_netFrame 0 100 _⟩, ⟨_, deal_netFrame 0 101 _⟩⟩
  · decide

end ConnObj
end KcpServer
