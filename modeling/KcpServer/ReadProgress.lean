import KcpServer.Reassembly
import KcpServer.Lib.Transition

/-!
# Whether a connection can go on reading

A frame that is longer than the receive buffer never becomes complete: the parser returns before it looks at the limit
of 64 KiB, so the connection stays open with a full buffer, and every later `read` asks for no byte. `progress_iff` :
this is the only way for an accepted connection to get stuck.

* `parseLoop_full_iff` : when the parser leaves a full buffer full;
* `onRead_full_iff` : when a buffer is full after an `OnRead`.
-/

namespace KcpServer
open Lib

namespace ConnObj

/-! ## The parser -/

/-- The loop over a full buffer leaves it full exactly if the first frame is longer than the buffer. -/
theorem parseLoop_full_iff {k : ConnKind} {addr : Nat} {buf : Block RECV_BUFFER_SIZE} {out : ParseOut}
    (hout : parseLoop k.extra (k.deal addr) buf RECV_BUFFER_SIZE 0 = .ok out) :
    out.netOffset - out.readOffset = RECV_BUFFER_SIZE ↔ RECV_BUFFER_SIZE < k.header + leNat (buf.bytes.take 4) := by
  have hR : RECV_BUFFER_SIZE = 4096 := rfl
  have hsize := buf.size
  have hextra : k.extra ≤ 4 := by cases k <;> simp [ConnKind.extra]
  rw [ConnKind.header]
  rw [parseLoop, dif_neg (by omega), readLE_eq (by omega), ok_bind, slice_zero] at hout
  split at hout
  · next hlt =>
    cases hout
    apply iff_of_true
    · simp
    · omega
  · next hle =>
    rw [if_neg (by omega)] at hout
    obtain ⟨m, -, hout⟩ := bind_eq_ok.mp hout
    obtain ⟨out', hout', hout⟩ := bind_eq_ok.mp hout
    cases hout
    obtain ⟨-, hleft, -⟩ := parseLoop_left le_rfl hout'
    apply iff_of_false
    · simp only
      omega
    · omega

/-! ## One `OnRead` -/

theorem _onRead_quits {c c' : ConnObj} {r : ReadRes} {ret : Int} {quits : List Int} (hopen : c.bclose = false)
    (hasked : c.netOffset + r.bytes.length ≤ RECV_BUFFER_SIZE) (h : c._onRead r = .ok (c', ret, quits)) :
    c'.fd = c.fd ∧ (r.bytes ≠ [] → quits = []) := by
  have hR : RECV_BUFFER_SIZE = 4096 := rfl
  have hB : BUFFER_SIZE = 32768 := rfl
  unfold _onRead at h
  rw [if_neg (by simp [hopen])] at h
  cases r with
  | error =>
    cases h
    simp [ReadRes.bytes]
  | again =>
    cases h
    simp
  | data bs =>
    simp only [ReadRes.bytes] at hasked ⊢
    obtain ⟨m, -, h⟩ := bind_eq_ok.mp h
    dsimp only at h
    split at h
    · next hzero =>
      cases h
      simp [List.length_eq_zero_iff.mp hzero.1]
    · rw [if_pos (by omega)] at h
      cases h
      simp

theorem parseBuff_full_iff {c c' : ConnObj} {addr : Nat} {sec : Int} {parsed : Bool} {msgs : List Msg} {quits : List Int}
    (hn : c.netOffset ≤ RECV_BUFFER_SIZE) (h : c.parseBuff addr sec = .ok (parsed, c', msgs, quits)) :
    c'.fd = c.fd ∧ c'.kind = c.kind ∧ c'.bclose = c.bclose ∧ c'.netOffset ≤ RECV_BUFFER_SIZE ∧ quits = [] ∧
      (c'.netOffset - c'.readOffset = RECV_BUFFER_SIZE ↔ c.netOffset = RECV_BUFFER_SIZE ∧
        RECV_BUFFER_SIZE < c.kind.header + leNat (c.pending.take 4)) := by
  have hR : RECV_BUFFER_SIZE = 4096 := rfl
  unfold parseBuff at h
  split at h
  · next h0 =>
    cases h
    refine ⟨rfl, rfl, rfl, hn, rfl, ?_⟩
    omega
  · obtain ⟨out, hout, h⟩ := bind_eq_ok.mp h
    cases h
    obtain ⟨hquit, hleft, hoff⟩ := parseLoop_left hn hout
    refine ⟨rfl, rfl, rfl, le_trans hoff hn, by simp [hquit], ?_⟩
    by_cases hfull : c.netOffset = RECV_BUFFER_SIZE
    · rw [hfull] at hout
      rw [parseLoop_full_iff hout, pending, hfull, List.take_of_length_le (le_of_eq c.netBuffer.size)]
      simp
    · simp only [hfull, false_and, iff_false]
      omega

theorem onRead_full_iff {c : ConnObj} {addr : Nat} {sec : Int} {r : ReadRes} {out : ReadOut} (hopen : c.bclose = false)
    (hasked : c.netOffset + r.bytes.length ≤ RECV_BUFFER_SIZE) (hout : c.onRead addr sec r = .ok out) :
    out.conn.fd = c.fd ∧ out.conn.bclose = false ∧ out.conn.netOffset ≤ RECV_BUFFER_SIZE ∧
      (r.bytes ≠ [] → out.quits = []) ∧
      (out.conn.netOffset = RECV_BUFFER_SIZE ↔ c.netOffset + r.bytes.length = RECV_BUFFER_SIZE ∧
        RECV_BUFFER_SIZE < c.kind.header + leNat ((c.pending ++ r.bytes).take 4)) := by
  obtain ⟨c₁, ret, quits, hread, hkind₁, hopen₁, hoff₁, hpend₁⟩ := _onRead_spec hopen hasked
  obtain ⟨hfd₁, hquits₁⟩ := _onRead_quits hopen hasked hread
  rw [onRead, if_neg (by simp [hopen]), hread, ok_bind] at hout
  obtain ⟨⟨parsed, c₂, msgs, quits'⟩, hparse, hout⟩ := bind_eq_ok.mp hout
  obtain ⟨hfd₂, hkind₂, hopen₂, hn₂, hquits₂, hfull⟩ := parseBuff_full_iff (by omega) hparse
  obtain ⟨c₃, hreset, hout⟩ := bind_eq_ok.mp hout
  obtain ⟨hfd₃, hopen₃, hoff₃⟩ := resetBuffer_offset hreset
  cases hout
  rw [hkind₁, hpend₁, hoff₁] at hfull
  refine ⟨by rw [hfd₃, hfd₂, hfd₁], by rw [hopen₃, hopen₂, hopen₁, hopen], by simp only; omega, ?_, ?_⟩
  · intro hne
    simp [hquits₁ hne, hquits₂]
  · rw [hoff₃]
    exact hfull

/-- The buffer is full with the head of a frame that is longer than the buffer, and reads of no byte are not taken for
the end of the stream. -/
structure Stuck (c : ConnObj) : Prop where
  bclose : c.bclose = false
  full : c.netOffset = RECV_BUFFER_SIZE
  long : RECV_BUFFER_SIZE < c.kind.header + leNat (c.pending.take 4)
  chkReadZero : c.chkReadZero = false

/-- A full buffer asks for no byte and gets none; the `OnRead` changes nothing but the time of the last one. -/
theorem Stuck.onRead {c : ConnObj} (h : c.Stuck) (addr : Nat) (sec : Int) :
    c.onRead addr sec (.data []) = .ok ⟨{ c with lastSec := sec, readOffset := 0 }, 1, [], []⟩ := by
  have hR : RECV_BUFFER_SIZE = 4096 := rfl
  have hB : BUFFER_SIZE = 32768 := rfl
  have hsize := c.netBuffer.size
  have hfull := h.full
  have hextra : c.kind.extra ≤ 4 := by cases c.kind <;> simp [ConnKind.extra]
  have hpend : c.pending = c.netBuffer.bytes := by
    rw [pending, h.full, List.take_of_length_le (le_of_eq hsize)]
  have hlong := h.long
  rw [hpend, ConnKind.header] at hlong
  obtain ⟨m, hm, hbytes⟩ := c.netBuffer.memcpy_eq_ok c.netOffset [] (by simp [h.full])
  have hmeq : m = c.netBuffer := by
    apply Block.ext
    rw [hbytes, memcpy_nil]
  have hread : c._onRead (.data []) = .ok (c, 3, []) := by
    rw [_onRead, if_neg (by simp [h.bclose]), hm, hmeq, ok_bind]
    dsimp only
    rw [if_neg (by simp [h.chkReadZero]), if_pos (by simp only [h.full, List.length_nil]; omega)]
    rw [← h.chkReadZero]
    rfl
  have hloop : parseLoop c.kind.extra (c.kind.deal addr) c.netBuffer c.netOffset 0 =
      .ok ⟨c.netBuffer, c.netOffset, 0, [], false⟩ := by
    rw [parseLoop, dif_neg (by omega), readLE_eq (by omega), ok_bind, slice_zero, if_pos (by omega)]
    rfl
  obtain ⟨m', hm', hbytes'⟩ := c.netBuffer.memmove_eq_ok 0 0 c.netOffset (by omega) (by omega)
  have hmeq' : m' = c.netBuffer := by
    apply Block.ext
    rw [hbytes', memmove_self _ _ _ (by omega)]
  have hpos : c.netOffset ≠ 0 := by omega
  have hparse : c.parseBuff addr sec = .ok (true, { c with lastSec := sec, readOffset := 0 }, [], []) := by
    rw [parseBuff, if_neg hpos, hloop]
    rfl
  have hreset : ({ c with lastSec := sec, readOffset := 0 } : ConnObj).resetBuffer =
      .ok { c with lastSec := sec, readOffset := 0 } := by
    simp only [resetBuffer, Nat.le_zero, hpos, if_false, Nat.sub_zero, hm', hmeq', ok_bind]
    rfl
  rw [ConnObj.onRead, if_neg (by simp [h.bclose]), hread, ok_bind]
  dsimp only
  rw [hparse, ok_bind]
  dsimp only
  rw [hreset]
  rfl

/-- A connection that is stuck stays so: no later pass closes it, and it never times out. -/
theorem Stuck.stays {c : ConnObj} (h : c.Stuck) (sec : Int) :
    ({ c with lastSec := sec, readOffset := 0 } : ConnObj).Stuck :=
  ⟨h.bclose, h.full, h.long, h.chkReadZero⟩

end ConnObj

/-! ## Runs of reads -/

/-- A connection, and the descriptors for which its calls have queued a `QUIT_CONN`. -/
structure ReadWorld where
  conn : ConnObj
  quits : List Int

namespace ReadWorld

def step (addr : Nat) (w : ReadWorld) (o : Int × ReadRes) : Except Fault ReadWorld := do
  let out ← w.conn.onRead addr o.1 o.2
  return ⟨out.conn, w.quits ++ out.quits⟩

/-- The next read can make progress, or the connection is going to be closed. -/
def Progress (w : ReadWorld) : Prop := w.conn.netOffset < RECV_BUFFER_SIZE ∨ w.conn.fd ∈ w.quits

/-- A `read` delivers at most what it was asked for. -/
def Asked (w : ReadWorld) (o : Int × ReadRes) : Prop := w.conn.netOffset + o.2.bytes.length ≤ RECV_BUFFER_SIZE

/-- The connection is going to be closed, or the read does not fill the buffer with the head of a frame that is longer
than the buffer. -/
def Fits (w : ReadWorld) (o : Int × ReadRes) : Prop :=
  w.conn.fd ∈ w.quits ∨ ¬ (w.conn.netOffset + o.2.bytes.length = RECV_BUFFER_SIZE ∧
    RECV_BUFFER_SIZE < w.conn.kind.header + leNat ((w.conn.pending ++ o.2.bytes).take 4))

structure Inv (w : ReadWorld) : Prop where
  bclose : w.conn.bclose = false
  netOffset_le : w.conn.netOffset ≤ RECV_BUFFER_SIZE
  progress : w.Progress

/-- A read from a connection that can make progress: the connection can make progress exactly if the read fits. -/
theorem inv_step {addr : Nat} {w w' : ReadWorld} {o : Int × ReadRes} (h : w.Inv) (hasked : w.Asked o)
    (hs : w.step addr o = .ok w') : (w'.Progress ↔ w.Fits o) ∧ (w.Fits o → w'.Inv) := by
  obtain ⟨out, hout, hs⟩ := bind_eq_ok.mp hs
  cases hs
  obtain ⟨hfd, hopen, hle, hquits, hfull⟩ := ConnObj.onRead_full_iff h.bclose hasked hout
  have hiff : Progress ⟨out.conn, w.quits ++ out.quits⟩ ↔ w.Fits o := by
    simp only [Progress, Fits, hfd, List.mem_append]
    by_cases hq : w.conn.fd ∈ w.quits
    · simp [hq]
    · have hlt : w.conn.netOffset < RECV_BUFFER_SIZE := by
        apply h.progress.resolve_right
        exact hq
      simp only [hq, false_or]
      rw [← hfull]
      constructor
      · rintro (hlt' | hq')
        · omega
        · -- a `QUIT_CONN` is queued by a read without bytes
          intro heq
          have hne : o.2.bytes ≠ [] := by
            intro hnil
            have := (hfull.mp heq).1
            rw [hnil, List.length_nil] at this
            omega
          simp [hquits hne] at hq'
      · intro hne
        left
        omega
  exact ⟨hiff, fun hf => ⟨hopen, hle, hiff.mpr hf⟩⟩

/-- **When a connection can get stuck.** A connection that starts with an empty buffer can make progress or is going to
be closed after every read, as long as no read fills the buffer with the head of a frame that is longer than the buffer;
and the first read that does leaves it open with a full buffer. -/
theorem progress_iff {addr : Nat} {c : ConnObj} (hopen : c.bclose = false) (hempty : c.netOffset = 0) {w : ReadWorld}
    (h : Reach (step addr) (fun w o => w.Asked o ∧ w.Fits o) ⟨c, []⟩ w) :
    w.Progress ∧ ∀ o w', w.Asked o → w.step addr o = .ok w' → (w'.Progress ↔ w.Fits o) := by
  have hR : RECV_BUFFER_SIZE = 4096 := rfl
  have hinv : w.Inv := by
    apply h.invariant
    · refine ⟨hopen, ?_, Or.inl ?_⟩
      · simp only [hempty]
        omega
      · simp only [hempty]
        omega
    · intro w o w' hw hp hs
      exact (inv_step hw hp.1 hs).2 hp.2
  refine ⟨hinv.progress, ?_⟩
  intro o w' hasked hs
  exact (inv_step hinv hasked hs).1

/-- **A stuck connection stays open and never makes progress again**, whatever arrives. -/
theorem stuck_reach {addr : Nat} {w₀ w : ReadWorld} (h₀ : w₀.conn.Stuck) (hq : w₀.conn.fd ∉ w₀.quits)
    (h : Reach (step addr) (fun _ o => o.2 = .data []) w₀ w) : w.conn.Stuck ∧ ¬ w.Progress := by
  have hinv : w.conn.Stuck ∧ w.conn.fd ∉ w.quits := by
    apply h.invariant (I := fun w => w.conn.Stuck ∧ w.conn.fd ∉ w.quits) ⟨h₀, hq⟩
    rintro w ⟨sec, r⟩ w' ⟨hstuck, hq⟩ rfl hs
    rw [step, hstuck.onRead addr sec] at hs
    cases hs
    exact ⟨hstuck.stays sec, by simpa using hq⟩
  refine ⟨hinv.1, ?_⟩
  rintro (hlt | hq)
  · rw [hinv.1.full] at hlt
    exact lt_irrefl _ hlt
  · exact hinv.2 hq

/-- The head of a client's frame: its length word and `n` more bytes. -/
def longHead (size n : Nat) : Bytes := le 4 size ++ List.replicate n 0

theorem length_longHead (size n : Nat) : (longHead size n).length = 4 + n := by
  simp [longHead]

theorem longHead_incomplete {size n : Nat} (hsize : size < 2 ^ 32) (hn : n < size + 4) :
    ConnKind.net.framing.Incomplete (longHead size n) := by
  intro m hm
  have hword : leNat ((longHead size n).take 4) = size := by
    rw [longHead, List.take_left' (length_le 4 size), leNat_le_of_lt (by simpa using hsize)]
  rw [length_longHead]
  by_cases hle : ConnKind.net.extra + 4 ≤ (longHead size n).length
  · rw [ConnKind.framing, lenPrefixed_size hle, hword] at hm
    cases hm
    simp only [ConnKind.extra]
    omega
  · rw [ConnKind.framing, lenPrefixed_size_of_lt (by omega)] at hm
    cases hm

/-- A client declares a body of 4089 bytes: its connection is left open with a full buffer. -/
theorem not_progress : ∃ w, Reach (step 0) (fun w o => w.Asked o) ⟨.new .net 5, []⟩ w ∧ ¬ w.Progress := by
  have hR : RECV_BUFFER_SIZE = 4096 := rfl
  obtain ⟨s, hs, hinc⟩ : ∃ s : Bytes, s.length = RECV_BUFFER_SIZE ∧ ConnKind.net.framing.Incomplete s :=
    ⟨longHead 4089 4092, length_longHead _ _, longHead_incomplete (by decide) (by decide)⟩
  have hne : s ≠ [] := by
    rintro rfl
    simp [hR] at hs
  have hasked : (ConnObj.new .net 5).netOffset + (ReadRes.data s).bytes.length ≤ RECV_BUFFER_SIZE := by
    simp [ReadRes.bytes, hs, ConnObj.new]
  obtain ⟨out, hout, -, -, -, hoff, hpend⟩ := ConnObj.onRead_spec (c := .new .net 5) rfl rfl
    (hold_nil 0) hinc hasked rfl 0
  obtain ⟨-, -, -, hquits, -⟩ := ConnObj.onRead_full_iff rfl hasked hout
  rw [if_neg (fun h => h.1 rfl)] at hpend
  refine ⟨⟨out.conn, [] ++ out.quits⟩, Reach.refl.step (P := fun w o => Asked w o) (o := ((0 : Int), .data s)) hasked ?_, ?_⟩
  · simp only [step, hout]
    rfl
  · rintro (hlt | hq)
    · simp only [hoff, hpend, hs] at hlt
      exact lt_irrefl _ hlt
    · simp [hquits hne] at hq

/-- The longest message that fits comes in two reads, the second of which fills the buffer. -/
theorem progress_long : ∃ w o w', Reach (step 0) (fun w o => w.Asked o ∧ w.Fits o) ⟨.new .net 5, []⟩ w ∧
    w.conn.netOffset = 2004 ∧ w.Progress ∧ w.conn.netOffset + o.2.bytes.length = RECV_BUFFER_SIZE ∧
    w.step 0 o = .ok w' ∧ w'.Progress := by
  have hR : RECV_BUFFER_SIZE = 4096 := rfl
  obtain ⟨body, hbody⟩ : ∃ body : Bytes, body.length = 4088 := ⟨List.replicate 4088 0, List.length_replicate⟩
  obtain ⟨f, msg, hmsg, hlen⟩ : ∃ (f : Frame .net) (msg : Msg), f.deal 0 = .ok msg ∧ f.bytes.length = 4096 :=
    ⟨netFrame 100 body hbody.le, _, deal_netFrame 0 100 _, by simp [netFrame, hbody]⟩
  obtain ⟨head, tail, hf, hhead⟩ : ∃ head tail, head ++ tail = f.bytes ∧ head.length = 2004 :=
    ⟨f.bytes.take 2004, f.bytes.drop 2004, List.take_append_drop _ _, by rw [List.length_take, hlen]; rfl⟩
  have hlens := congrArg List.length hf
  rw [List.length_append, hlen, hhead] at hlens
  have hinc : ConnKind.net.framing.Incomplete head := f.isFrame.incomplete_of_append _ hf (by rintro rfl; simp at hlens)
  have hasked : Asked ⟨.new .net 5, []⟩ (0, .data head) := by
    simp only [Asked, ConnObj.new, ReadRes.bytes]
    omega
  obtain ⟨out, hout, -, hkind, hopen, hoff, hpend⟩ := ConnObj.onRead_spec (k := .net) (c := .new .net 5) rfl rfl
    (hold_nil 0) hinc hasked rfl 0
  rw [if_neg (fun h => h.1 rfl)] at hpend
  rw [hpend, hhead] at hoff
  have hfits : Fits ⟨.new .net 5, []⟩ (0, .data head) := by
    refine .inr fun h => ?_
    simp only [ConnObj.new, ReadRes.bytes] at h
    omega
  have hfirst : step 0 ⟨.new .net 5, []⟩ (0, .data head) = .ok ⟨out.conn, [] ++ out.quits⟩ := by
    simp only [step, hout]
    rfl
  have hreach := Reach.refl.step (P := fun w o => Asked w o ∧ Fits w o) ⟨hasked, hfits⟩ hfirst
  -- the rest of the message
  have hasked' : out.conn.netOffset + (ReadRes.data tail).bytes.length = RECV_BUFFER_SIZE := by
    simp only [ReadRes.bytes]
    omega
  obtain ⟨out', hout', -⟩ := ConnObj.onRead_spec hkind hopen (.cons hmsg .nil)
    (lenPrefixed_incomplete_of_lt (s := []) (by decide)) (r := .data tail) hasked'.le
    (by rw [hpend, List.append_nil, stream_cons, stream_nil, List.append_nil]; exact hf) 0
  have hstep : step 0 ⟨out.conn, [] ++ out.quits⟩ (0, .data tail) = .ok ⟨out'.conn, [] ++ out.quits ++ out'.quits⟩ := by
    simp only [step, hout']
    rfl
  have hfits' : Fits ⟨out.conn, [] ++ out.quits⟩ (0, .data tail) := by
    refine .inr fun h => ?_
    have hword := f.length_eq
    simp only [hpend, ReadRes.bytes, hf, hkind] at h
    omega
  obtain ⟨hprogress, hnext⟩ := progress_iff rfl rfl hreach
  have hnext := hnext (0, .data tail) _ (show Asked _ _ from hasked'.le) hstep
  exact ⟨_, (0, .data tail), _, hreach, hoff, hprogress, hasked', hstep, hnext.mpr hfits'⟩

end ReadWorld

end KcpServer
