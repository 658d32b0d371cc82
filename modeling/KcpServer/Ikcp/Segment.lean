import KcpServer.Lib.Memory
import KcpServer.Lib.Serial

/-!
# Segments

What `ikcp` puts into a datagram: segments one behind the other, each a header of 24 bytes and `len` bytes of data.

* `encodeSeg`, `decodeHeader` : the header, as `ikcp_flush` writes it and `ikcp_input` reads it;
* `decodeHeader_encodeSeg` : what is read of a segment that has been written, which is all of it but for the upper bits
  of command, fragment and window.
-/

namespace KcpServer.Ikcp
open Lib

def IKCP_RTO_NDL : Int := 30
def IKCP_RTO_MIN : Int := 100
def IKCP_RTO_DEF : Int := 200
def IKCP_RTO_MAX : UInt32 := 60000
def IKCP_CMD_PUSH : UInt32 := 81
def IKCP_CMD_ACK : UInt32 := 82
def IKCP_CMD_WASK : UInt32 := 83
def IKCP_CMD_WINS : UInt32 := 84
def IKCP_ASK_SEND : UInt32 := 1
def IKCP_ASK_TELL : UInt32 := 2
def IKCP_WND_SND : UInt32 := 32
def IKCP_WND_RCV : UInt32 := 32
def IKCP_MTU_DEF : UInt32 := 1400
def IKCP_INTERVAL : UInt32 := 100
def IKCP_OVERHEAD : Nat := 24
def IKCP_DEADLINK : UInt32 := 20
def IKCP_THRESH_INIT : UInt32 := 2
def IKCP_THRESH_MIN : UInt32 := 2
def IKCP_PROBE_INIT : UInt32 := 7000
def IKCP_PROBE_LIMIT : UInt32 := 120000

/-- The commands that `ikcp_input` knows. -/
def KnownCmd (cmd : UInt32) : Prop :=
  cmd = IKCP_CMD_PUSH ∨ cmd = IKCP_CMD_ACK ∨ cmd = IKCP_CMD_WASK ∨ cmd = IKCP_CMD_WINS

instance : DecidablePred KnownCmd := fun _ => inferInstanceAs (Decidable (_ ∨ _))

abbrev itimediff (later earlier : UInt32) : Int := serialDiff later earlier

/-- `IKCPSEG`; `len` is the length of the data. A field that has not been set is 0 here, and none is read before it is
set. -/
structure IKCPSEG where
  conv : UInt32 := 0
  cmd : UInt32 := 0
  frg : UInt32 := 0
  wnd : UInt32 := 0
  ts : UInt32 := 0
  sn : UInt32 := 0
  una : UInt32 := 0
  resendts : UInt32 := 0
  rto : UInt32 := 0
  fastack : UInt32 := 0
  xmit : UInt32 := 0
  data : Bytes := []
  deriving DecidableEq

namespace IKCPSEG

def len (s : IKCPSEG) : UInt32 := UInt32.ofNat s.data.length

/-- `ikcp_encode_seg` -/
def encodeSeg (s : IKCPSEG) : Bytes :=
  le 4 s.conv.toNat ++ le 1 s.cmd.toNat ++ le 1 s.frg.toNat ++ le 2 s.wnd.toNat ++ le 4 s.ts.toNat ++ le 4 s.sn.toNat ++
    le 4 s.una.toNat ++ le 4 s.len.toNat

def bytes (s : IKCPSEG) : Bytes := s.encodeSeg ++ s.data

@[simp] theorem length_encodeSeg (s : IKCPSEG) : s.encodeSeg.length = 24 := by simp [encodeSeg]

theorem length_bytes (s : IKCPSEG) : s.bytes.length = 24 + s.data.length := by simp [bytes]

/-- What a segment says: the part of the message that it carries. -/
def frag (s : IKCPSEG) : UInt32 × Bytes := (s.frg, s.data)

end IKCPSEG

/-- A header, as `ikcp_input` reads it. -/
structure SegHeader where
  conv : UInt32
  cmd : UInt32
  frg : UInt32
  wnd : UInt32
  ts : UInt32
  sn : UInt32
  una : UInt32
  len : UInt32
  deriving DecidableEq

/-- `ikcp_decode8u`, `ikcp_decode16u`, `ikcp_decode32u` at an offset of the datagram. -/
def decodeU (w : Nat) (data : Bytes) (off : Nat) : Except Fault UInt32 := UInt32.ofNat <$> readLE w data off

def decodeHeader (data : Bytes) : Except Fault SegHeader := do
  let conv ← decodeU 4 data 0
  let cmd ← decodeU 1 data 4
  let frg ← decodeU 1 data 5
  let wnd ← decodeU 2 data 6
  let ts ← decodeU 4 data 8
  let sn ← decodeU 4 data 12
  let una ← decodeU 4 data 16
  let len ← decodeU 4 data 20
  return ⟨conv, cmd, frg, wnd, ts, sn, una, len⟩

theorem decodeU_eq (w : Nat) (data : Bytes) (off : Nat) (h : off + w ≤ data.length) :
    decodeU w data off = .ok (UInt32.ofNat (leNat (slice data off w))) := by
  rw [decodeU, readLE_eq h]
  rfl

theorem decodeHeader_ok {data : Bytes} (h : 24 ≤ data.length) : ∃ hd, decodeHeader data = .ok hd := by
  simp only [decodeHeader, decodeU_eq 4 data 0 (by omega), decodeU_eq 1 data 4 (by omega), decodeU_eq 1 data 5 (by omega),
    decodeU_eq 2 data 6 (by omega), decodeU_eq 4 data 8 (by omega), decodeU_eq 4 data 12 (by omega),
    decodeU_eq 4 data 16 (by omega), decodeU_eq 4 data 20 (by omega), ok_bind]
  exact ⟨_, rfl⟩

def IKCPSEG.header (s : IKCPSEG) : SegHeader :=
  ⟨s.conv, s.cmd % 256, s.frg % 256, s.wnd % 65536, s.ts, s.sn, s.una, s.len⟩

theorem decodeU_le {m : Bytes} {p q w : Nat} {x : UInt32} (h : HasAt m p (le w x.toNat)) (hq : q = p) :
    decodeU w m q = .ok (UInt32.ofNat (x.toNat % 256 ^ w)) := by
  rw [decodeU, readLE, h.readAt hq (length_le w _).symm, ← leNat_le]
  rfl

theorem ofNat_mod_word (x : UInt32) : UInt32.ofNat (x.toNat % 256 ^ 4) = x := by
  rw [Nat.mod_eq_of_lt (show x.toNat < 256 ^ 4 from x.toNat_lt)]
  exact UInt32.ofNat_toNat

/-- A header that has been written is read back. -/
theorem decodeHeader_encodeSeg {s : IKCPSEG} {data : Bytes} (h : HasAt data 0 s.encodeSeg) :
    decodeHeader data = .ok s.header := by
  simp only [IKCPSEG.encodeSeg, hasAt_append, List.length_append, length_le] at h
  obtain ⟨⟨⟨⟨⟨⟨⟨hconv, hcmd⟩, hfrg⟩, hwnd⟩, hts⟩, hsn⟩, huna⟩, hlen⟩ := h
  rw [decodeHeader, decodeU_le hconv rfl, ok_bind, decodeU_le hcmd rfl, ok_bind, decodeU_le hfrg rfl, ok_bind,
    decodeU_le hwnd rfl, ok_bind, decodeU_le hts rfl, ok_bind, decodeU_le hsn rfl, ok_bind, decodeU_le huna rfl, ok_bind,
    decodeU_le hlen rfl, ok_bind]
  simp only [ofNat_mod_word]
  have hcmd : UInt32.ofNat (s.cmd.toNat % 256 ^ 1) = s.cmd % 256 := by
    rw [← UInt32.toNat_inj]; simp; omega
  have hfrg : UInt32.ofNat (s.frg.toNat % 256 ^ 1) = s.frg % 256 := by
    rw [← UInt32.toNat_inj]; simp; omega
  have hwnd : UInt32.ofNat (s.wnd.toNat % 256 ^ 2) = s.wnd % 65536 := by
    rw [← UInt32.toNat_inj]; simp; omega
  rw [hcmd, hfrg, hwnd]
  rfl

end KcpServer.Ikcp
