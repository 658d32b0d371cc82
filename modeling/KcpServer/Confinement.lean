import KcpServer.Conn
import KcpServer.Tcp.Deal

/-!
# What `decodeBuffer` reads

The lengths inside of a record are not compared with the length in front of it. `decodeBuffer_confined_iff` : a frame
that `connRpcObj::parseBuff` or `tcpclient::dealReadBuffer` hands on is decoded from its own bytes exactly if the inner
lengths end within it, or its type byte stops the decoder.

* `decodeBuffer_ok`, `decodeBuffer_error` : how far a decoder that returns, or fails, has read;
* `exists_disagree` : two memories that hold a frame which ends too early and are decoded differently;
* `parseLoop_congr`, `dealReadLoop_congr` : the two callers use the decoder on the frames of `Hands` only.
-/

namespace KcpServer
open Lib

namespace RpcObj

/-! ## The inner lengths -/

section Layout
variable (f : Bytes)

def wordAt (w q : Nat) : Nat := leNat (slice f q w)

def lenAt : Nat := wordAt f 1 (4 + 1)

def lenTarAt : Nat := wordAt f 1 (4 + 2 + lenAt f)

def lenPaAt : Nat := wordAt f 1 (4 + 3 + lenAt f + lenTarAt f)

def lenResAt : Nat := wordAt f 1 (4 + 4 + lenAt f + lenTarAt f + lenPaAt f)

def pidAt : Nat := 4 + 5 + lenAt f + lenTarAt f + lenPaAt f + lenResAt f

def bodyLenAt : Nat := wordAt f 4 (pidAt f + 8 + 4)

/-- Where the record ends by its inner lengths. -/
def recordEnd : Nat := pidAt f + 8 + 4 + 4 + bodyLenAt f

/-- The record ends within its frame, or the type byte fails the assertion before anything else is read. -/
def Fits : Prop := wordAt f 1 4 ≠ 0 ∨ recordEnd f ≤ f.length

end Layout

section Words
variable {f m m' : Bytes} {k : Nat}

theorem wordAt_lt (f : Bytes) (w q : Nat) : wordAt f w q < 256 ^ w := by
  have hlen : (slice f q w).length ≤ w := List.length_take_le w _
  calc leNat (slice f q w) < 256 ^ (slice f q w).length := leNat_lt _
    _ ≤ 256 ^ w := Nat.pow_le_pow_right (by decide) hlen

theorem wordAt_of_length_le {q : Nat} (w : Nat) (h : f.length ≤ q) : wordAt f w q = 0 := by
  have hnil : slice f q w = [] := by
    unfold slice
    rw [List.drop_eq_nil_of_le h, List.take_nil]
  rw [wordAt, hnil, leNat]

theorem wordAt_append_zeros (f : Bytes) (k w q : Nat) : wordAt (f ++ List.replicate k 0) w q = wordAt f w q := by
  obtain ⟨j, hj⟩ := slice_append_replicate f k 0 q w
  unfold wordAt
  rw [hj, leNat_append_zeros]

theorem pidAt_append_zeros (f : Bytes) (k : Nat) : pidAt (f ++ List.replicate k 0) = pidAt f := by
  simp only [pidAt, lenAt, lenTarAt, lenPaAt, lenResAt, wordAt_append_zeros]

theorem recordEnd_append_zeros (f : Bytes) (k : Nat) : recordEnd (f ++ List.replicate k 0) = recordEnd f := by
  simp only [recordEnd, bodyLenAt, pidAt_append_zeros, wordAt_append_zeros]

theorem wordAt_append {a : Bytes} (b : Bytes) {w q : Nat} (h : q + w ≤ a.length) :
    wordAt (a ++ b) w q = wordAt a w q := by
  unfold wordAt
  rw [slice_append_left a b h]

/-- The strings of a record are found by the bytes in front of the pid. -/
theorem pidAt_append {a : Bytes} (b : Bytes) (h : pidAt a ≤ a.length) : pidAt (a ++ b) = pidAt a := by
  unfold pidAt at h
  have hlen : lenAt (a ++ b) = lenAt a := wordAt_append b (by omega)
  have htar : lenTarAt (a ++ b) = lenTarAt a := by
    unfold lenTarAt
    rw [hlen]
    exact wordAt_append b (by omega)
  have hpa : lenPaAt (a ++ b) = lenPaAt a := by
    unfold lenPaAt
    rw [hlen, htar]
    exact wordAt_append b (by omega)
  have hres : lenResAt (a ++ b) = lenResAt a := by
    unfold lenResAt
    rw [hlen, htar, hpa]
    exact wordAt_append b (by omega)
  unfold pidAt
  rw [hlen, htar, hpa, hres]

end Words

/-! ## How far the decoder reads -/

section Reads
variable {o r : RpcObj} {m : Bytes} {addr : Nat}

theorem decodeBuffer_ok (h : o.decodeBuffer m 0 addr = .ok r) :
    wordAt m 1 4 = 0 ∧ recordEnd m ≤ m.length ∧ r.body = slice m (pidAt m + 8 + 4 + 4) (bodyLenAt m) := by
  obtain ⟨msgType, hty, h⟩ := bind_eq_ok.mp h
  obtain ⟨_, hassert, h⟩ := bind_eq_ok.mp h
  obtain ⟨len, hlen, h⟩ := bind_eq_ok.mp h
  obtain ⟨_, -, h⟩ := bind_eq_ok.mp h
  obtain ⟨key, -, h⟩ := bind_eq_ok.mp h
  obtain ⟨lenTar, htar, h⟩ := bind_eq_ok.mp h
  obtain ⟨_, -, h⟩ := bind_eq_ok.mp h
  obtain ⟨target, -, h⟩ := bind_eq_ok.mp h
  obtain ⟨lenPa, hpa, h⟩ := bind_eq_ok.mp h
  obtain ⟨_, -, h⟩ := bind_eq_ok.mp h
  obtain ⟨param, -, h⟩ := bind_eq_ok.mp h
  obtain ⟨lenRes, hres, h⟩ := bind_eq_ok.mp h
  obtain ⟨_, -, h⟩ := bind_eq_ok.mp h
  obtain ⟨result, -, h⟩ := bind_eq_ok.mp h
  obtain ⟨pid, -, h⟩ := bind_eq_ok.mp h
  obtain ⟨msgid, -, h⟩ := bind_eq_ok.mp h
  obtain ⟨bodyLen, hbl, h⟩ := bind_eq_ok.mp h
  have htype : msgType = wordAt m 1 4 := (readLE_ok hty).2
  obtain rfl : len = lenAt m := (readLE_ok hlen).2
  obtain rfl : lenTar = lenTarAt m := (readLE_ok htar).2
  obtain rfl : lenPa = lenPaAt m := (readLE_ok hpa).2
  obtain rfl : lenRes = lenResAt m := (readLE_ok hres).2
  obtain ⟨hle, rfl⟩ : pidAt m + 8 + 4 + 4 ≤ m.length ∧ bodyLen = bodyLenAt m := readLE_ok hbl
  refine ⟨htype.symm.trans (of_decide_eq_true (assert_eq_ok.mp hassert)), ?_⟩
  by_cases h0 : bodyLenAt m = 0
  · rw [if_pos h0] at h
    cases h
    refine ⟨by unfold recordEnd; omega, ?_⟩
    rw [h0]
    unfold RpcObj.body
    split <;> rfl
  · rw [if_neg h0] at h
    obtain ⟨bytes, hbytes, h⟩ := bind_eq_ok.mp h
    obtain ⟨hend, rfl⟩ : pidAt m + 8 + 4 + 4 + bodyLenAt m ≤ m.length ∧
      bytes = slice m (pidAt m + 8 + 4 + 4) (bodyLenAt m) := readAt_ok hbytes
    refine ⟨hend, ?_⟩
    have hsize := length_slice m hend
    split at h
    · cases h
      show (slice m _ (bodyLenAt m)).take (bodyLenAt m) = slice m _ (bodyLenAt m)
      exact List.take_of_length_le (by omega)
    · obtain ⟨buff, hbuff, h⟩ := bind_eq_ok.mp h
      cases h
      show buff.bytes.take (bodyLenAt m) = slice m (pidAt m + 8 + 4 + 4) (bodyLenAt m)
      obtain ⟨buff', hbuff', hbytes'⟩ := o.buff.memcpy_eq_ok 0 (slice m (pidAt m + 8 + 4 + 4) (bodyLenAt m))
        (by omega)
      cases hbuff.symm.trans hbuff'
      have hfront := take_memcpy_zero o.buff.bytes (slice m (pidAt m + 8 + 4 + 4) (bodyLenAt m))
      rw [hsize] at hfront
      rw [hbytes', hfront]

/-- What is copied into an array of the object fits: its length is one byte. -/
theorem memcpy_wordAt {n : Nat} {b : Block n} {f : Bytes} {q p : Nat} {e : Fault} (hn : 256 ≤ n)
    (h : b.memcpy 0 (slice m p (wordAt f 1 q)) = .error e) : False := by
  have hlt : wordAt f 1 q < 256 := wordAt_lt f 1 q
  have hlen : (slice m p (wordAt f 1 q)).length ≤ wordAt f 1 q := List.length_take_le _ _
  obtain ⟨b', hb', -⟩ := b.memcpy_eq_ok 0 (slice m p (wordAt f 1 q)) (by omega)
  cases h.symm.trans hb'

/-- The faults of a decoder: it has left the record's bytes, or has been stopped by the type byte. -/
def FailsWith (m : Bytes) (e : Fault) : Prop :=
  e = .bounds ∧ wordAt m 1 4 = 0 ∧ m.length < recordEnd m ∨ e = .assertion ∧ wordAt m 1 4 ≠ 0

theorem decodeBuffer_error {e : Fault} (h : o.decodeBuffer m 0 addr = .error e) : FailsWith m e := by
  have hend : pidAt m + 8 + 4 + 4 ≤ recordEnd m := Nat.le_add_right _ _
  have hpid : 4 + 5 + lenAt m + lenTarAt m + lenPaAt m + lenResAt m = pidAt m := rfl
  refine of_bind_error h (fun e he => ?_) fun msgType hty e h => ?_
  · obtain ⟨rfl, hlt⟩ := readLE_error he
    exact .inl ⟨rfl, wordAt_of_length_le 1 (by omega), by omega⟩
  have htype : msgType = wordAt m 1 4 := (readLE_ok hty).2
  by_cases hzero : wordAt m 1 4 = 0
  swap
  · have hfalse : decide (msgType = 0) = false := decide_eq_false (htype ▸ hzero)
    rw [hfalse] at h
    cases h
    exact .inr ⟨rfl, hzero⟩
  -- from here on every fault is a read behind the end
  have hstop : ∀ {q w : Nat} {e : Fault}, e = .bounds ∧ m.length < q + w → q + w ≤ recordEnd m → FailsWith m e :=
    fun h hq => .inl ⟨h.1, hzero, lt_of_lt_of_le h.2 hq⟩
  refine of_bind_error h (fun e he => ?_) fun _ _ e h => ?_
  · rw [htype, hzero] at he
    cases he
  refine of_bind_error h (fun e he => hstop (readLE_error he) (by omega)) fun len hlen e h => ?_
  obtain rfl : len = lenAt m := (readLE_ok hlen).2
  refine of_bind_error h (fun e he => hstop (readAt_error he) (by omega)) fun bs hbs e h => ?_
  obtain rfl := (readAt_ok hbs).2
  refine of_bind_error h (fun e he => (memcpy_wordAt (by decide) he).elim) fun key _ e h => ?_
  refine of_bind_error h (fun e he => hstop (readLE_error he) (by omega)) fun lenTar htar e h => ?_
  obtain rfl : lenTar = lenTarAt m := (readLE_ok htar).2
  refine of_bind_error h (fun e he => hstop (readAt_error he) (by omega)) fun bs hbs e h => ?_
  obtain rfl := (readAt_ok hbs).2
  refine of_bind_error h (fun e he => (memcpy_wordAt (by decide) he).elim) fun target _ e h => ?_
  refine of_bind_error h (fun e he => hstop (readLE_error he) (by omega)) fun lenPa hpa e h => ?_
  obtain rfl : lenPa = lenPaAt m := (readLE_ok hpa).2
  refine of_bind_error h (fun e he => hstop (readAt_error he) (by omega)) fun bs hbs e h => ?_
  obtain rfl := (readAt_ok hbs).2
  refine of_bind_error h (fun e he => (memcpy_wordAt (by decide) he).elim) fun param _ e h => ?_
  refine of_bind_error h (fun e he => hstop (readLE_error he) (by omega)) fun lenRes hres e h => ?_
  obtain rfl : lenRes = lenResAt m := (readLE_ok hres).2
  refine of_bind_error h (fun e he => hstop (readAt_error he) (by omega)) fun bs hbs e h => ?_
  obtain rfl := (readAt_ok hbs).2
  refine of_bind_error h (fun e he => (memcpy_wordAt (by decide) he).elim) fun result _ e h => ?_
  refine of_bind_error h (fun e he => hstop (readLE_error he) (by omega)) fun pid _ e h => ?_
  refine of_bind_error h (fun e he => hstop (readLE_error he) (by omega)) fun msgid _ e h => ?_
  refine of_bind_error h (fun e he => hstop (readLE_error he) (by omega)) fun bodyLen hbl e h => ?_
  obtain rfl : bodyLen = bodyLenAt m := (readLE_ok hbl).2
  by_cases h0 : bodyLenAt m = 0
  · rw [if_pos h0] at h
    cases h
  · rw [if_neg h0] at h
    refine of_bind_error h (fun e he => hstop (readAt_error he) le_rfl) fun bytes hbytes e h => ?_
    obtain ⟨hle, rfl⟩ : pidAt m + 8 + 4 + 4 + bodyLenAt m ≤ m.length ∧
      bytes = slice m (pidAt m + 8 + 4 + 4) (bodyLenAt m) := readAt_ok hbytes
    split at h
    · cases h
    · have hsize := length_slice m hle
      obtain ⟨buff, hbuff, -⟩ := o.buff.memcpy_eq_ok 0 (slice m (pidAt m + 8 + 4 + 4) (bodyLenAt m)) (by omega)
      refine of_bind_error h (fun e he => ?_) fun _ _ e h => ?_
      · cases he.symm.trans hbuff
      · cases h

theorem exists_decodeBuffer (hty : wordAt m 1 4 = 0) (hend : recordEnd m ≤ m.length) (o : RpcObj) (addr : Nat) :
    ∃ r, o.decodeBuffer m 0 addr = .ok r := by
  cases hdec : o.decodeBuffer m 0 addr with
  | ok r => exact ⟨r, rfl⟩
  | error e =>
    rcases decodeBuffer_error hdec with ⟨-, -, hlt⟩ | ⟨-, hne⟩
    · omega
    · exact absurd hty hne

theorem decodeBuffer_ne_bounds_iff : o.decodeBuffer m 0 addr ≠ .error .bounds ↔ Fits m := by
  constructor
  · intro h
    cases hdec : o.decodeBuffer m 0 addr with
    | ok r => exact .inr (decodeBuffer_ok hdec).2.1
    | error e =>
      rcases decodeBuffer_error hdec with ⟨rfl, -⟩ | ⟨-, hne⟩
      · exact absurd hdec h
      · exact .inl hne
  · intro hfits h
    rcases decodeBuffer_error h with ⟨-, hty, hlt⟩ | ⟨hbad, -⟩
    · rcases hfits with hne | hend
      · exact hne hty
      · omega
    · cases hbad

theorem readLE_type (hty : wordAt m 1 4 ≠ 0) : readLE 1 m 4 = .ok (wordAt m 1 4) := by
  apply readLE_eq
  by_contra hlt
  exact hty (wordAt_of_length_le 1 (by omega))

theorem decodeBuffer_assertion {p v : Nat} (hty : readLE 1 m (p + 4) = .ok v) (hv : v ≠ 0) :
    o.decodeBuffer m p addr = .error .assertion := by
  have hfalse : decide (v = 0) = false := decide_eq_false hv
  unfold decodeBuffer
  dsimp only
  rw [hty, ok_bind, hfalse]
  rfl

end Reads

/-! ## Memories that agree on a frame -/

/-- What a handler gets of a decoded record: the strings, the ids and the body. -/
def fields (o : RpcObj) : Bytes × Bytes × Bytes × Nat × Nat × Bytes :=
  (o.target.bytes, o.param.bytes, o.result.bytes, o.pid, o.msgid, o.body)

/-- Decoding the `k` bytes at `p` finds every byte that it looks for among them. -/
def ReadsOnly (m : Bytes) (p k : Nat) : Prop :=
  ∀ (o : RpcObj) addr, o.decodeBuffer (slice m p k) 0 addr ≠ .error .bounds ∧
    o.decodeBuffer m p addr = o.decodeBuffer (slice m p k) 0 addr

/-- Memories in which the frame `f` stands at `p` are decoded the same. -/
def SameDecoding (p : Nat) (f : Bytes) : Prop :=
  ∀ (o : RpcObj) addr m m', HasAt m p f → HasAt m' p f → ∀ r r',
    o.decodeBuffer m p addr = .ok r → o.decodeBuffer m' p addr = .ok r' → r.fields = r'.fields

section Frames
variable {f m : Bytes} {p k : Nat}

theorem readsOnly_iff (hp : p ≤ m.length) : ReadsOnly m p k ↔ Fits (slice m p k) := by
  refine ⟨fun h => decodeBuffer_ne_bounds_iff.mp (h .new 0).1, fun hfits o addr => ?_⟩
  have hne : o.decodeBuffer (slice m p k) 0 addr ≠ .error .bounds := decodeBuffer_ne_bounds_iff.mpr hfits
  have hat : HasAt m p (slice m p k) := hasAt_slice hp
  refine ⟨hne, ?_⟩
  cases hdec : o.decodeBuffer (slice m p k) 0 addr with
  | ok r => exact decodeBuffer_of_hasAt hat hdec
  | error e =>
    rcases decodeBuffer_error hdec with ⟨rfl, -⟩ | ⟨rfl, hty⟩
    · exact absurd hdec hne
    · -- the type byte is one of the frame's, so it is read from the buffer just so
      exact decodeBuffer_assertion (hat.readLE_of (readLE_type hty) rfl) hty

theorem sameDecoding_of_fits (hfits : Fits f) : SameDecoding p f := by
  intro o addr m m' hm hm' r r' hr hr'
  cases hdec : o.decodeBuffer f 0 addr with
  | ok r₀ =>
    obtain rfl : r₀ = r := Except.ok.inj ((decodeBuffer_of_hasAt hm hdec).symm.trans hr)
    obtain rfl : r₀ = r' := Except.ok.inj ((decodeBuffer_of_hasAt hm' hdec).symm.trans hr')
    rfl
  | error e =>
    -- the type byte stops the decoder in both memories
    exfalso
    rcases decodeBuffer_error hdec with ⟨rfl, -⟩ | ⟨-, hty⟩
    · exact decodeBuffer_ne_bounds_iff.mpr hfits hdec
    · cases (decodeBuffer_assertion (hm.readLE_of (readLE_type hty) rfl) hty).symm.trans hr

/-- A frame whose inner lengths end behind it: one byte further on makes two bodies of it. -/
theorem exists_disagree (h : ¬ Fits f) : ∃ m m' r r', HasAt m 0 f ∧ HasAt m' 0 f ∧
    RpcObj.new.decodeBuffer m 0 0 = .ok r ∧ RpcObj.new.decodeBuffer m' 0 0 = .ok r' ∧ r.body ≠ r'.body := by
  rw [Fits, not_or, not_not, not_le] at h
  obtain ⟨hty, hlt⟩ := h
  have hend : recordEnd f = pidAt f + 8 + 4 + 4 + bodyLenAt f := rfl
  have hpid : 9 ≤ pidAt f := by unfold pidAt; omega
  -- zeros up to the last byte of the record, and one byte or the other there
  obtain ⟨g, hg, hlen⟩ : ∃ g, g = f ++ List.replicate (recordEnd f - 1 - f.length) 0 ∧ g.length = recordEnd f - 1 :=
    ⟨_, rfl, by rw [List.length_append, List.length_replicate]; omega⟩
  obtain ⟨k, hk⟩ : ∃ k : Nat, k = 2 ^ 32 := ⟨_, rfl⟩
  set m := g ++ List.replicate 1 0 with hm
  set m' := g ++ ([1] ++ List.replicate k 0) with hm'
  have hgpid : pidAt g = pidAt f := by rw [hg, pidAt_append_zeros]
  have hgend : recordEnd g = recordEnd f := by rw [hg, recordEnd_append_zeros]
  have hgty : wordAt g 1 4 = 0 := by rw [hg, wordAt_append_zeros, hty]
  have hpidm : pidAt m = pidAt f := by rw [hm, pidAt_append_zeros, hgpid]
  have hendm : recordEnd m = recordEnd f := by rw [hm, recordEnd_append_zeros, hgend]
  have hpidm' : pidAt m' = pidAt f := by rw [hm', pidAt_append _ (by omega), hgpid]
  have hmlen : m.length = recordEnd f := by
    rw [hm, List.length_append, List.length_replicate]
    omega
  have hm'len : m'.length = recordEnd f + k := by
    rw [hm', List.length_append, List.length_append, List.length_replicate, List.length_singleton]
    omega
  have hbody' : bodyLenAt m' < 2 ^ 32 := wordAt_lt m' 4 _
  have hbl : bodyLenAt m = bodyLenAt f := by
    unfold recordEnd at hendm
    omega
  obtain ⟨r, hr⟩ := exists_decodeBuffer (m := m) (by rw [hm, wordAt_append_zeros, hgty]) (by omega) .new 0
  obtain ⟨r', hr'⟩ := exists_decodeBuffer (m := m') (by rw [hm', wordAt_append _ (by omega), hgty])
    (by unfold recordEnd; omega) .new 0
  have hat : ∀ z, HasAt (g ++ z) 0 f := by
    intro z
    rw [hg, List.append_assoc]
    exact (hasAt_append.mp (hasAt_self _)).1
  have hbodym := (decodeBuffer_ok hr).2.2
  have hbodym' := (decodeBuffer_ok hr').2.2
  refine ⟨m, m', r, r', hat _, hat _, hr, hr', fun hbody => ?_⟩
  rw [hbodym, hbodym', hpidm, hpidm', hbl] at hbody
  have hsame : bodyLenAt f = bodyLenAt m' := by
    have hlens := congrArg List.length hbody
    rwa [length_slice _ (by omega), length_slice _ (by omega)] at hlens
  -- what stands behind `g` is the last byte of the length, or of the body
  have hlast : ∀ q, q = g.length → slice m q 1 = [0] ∧ slice m' q 1 = [1] := by
    intro q hq
    rw [hq, ← Nat.add_zero g.length, hm, hm', slice_append_right, slice_append_right]
    exact ⟨rfl, rfl⟩
  by_cases h0 : bodyLenAt f = 0
  · have hword : bodyLenAt m' = leNat (slice m' (pidAt f + 8 + 4) 3 ++ slice m' (pidAt f + 8 + 4 + 3) 1) := by
      rw [← slice_add, bodyLenAt, wordAt, hpidm']
    rw [(hlast (pidAt f + 8 + 4 + 3) (by omega)).2, leNat_append, length_slice _ (by omega)] at hword
    have hone : leNat [1] = 1 := rfl
    omega
  · obtain ⟨j, hj⟩ := Nat.exists_eq_succ_of_ne_zero h0
    rw [← hsame, hj, Nat.succ_eq_add_one, slice_add, slice_add] at hbody
    have hbyte := (List.append_inj' hbody (by rw [length_slice _ (by omega), length_slice _ (by omega)])).2
    obtain ⟨hzero, hone⟩ := hlast (pidAt f + 8 + 4 + 4 + j) (by omega)
    rw [hzero, hone] at hbyte
    cases hbyte

theorem sameDecoding_iff : SameDecoding p f ↔ Fits f := by
  refine ⟨fun h => ?_, sameDecoding_of_fits⟩
  by_contra hnot
  obtain ⟨m, m', r, r', hm, hm', hr, hr', hne⟩ := exists_disagree hnot
  -- the two memories, `p` bytes further on
  have hat : ∀ {m bs : Bytes}, HasAt m 0 bs → HasAt (List.replicate p 0 ++ m) p bs := by
    intro m bs h
    have hshift := h.append_left (List.replicate p 0)
    rwa [List.length_replicate] at hshift
  have hfields := h .new 0 _ _ (hat hm) (hat hm') r r' (decodeBuffer_of_hasAt (hat (hasAt_self m)) hr)
    (decodeBuffer_of_hasAt (hat (hasAt_self m')) hr')
  apply hne
  simp only [fields, Prod.mk.injEq] at hfields
  exact hfields.2.2.2.2.2

end Frames

end RpcObj

/-! ## The frames that are decoded -/

section Callers
open ConnObj TcpClient

/-- The complete frames that a caller hands on: `m` is its buffer, of which `n` bytes are received, `p` the offset, and
the length that the record declares the index. -/
inductive Hands (m : Bytes) (n p : Nat) : Int → Prop
  /-- `connRpcObj::parseBuff` -/
  | parseBuff {size : Nat} : 4 ≤ n - p → readLE 4 m p = .ok size → size ≤ n - 4 - p → size < 64 * 1024 →
      Hands m n p size
  /-- `tcpclient::dealReadBuffer` -/
  | dealReadBuffer {word : Nat} : 4 ≤ (n - p : Int) → readLE 4 m p = .ok word → 4 + int32 word < 2 ^ 31 →
      4 + int32 word ≤ (n - p : Int) → Hands m n p (int32 word)

/-- `parseBuff` decodes the frames of `Hands` and nothing else. -/
theorem parseLoop_congr {deal deal' : Bytes → Nat → Except Fault Msg} {netBuffer : Block RECV_BUFFER_SIZE}
    {n : Nat} (h : ∀ q L, Hands netBuffer.bytes n q L → deal netBuffer.bytes q = deal' netBuffer.bytes q) (p : Nat) :
    parseLoop 0 deal netBuffer n p = parseLoop 0 deal' netBuffer n p := by
  induction p using parseLoop.induct 0 n with
  | case1 p hlt =>
    rw [parseLoop, dif_pos hlt, parseLoop, dif_pos hlt]
  | case2 p hge ih =>
    rw [parseLoop, dif_neg hge, parseLoop, dif_neg hge]
    cases hread : readLE 4 netBuffer.bytes p with
    | error e => rfl
    | ok size =>
      rw [ok_bind, ok_bind]
      by_cases hpart : n - (0 + 4) - p < size
      · rw [if_pos hpart, if_pos hpart]
      rw [if_neg hpart, if_neg hpart]
      by_cases hbig : size ≥ 64 * 1024
      · rw [if_pos hbig, if_pos hbig]
      rw [if_neg hbig, if_neg hbig, h p size (.parseBuff (by omega) hread (by omega) (by omega)), ih size hpart hbig]

/-- `dealReadBuffer` decodes the frames of `Hands` and nothing else. -/
theorem dealReadLoop_congr {decode decode' : Decoder} {m : Bytes} {n : Nat}
    (h : ∀ q L, Hands m n q L → ∀ o addr, decode o m q addr = decode' o m q addr) (fuel : Nat) (offset : Int)
    (pool : List RpcObj) (addr : Nat) :
    dealReadLoop decode m n fuel offset pool addr = dealReadLoop decode' m n fuel offset pool addr := by
  induction fuel generalizing offset pool addr with
  | zero => rfl
  | succ fuel ih =>
    rw [dealReadLoop, dealReadLoop]
    dsimp only
    by_cases hleft : n - offset < 4
    · rw [if_pos hleft, if_pos hleft]
    rw [if_neg hleft, if_neg hleft]
    by_cases hneg : offset < 0
    · rw [if_pos hneg, if_pos hneg]
    rw [if_neg hneg, if_neg hneg]
    cases hread : readLE 4 m offset.toNat with
    | error e => rw [error_bind, error_bind]
    | ok word =>
      rw [ok_bind, ok_bind]
      by_cases hover : 4 + int32 word ≥ 2 ^ 31
      · rw [if_pos hover, if_pos hover]
      rw [if_neg hover, if_neg hover]
      by_cases hshort : n - offset < 4 + int32 word
      · rw [if_pos hshort, if_pos hshort]
      rw [if_neg hshort, if_neg hshort, ih]
      have hat : ((offset.toNat : Nat) : Int) = offset := Int.toNat_of_nonneg (by omega)
      rw [h offset.toNat (int32 word) (.dealReadBuffer (by omega) hread (by omega) (by omega))]

end Callers

namespace RpcObj

/-- **A frame is decoded from its own bytes** exactly if its inner lengths end within it, or if the type byte stops the
decoder: then it looks for no byte behind the frame, and so memories that agree on the frame are decoded the same. -/
theorem decodeBuffer_confined_iff {m : Bytes} {n p : Nat} {L : Int} (h : Hands m n p L) :
    (ReadsOnly m p (4 + L).toNat ↔ Fits (slice m p (4 + L).toNat)) ∧
      (SameDecoding p (slice m p (4 + L).toNat) ↔ Fits (slice m p (4 + L).toNat)) := by
  refine ⟨readsOnly_iff ?_, sameDecoding_iff⟩
  cases h with
  | parseBuff _ hread =>
    have hle := (readLE_ok hread).1
    omega
  | dealReadBuffer _ hread =>
    have hle := (readLE_ok hread).1
    omega

/-- A record of zeros behind its length word. -/
theorem decodeBuffer_confined_zeros :
    ReadsOnly (le 4 21 ++ List.replicate 21 0) 0 25 ∧ SameDecoding 0 (slice (le 4 21 ++ List.replicate 21 0) 0 25) := by
  have hread : readLE 4 (le 4 21 ++ List.replicate 21 0) 0 = .ok 21 := rfl
  have hfits : Fits (slice (le 4 21 ++ List.replicate 21 0) 0 (4 + (21 : Int)).toNat) := .inr (by decide)
  have hhands : Hands (le 4 21 ++ List.replicate 21 0) 25 0 21 :=
    .parseBuff (by decide) hread (by decide) (by decide)
  obtain ⟨hreads, hsame⟩ := decodeBuffer_confined_iff hhands
  exact ⟨hreads.mpr hfits, hsame.mpr hfits⟩

/-- A record that declares one byte, the type: both callers hand it on, and everything else is read behind it. -/
theorem not_decodeBuffer_confined : ∃ m : Bytes, m.length = RECV_BUFFER_SIZE ∧ Hands m 5 0 1 ∧
    ¬ ReadsOnly m 0 5 ∧ ¬ SameDecoding 0 (slice m 0 5) := by
  have hfits : ¬ Fits [1, 0, 0, 0, 0] := by
    unfold Fits
    decide
  obtain ⟨m, hm⟩ : ∃ m : Bytes, m = [1, 0, 0, 0, 0] ++ List.replicate 4091 0 := ⟨_, rfl⟩
  have hat : HasAt m 0 [1, 0, 0, 0, 0] := by
    rw [hm]
    exact (hasAt_append.mp (hasAt_self _)).1
  have hread : readLE 4 m 0 = .ok 1 := hat.readLE_of (show readLE 4 [1, 0, 0, 0, 0] 0 = .ok 1 from rfl) rfl
  have hslice : slice m 0 5 = [1, 0, 0, 0, 0] := hat.2
  refine ⟨m, by rw [hm, List.length_append, List.length_replicate]; rfl,
    .parseBuff (by decide) hread (by decide) (by decide), ?_, ?_⟩
  · rw [readsOnly_iff (Nat.zero_le _), hslice]
    exact hfits
  · rw [sameDecoding_iff, hslice]
    exact hfits

end RpcObj

end KcpServer
