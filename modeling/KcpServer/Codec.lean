import KcpServer.Pools
import KcpServer.Lib.Framing

/-!
# The RPC codec

`record` is the byte string of an RPC call. `encodeBuffer_eq` : the thirteen writes of `encodeBuffer` are one write of
the record; `decodeBuffer_record` : `decodeBuffer` on a memory that holds a record reads its fields, the result string
from one byte too early on. Together they give `encode_decode`: every field but this one comes back.
-/

namespace KcpServer
open Lib

/-! ## The record -/

def recordBody (name : ServerName) (m : RpcMsg) : Bytes :=
  [0] ++ le 1 noKey.length ++ noKey.bytes ++ le 1 m.target.length ++ m.target.bytes ++ le 1 name.length ++ name.bytes ++
    le 1 defres.length ++ defres.bytes ++ le 8 m.pid.toNat ++ le 4 m.msgid.toNat ++ le 4 m.body.length ++ m.body

def record (name : ServerName) (m : RpcMsg) : Bytes := le 4 (getRpcSize name m) ++ recordBody name m

def recordSize (name : ServerName) (m : RpcMsg) : Nat := 31 + m.target.length + name.length + m.body.length

theorem length_record (name : ServerName) (m : RpcMsg) : (record name m).length = recordSize name m := by
  simp only [record, recordBody, recordSize, List.length_append, length_le, CStr.length, noKey, defres,
    List.length_nil, List.length_cons]
  omega

/-- `getRpcSize` counts the record without its length word, unless the sum leaves 32 bits. -/
theorem getRpcSize_add_four (name : ServerName) (m : RpcMsg) (h : recordSize name m < 2 ^ 32) :
    getRpcSize name m + 4 = recordSize name m := by
  have hd : defres.length = 6 := rfl
  have hk : noKey.length = 0 := rfl
  unfold getRpcSize recordSize at *
  omega

theorem record_isFrame (name : ServerName) (m : RpcMsg) (h : recordSize name m < 2 ^ 32) :
    (lenPrefixed 0).IsFrame (record name m) := by
  have hlen := length_record name m
  have hsize := getRpcSize_add_four name m h
  have hbody : getRpcSize name m = (recordBody name m).length := by
    rw [record, List.length_append, length_le] at hlen
    omega
  have := lenPrefixed_isFrame (h := 0) [] (recordBody name m) rfl (by omega)
  rwa [List.append_nil, ← hbody] at this

/-! ## `encodeBuffer` writes the record -/

theorem encodeBuffer_eq {n : Nat} (name : ServerName) (m : RpcMsg) (mem : Block n) (p : Nat) :
    encodeBuffer name mem p m = (mem.memcpy p (record name m) >>= fun mem => pure (mem, getRpcSize name m + 4)) := by
  have hn := name.length_le
  have ht := m.target_le
  have hn' : name.length % 256 = name.length := Nat.mod_eq_of_lt (by omega)
  have ht' : m.target.length % 256 = m.target.length := Nat.mod_eq_of_lt (by omega)
  have hd' : defres.length % 256 = defres.length := rfl
  have hk' : noKey.length % 256 = noKey.length := rfl
  simp only [encodeBuffer, record, recordBody, hn', ht', hd', hk', CStr.take_length]
  -- twelve writes go on where the one before ended, the thirteenth is the length word in front of them
  iterate 12 rw [Block.memcpy_bind_bind]
  rw [Block.memcpy_front_bind_bind]
  all_goals
    simp [CStr.length, noKey]
    try omega

/-- Where the record fits, `encodeBuffer` writes it and nothing else. -/
theorem encodeBuffer_ok {n : Nat} {name : ServerName} {m : RpcMsg} (mem : Block n) {p : Nat}
    (hp : p + recordSize name m ≤ n) :
    ∃ mem' : Block n, encodeBuffer name mem p m = .ok (mem', getRpcSize name m + 4) ∧
      mem'.bytes = memcpy mem.bytes p (record name m) := by
  obtain ⟨mem', h, hb⟩ := mem.memcpy_eq_ok p (record name m) (by rw [length_record]; exact hp)
  exact ⟨mem', by rw [encodeBuffer_eq, h]; rfl, hb⟩

theorem encodeBuffer_error {n : Nat} {name : ServerName} {m : RpcMsg} (mem : Block n) {p : Nat}
    (hp : n < p + recordSize name m) : encodeBuffer name mem p m = .error .bounds := by
  rw [encodeBuffer_eq, Block.memcpy_eq_error (by rw [length_record]; exact hp)]
  rfl

/-! ## `decodeBuffer` reads the record -/

/-- What an `rpcObj` holds after decoding a record, `res` being its result string: every string is followed by zeros
only, so it ends where it should and no byte of another message follows. -/
structure Decoded (name : ServerName) (m : RpcMsg) (res : CStr) (addr : Nat) (o : RpcObj) : Prop where
  target : o.target.bytes = m.target.bytes ++ List.replicate (512 - m.target.length) 0
  key : o.key.bytes = List.replicate 512 0
  param : o.param.bytes = name.bytes ++ List.replicate (1024 - name.length) 0
  result : o.result.bytes = res.bytes ++ List.replicate (512 - res.length) 0
  pid : o.pid = m.pid.toNat
  msgid : o.msgid = m.msgid.toNat
  bodyLen : o.bodyLen = m.body.length
  body : o.body = m.body
  /-- a body of at most 256 bytes is kept inside the object, a longer one in a block of its own -/
  inline : m.body.length ≤ 256 →
    o.buff.bytes = m.body ++ List.replicate (256 - m.body.length) 0 ∧ (o.pBuff = .null ∨ o.pBuff = .buff)
  heap : 256 < m.body.length → o.buff.bytes = List.replicate 256 0 ∧ o.pBuff = .heap addr m.body

theorem Decoded.cstrs {name : ServerName} {m : RpcMsg} {res : CStr} {addr : Nat} {o : RpcObj}
    (h : Decoded name m res addr o) : cstr o.target.bytes = m.target.bytes ∧ cstr o.key.bytes = [] ∧
      cstr o.param.bytes = name.bytes ∧ cstr o.result.bytes = res.bytes := by
  have hkey : cstr o.key.bytes = [] := h.key ▸ cstr_append_zeros noKey 512
  rw [h.target, h.param, h.result]
  exact ⟨cstr_append_zeros _ _, hkey, cstr_append_zeros _ _, cstr_append_zeros _ _⟩

theorem decodeBuffer_record {name : ServerName} {m : RpcMsg} {mem : Bytes} {p : Nat}
    (h : HasAt mem p (record name m)) (addr : Nat) :
    ∃ o, RpcObj.new.decodeBuffer mem p addr = .ok o ∧ Decoded name m shiftedRes addr o := by
  have hd : defres.length = 6 := rfl
  have hk : noKey.length = 0 := rfl
  have hn := name.length_le
  have ht := m.target_le
  have hb : m.body.length < 256 ^ 4 := m.body_lt
  have hpidlt : m.pid.toNat < 256 ^ 8 := m.pid.toNat_lt
  have hmidlt : m.msgid.toNat < 256 ^ 4 := m.msgid.toNat_lt
  rw [record, hasAt_append] at h
  replace h := h.2
  simp only [recordBody, hasAt_append, List.length_append, length_le, List.length_singleton] at h
  obtain ⟨⟨⟨⟨⟨⟨⟨⟨⟨⟨⟨⟨hty, hkl⟩, hkey⟩, htl⟩, htar⟩, hpl⟩, hpar⟩, hrl⟩, hres⟩, hpid⟩, hmid⟩, hbl⟩, hbody⟩ := h
  -- the bytes copied for the result are the length byte and the string's first five
  have hrr : HasAt mem _ (le 1 defres.length ++ defres.bytes) :=
    hasAt_append.mpr ⟨hrl, by rwa [length_le, Nat.add_assoc]⟩
  have hsplit : le 1 defres.length ++ defres.bytes = shiftedRes.bytes ++ [115] := rfl
  rw [hsplit, hasAt_append] at hrr
  have hshift := hrr.1
  rw [show noKey.bytes.length = noKey.length from rfl, show m.target.bytes.length = m.target.length from rfl,
    show name.bytes.length = name.length from rfl, show defres.bytes.length = defres.length from rfl] at *
  -- the reads, field by field, at the offsets the decoder computes
  have rty : readLE 1 mem (p + 4) = .ok 0 := HasAt.readLE (show HasAt mem (p + 4) (le 1 0) from hty) rfl (by decide)
  have rkl := hkl.readLE (q := p + 4 + 1) rfl (by omega)
  have rkey := hkey.readAt (q := p + 4 + 2) (by omega) rfl
  have rtl := htl.readLE (q := p + 4 + 2 + noKey.length) (by omega) (by omega)
  have rtar := htar.readAt (q := p + 4 + 3 + noKey.length) (by omega) rfl
  have rpl := hpl.readLE (q := p + 4 + 3 + noKey.length + m.target.length) (by omega) (by omega)
  have rpar := hpar.readAt (q := p + 4 + 4 + noKey.length + m.target.length) (by omega) rfl
  have rrl := hrl.readLE (q := p + 4 + 4 + noKey.length + m.target.length + name.length) (by omega) (by omega)
  have rres : readAt mem (p + 4 + 4 + noKey.length + m.target.length + name.length) defres.length = _ :=
    hshift.readAt (by omega) rfl
  have rpid := hpid.readLE (q := p + 4 + 5 + noKey.length + m.target.length + name.length + defres.length) (by omega)
    hpidlt
  have rmid := hmid.readLE (q := p + 4 + 5 + noKey.length + m.target.length + name.length + defres.length + 8)
    (by omega) hmidlt
  have rbl := hbl.readLE (q := p + 4 + 5 + noKey.length + m.target.length + name.length + defres.length + 8 + 4)
    (by omega) hb
  have rbody := hbody.readAt
    (q := p + 4 + 5 + noKey.length + m.target.length + name.length + defres.length + 8 + 4 + 4) (by omega) rfl
  -- the copies into the object's arrays, all zero before
  have wkey : RpcObj.new.key.memcpy 0 noKey.bytes = _ := Block.memcpy_zero (by simp [noKey])
  have wtar : RpcObj.new.target.memcpy 0 m.target.bytes = _ := Block.memcpy_zero (show m.target.length ≤ 512 by omega)
  have wpar : RpcObj.new.param.memcpy 0 name.bytes = _ := Block.memcpy_zero (show name.length ≤ 1024 by omega)
  have wres : RpcObj.new.result.memcpy 0 shiftedRes.bytes = _ := Block.memcpy_zero (by decide)
  simp only [CStr.length] at *
  simp only [RpcObj.decodeBuffer, rty, rkl, rkey, rtl, rtar, rpl, rpar, rrl, rres, rpid, rmid, rbl, rbody, wkey, wtar,
    wpar, wres, ok_bind, decide_true, assert_true]
  by_cases h0 : m.body.length = 0
  · have hnil : m.body = [] := List.length_eq_zero_iff.mp h0
    rw [if_pos h0]
    refine ⟨_, rfl, rfl, rfl, rfl, rfl, rfl, rfl, rfl, hnil.symm, fun _ => ⟨?_, Or.inl rfl⟩, fun hlt => by omega⟩
    rw [hnil]; rfl
  · rw [if_neg h0]
    by_cases h256 : m.body.length > 256
    · rw [if_pos h256]
      refine ⟨_, rfl, rfl, rfl, rfl, rfl, rfl, rfl, rfl, ?_, fun hle => by omega, fun _ => ⟨rfl, rfl⟩⟩
      exact List.take_length
    · have wbuff : RpcObj.new.buff.memcpy 0 m.body = _ :=
        Block.memcpy_zero (show m.body.length ≤ 256 by omega)
      rw [if_neg h256, wbuff, ok_bind]
      refine ⟨_, rfl, rfl, rfl, rfl, rfl, rfl, rfl, rfl, ?_, fun _ => ⟨rfl, Or.inr rfl⟩, fun hlt => by omega⟩
      exact List.take_left

/-- Decoding a record that reads alone reads the same wherever the record stands. -/
theorem decodeBuffer_of_hasAt {f m : Bytes} {p : Nat} {o o' : RpcObj} {addr : Nat} (hm : HasAt m p f)
    (h : o.decodeBuffer f 0 addr = .ok o') : o.decodeBuffer m p addr = .ok o' := by
  have same : ∀ {α : Type} {x : Except Fault α} (a : α), x = .ok a → x = .ok a := fun _ h => h
  refine bind_of_ok h (fun _ h => hm.readLE_of h (by omega)) fun msgType h => ?_
  refine bind_of_ok h same fun _ h => ?_
  refine bind_of_ok h (fun _ h => hm.readLE_of h (by omega)) fun len h => ?_
  refine bind_of_ok h (fun _ h => hm.readAt_of h (by omega)) fun _ h => ?_
  refine bind_of_ok h same fun key h => ?_
  refine bind_of_ok h (fun _ h => hm.readLE_of h (by omega)) fun lenTar h => ?_
  refine bind_of_ok h (fun _ h => hm.readAt_of h (by omega)) fun _ h => ?_
  refine bind_of_ok h same fun target h => ?_
  refine bind_of_ok h (fun _ h => hm.readLE_of h (by omega)) fun lenPa h => ?_
  refine bind_of_ok h (fun _ h => hm.readAt_of h (by omega)) fun _ h => ?_
  refine bind_of_ok h same fun param h => ?_
  refine bind_of_ok h (fun _ h => hm.readLE_of h (by omega)) fun lenRes h => ?_
  refine bind_of_ok h (fun _ h => hm.readAt_of h (by omega)) fun _ h => ?_
  refine bind_of_ok h same fun result h => ?_
  refine bind_of_ok h (fun _ h => hm.readLE_of h (by omega)) fun pid h => ?_
  refine bind_of_ok h (fun _ h => hm.readLE_of h (by omega)) fun msgid h => ?_
  refine bind_of_ok h (fun _ h => hm.readLE_of h (by omega)) fun bodyLen h => ?_
  by_cases h0 : bodyLen = 0
  · rw [if_pos h0] at h ⊢
    exact h
  · rw [if_neg h0] at h ⊢
    exact bind_of_ok h (fun _ h => hm.readAt_of h (by omega)) fun _ h => h

/-! ## The round trip -/

/-- Encoding and decoding an RPC record with the result string `res`: in a cache with room for it the record is written
and nothing else is, its first four bytes are the size that `getRpcSize` reports, and any `rpcObj` out of the pool
decodes a copy of it, wherever it stands, to the arguments of the call. -/
def RoundTrip (name : ServerName) (m : RpcMsg) (c : SendCache) (res : CStr) : Prop :=
  ∃ mem : Block RPC_BUFF_SIZE,
    encodeBuffer name c.mem c.offset m = .ok (mem, getRpcSize name m + 4) ∧
    mem.bytes.take c.offset = c.mem.bytes.take c.offset ∧
    mem.bytes.drop (c.offset + (getRpcSize name m + 4)) = c.mem.bytes.drop (c.offset + (getRpcSize name m + 4)) ∧
    slice mem.bytes c.offset 4 = le 4 (getRpcSize name m) ∧
    ∀ pool, Reach rpcPoolStep (fun _ _ => True) [] pool →
      ∀ buf p, HasAt buf p (slice mem.bytes c.offset (getRpcSize name m + 4)) →
        ∀ addr, ∃ o, (popRpcobj pool).1.decodeBuffer buf p addr = .ok o ∧ Decoded name m res addr o

/-- What a record is written and decoded to, but for the result string. -/
theorem roundTrip_shiftedRes {name : ServerName} {m : RpcMsg} {c : SendCache}
    (hfit : c.offset + recordSize name m ≤ RPC_BUFF_SIZE) : RoundTrip name m c shiftedRes := by
  have hR := RPC_BUFF_SIZE_eq
  have hlen := length_record name m
  have hsize : getRpcSize name m + 4 = recordSize name m := getRpcSize_add_four name m (by omega)
  obtain ⟨mem, henc, hbytes⟩ := encodeBuffer_ok c.mem hfit
  have hc := c.mem.size
  have hrec : HasAt mem.bytes c.offset (record name m) := by
    rw [hbytes]
    exact hasAt_memcpy (by omega)
  refine ⟨mem, henc, ?_, ?_, ?_, ?_⟩
  · rw [hbytes, take_memcpy_of_le le_rfl (by omega)]
  · rw [hsize, ← hlen, hbytes, drop_memcpy (by omega)]
  · have h4 := (hasAt_append.mp hrec).1.2
    rwa [length_le] at h4
  · intro pool hpool buf p hbuf addr
    rw [hsize, ← hlen, hrec.2] at hbuf
    rw [popRpcobj_eq_new hpool]
    exact decodeBuffer_record hbuf addr

/-- The decoder yields one result string. -/
theorem RoundTrip.res_eq {name : ServerName} {m : RpcMsg} {c : SendCache} {res res' : CStr}
    (h : RoundTrip name m c res) (h' : RoundTrip name m c res') : res.bytes = res'.bytes := by
  obtain ⟨mem, henc, -, -, -, hdec⟩ := h
  obtain ⟨mem', henc', -, -, -, hdec'⟩ := h'
  obtain rfl : mem = mem' := congrArg Prod.fst (Except.ok.inj (henc.symm.trans henc'))
  obtain ⟨o, ho, hd⟩ := hdec [] .refl _ 0 (hasAt_self _) 0
  obtain ⟨o', ho', hd'⟩ := hdec' [] .refl _ 0 (hasAt_self _) 0
  obtain rfl : o = o' := Except.ok.inj (ho.symm.trans ho')
  exact hd.cstrs.2.2.2.symm.trans hd'.cstrs.2.2.2

/-- **Encoding and decoding an RPC record.** Every field comes back but the result string, of which the decoder yields
the length byte and the first five characters: no record comes back as it was. -/
theorem encode_decode (name : ServerName) (m : RpcMsg) (c : SendCache)
    (hfit : c.offset + recordSize name m ≤ RPC_BUFF_SIZE) :
    RoundTrip name m c shiftedRes ∧ ¬ RoundTrip name m c defres := by
  refine ⟨roundTrip_shiftedRes hfit, fun h => ?_⟩
  have hres : defres.bytes = shiftedRes.bytes := h.res_eq (roundTrip_shiftedRes hfit)
  revert hres
  decide

/-- The server name of the game node. -/
def game1 : ServerName := ⟨⟨[103, 97, 109, 101, 49], by simp⟩, by decide⟩

/-- `OfflineP` for player 7, without a body. -/
def offlineMsg : RpcMsg := ⟨⟨[79, 102, 102, 108, 105, 110, 101, 80], by simp⟩, 7, 0, [], by decide, by simp⟩

theorem encode_decode_offline :
    RoundTrip game1 offlineMsg (SendCache.new 0) shiftedRes ∧ ¬ RoundTrip game1 offlineMsg (SendCache.new 0) defres :=
  encode_decode game1 offlineMsg (SendCache.new 0) (by decide)

/-- `OfflineP` for player 7 is decoded with the result string `\x06defre`. -/
theorem not_roundTrip : ¬ RoundTrip game1 offlineMsg (SendCache.new 0) defres := by
  have hfit : (SendCache.new 0).offset + recordSize game1 offlineMsg ≤ RPC_BUFF_SIZE := by decide
  intro h
  have hres : defres.bytes = shiftedRes.bytes := h.res_eq (roundTrip_shiftedRes hfit)
  revert hres
  decide

end KcpServer
