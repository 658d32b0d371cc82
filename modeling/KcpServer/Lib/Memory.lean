import KcpServer.Lib.Bytes
import KcpServer.Lib.Cxx

/-!
# Memory blocks with bounds

`Block n` is an array of `n` bytes. Reading and writing it fail with `Fault.bounds` instead of leaving it, so a call
that returns `.ok` stayed inside its blocks.

* `Block.memcpy_bind` : adjacent writes fuse, and the fused write is refused exactly when one of its parts is;
* `HasAt m p bs` : the bytes `bs` stand at `p`; `hasAt_append` reads a record field by field.
-/

namespace Lib

/-! ## Reading -/

/-- The `len` bytes of a block from `off` on. -/
def readAt (m : Bytes) (off len : Nat) : Except Fault Bytes :=
  if off + len ≤ m.length then .ok (slice m off len) else .error .bounds

/-- The little-endian word of `w` bytes at `off`. -/
def readLE (w : Nat) (m : Bytes) (off : Nat) : Except Fault Nat := leNat <$> readAt m off w

theorem readAt_eq {m : Bytes} {off len : Nat} (h : off + len ≤ m.length) :
    readAt m off len = .ok (slice m off len) := if_pos h

theorem readLE_eq {w : Nat} {m : Bytes} {off : Nat} (h : off + w ≤ m.length) :
    readLE w m off = .ok (leNat (slice m off w)) := by
  rw [readLE, readAt_eq h]; rfl

theorem readAt_ok {m bs : Bytes} {off len : Nat} (h : readAt m off len = .ok bs) :
    off + len ≤ m.length ∧ bs = slice m off len := by
  unfold readAt at h
  split at h
  · next hle =>
    cases h
    exact ⟨hle, rfl⟩
  · cases h

theorem readAt_error {m : Bytes} {off len : Nat} {e : Fault} (h : readAt m off len = .error e) :
    e = .bounds ∧ m.length < off + len := by
  unfold readAt at h
  split at h
  · cases h
  · next hle =>
    cases h
    exact ⟨rfl, not_le.mp hle⟩

theorem readLE_ok {w : Nat} {m : Bytes} {off v : Nat} (h : readLE w m off = .ok v) :
    off + w ≤ m.length ∧ v = leNat (slice m off w) := by
  by_cases hle : off + w ≤ m.length
  · rw [readLE_eq hle] at h
    cases h
    exact ⟨hle, rfl⟩
  · rw [readLE, readAt, if_neg hle] at h
    cases h

theorem readLE_error {w : Nat} {m : Bytes} {off : Nat} {e : Fault} (h : readLE w m off = .error e) :
    e = .bounds ∧ m.length < off + w := by
  by_cases hle : off + w ≤ m.length
  · rw [readLE_eq hle] at h
    cases h
  · rw [readLE, readAt, if_neg hle] at h
    cases h
    exact ⟨rfl, not_le.mp hle⟩

/-- Write `bs` at `off` into a block whose size is not fixed by its type. -/
def writeAt (m : Bytes) (off : Nat) (bs : Bytes) : Except Fault Bytes :=
  if off + bs.length ≤ m.length then .ok (memcpy m off bs) else .error .bounds

/-- The bytes `bs` stand at `p`. -/
def HasAt (m : Bytes) (p : Nat) (bs : Bytes) : Prop := p + bs.length ≤ m.length ∧ slice m p bs.length = bs

theorem hasAt_self (bs : Bytes) : HasAt bs 0 bs := ⟨by omega, by rw [slice_zero, List.take_length]⟩

theorem HasAt.append_left {m bs : Bytes} {q : Nat} (h : HasAt m q bs) (a : Bytes) :
    HasAt (a ++ m) (a.length + q) bs := by
  refine ⟨?_, ?_⟩
  · rw [List.length_append, Nat.add_assoc]
    exact Nat.add_le_add_left h.1 _
  · rw [slice_append_right]
    exact h.2

/-- What is found at `p` stands there. -/
theorem hasAt_slice {m : Bytes} {p len : Nat} (hp : p ≤ m.length) : HasAt m p (slice m p len) := by
  have hlen : (slice m p len).length = min len (m.length - p) := by
    unfold slice
    rw [List.length_take, List.length_drop]
  refine ⟨by omega, ?_⟩
  unfold slice at hlen ⊢
  rw [hlen, ← List.length_drop, ← List.take_eq_take_min]

/-- A record stands in memory exactly when its fields do, one behind the other. -/
theorem hasAt_append {m : Bytes} {p : Nat} {a b : Bytes} :
    HasAt m p (a ++ b) ↔ HasAt m p a ∧ HasAt m (p + a.length) b := by
  simp only [HasAt, List.length_append, slice_add, Nat.add_assoc]
  constructor
  · rintro ⟨hle, h⟩
    have hlen : (slice m p a.length).length = a.length := length_slice m (by omega)
    obtain ⟨ha, hb⟩ := List.append_inj h hlen
    exact ⟨⟨by omega, ha⟩, hle, hb⟩
  · rintro ⟨⟨_, ha⟩, hle, hb⟩
    exact ⟨hle, by rw [ha, hb]⟩

theorem HasAt.readAt {m bs : Bytes} {p q len : Nat} (h : HasAt m p bs) (hq : q = p) (hl : len = bs.length) :
    readAt m q len = .ok bs := by
  subst hq hl
  rw [readAt_eq h.1, h.2]

theorem HasAt.readLE {m : Bytes} {p q w v : Nat} (h : HasAt m p (le w v)) (hq : q = p) (hv : v < 256 ^ w) :
    readLE w m q = .ok v := by
  rw [Lib.readLE, h.readAt hq (length_le w v).symm]
  exact congrArg _ (leNat_le_of_lt hv)

/-- A read inside of a copied record finds what it finds in the record. -/
theorem HasAt.readAt_of {m f bs : Bytes} {p q q' len : Nat} (h : HasAt m p f) (hr : Lib.readAt f q len = .ok bs)
    (hq' : q' = p + q) : Lib.readAt m q' len = .ok bs := by
  subst hq'
  have hq : q + len ≤ f.length := by
    by_contra hq
    rw [Lib.readAt, if_neg hq] at hr
    cases hr
  rw [readAt_eq hq] at hr
  have hle := h.1
  have hslice : slice m (p + q) len = slice f q len := by
    have hf := congrArg (fun f => slice f q len) h.2
    simp only [slice, List.drop_take, List.drop_drop, List.take_take, min_eq_left (show len ≤ f.length - q by omega)]
      at hf
    exact hf
  rw [readAt_eq (by omega), hslice]
  exact hr

theorem HasAt.readLE_of {m f : Bytes} {p q q' w v : Nat} (h : HasAt m p f) (hr : Lib.readLE w f q = .ok v)
    (hq' : q' = p + q) : Lib.readLE w m q' = .ok v := by
  obtain ⟨bs, hbs, hv⟩ : ∃ bs, Lib.readAt f q w = .ok bs ∧ leNat bs = v := by
    rw [Lib.readLE] at hr
    cases hbs : Lib.readAt f q w with
    | ok bs => rw [hbs] at hr; cases hr; exact ⟨bs, rfl, rfl⟩
    | error e => rw [hbs] at hr; cases hr
  rw [Lib.readLE, h.readAt_of hbs hq', ← hv]
  rfl

theorem HasAt.congr {m m' bs : Bytes} {p p' : Nat} (h : HasAt m p bs) (hp : p' + bs.length ≤ m'.length)
    (hs : slice m' p' bs.length = slice m p bs.length) : HasAt m' p' bs := ⟨hp, hs.trans h.2⟩

theorem hasAt_memcpy {m bs : Bytes} {p : Nat} (h : p + bs.length ≤ m.length) : HasAt (memcpy m p bs) p bs :=
  ⟨by rw [length_memcpy h]; exact h, slice_memcpy_self (by omega)⟩

/-! ## Blocks -/

/-- An array of `n` bytes. -/
structure Block (n : Nat) where
  bytes : Bytes
  size : bytes.length = n

namespace Block
variable {n : Nat}

@[ext] theorem ext {a b : Block n} (h : a.bytes = b.bytes) : a = b := by
  cases a; cases b; congr

/-- `memset(m, 0, n)` -/
def zero (n : Nat) : Block n := ⟨List.replicate n 0, List.length_replicate⟩

instance : Inhabited (Block n) := ⟨zero n⟩

/-- `memcpy(m + off, bs, |bs|)` -/
def memcpy (m : Block n) (off : Nat) (bs : Bytes) : Except Fault (Block n) :=
  if h : off + bs.length ≤ n then .ok ⟨Lib.memcpy m.bytes off bs, (length_memcpy (m.size.symm ▸ h)).trans m.size⟩
  else .error .bounds

/-- `memmove(m + dst, m + src, len)` -/
def memmove (m : Block n) (dst src len : Nat) : Except Fault (Block n) :=
  readAt m.bytes src len >>= fun bs => m.memcpy dst bs

theorem memcpy_eq_ok (m : Block n) (off : Nat) (bs : Bytes) (h : off + bs.length ≤ n) :
    ∃ m', m.memcpy off bs = .ok m' ∧ m'.bytes = Lib.memcpy m.bytes off bs := by
  rw [memcpy, dif_pos h]
  exact ⟨_, rfl, rfl⟩

theorem memcpy_eq_error {m : Block n} {off : Nat} {bs : Bytes} (h : n < off + bs.length) :
    m.memcpy off bs = .error .bounds := dif_neg (by omega)

theorem memmove_eq_ok (m : Block n) (dst src len : Nat) (hs : src + len ≤ n) (hd : dst + len ≤ n) :
    ∃ m', m.memmove dst src len = .ok m' ∧ m'.bytes = Lib.memmove m.bytes dst src len := by
  have hsz := m.size
  rw [memmove, readAt_eq (by omega)]
  exact m.memcpy_eq_ok _ _ (by rw [length_slice _ (by omega)]; exact hd)

theorem memcpy_bind (m : Block n) (off : Nat) (a b : Bytes) :
    (m.memcpy off a >>= fun m => m.memcpy (off + a.length) b) = m.memcpy off (a ++ b) := by
  have hsz := m.size
  by_cases ha : off + a.length ≤ n
  · simp only [memcpy, dif_pos ha, ok_bind, List.length_append, memcpy_memcpy (show off ≤ m.bytes.length by omega),
      Nat.add_assoc]
  · rw [memcpy_eq_error (by omega), memcpy_eq_error (by rw [List.length_append]; omega)]
    rfl

theorem memcpy_bind_bind {β : Type} (m : Block n) {off off' : Nat} {a b : Bytes} (k : Block n → Except Fault β)
    (h : off' = off + a.length) :
    (m.memcpy off a >>= fun m => m.memcpy off' b >>= k) = (m.memcpy off (a ++ b) >>= k) := by
  subst h
  rw [← memcpy_bind]
  cases m.memcpy off a <;> rfl

theorem memcpy_bind_front (m : Block n) (off : Nat) (a b : Bytes) :
    (m.memcpy (off + a.length) b >>= fun m => m.memcpy off a) = m.memcpy off (a ++ b) := by
  have hsz := m.size
  by_cases hb : off + a.length + b.length ≤ n
  · have hlen : (m.bytes.take (off + a.length)).length = off + a.length := by simp; omega
    have hab : off + (a ++ b).length = off + a.length + b.length := by simp [Nat.add_assoc]
    simp only [memcpy, dif_pos hb, ok_bind, dif_pos (show off + a.length ≤ n by omega), hab]
    congr 2
    rw [Lib.memcpy, take_memcpy_of_le (by omega) (by omega)]
    simp only [Lib.memcpy, List.append_assoc, hab]
    rw [List.drop_left' hlen]
  · rw [memcpy_eq_error (by omega), memcpy_eq_error (by rw [List.length_append]; omega)]
    rfl

theorem memcpy_front_bind_bind {β : Type} (m : Block n) {off off' : Nat} {a b : Bytes} (k : Block n → Except Fault β)
    (h : off' = off + a.length) :
    (m.memcpy off' b >>= fun m => m.memcpy off a >>= k) = (m.memcpy off (a ++ b) >>= k) := by
  subst h
  rw [← memcpy_bind_front]
  cases m.memcpy (off + a.length) b <;> rfl

/-- A block that starts with `bs` and is zero behind it. -/
def ofBytes {bs : Bytes} (h : bs.length ≤ n) : Block n := ⟨bs ++ List.replicate (n - bs.length) 0, by simp; omega⟩

theorem memcpy_zero {bs : Bytes} (h : bs.length ≤ n) : (zero n).memcpy 0 bs = .ok (ofBytes h) := by
  rw [memcpy, dif_pos (by omega)]
  congr 2
  simp [Lib.memcpy, zero]

end Block

/-! ## C strings -/

/-- The bytes in front of the first NUL. -/
def cstr (bs : Bytes) : Bytes := bs.takeWhile (· ≠ 0)

/-- A string without a NUL, as the C functions read it. -/
structure CStr where
  bytes : Bytes
  noNul : ∀ b ∈ bytes, b ≠ 0

/-- `strlen` -/
def CStr.length (s : CStr) : Nat := s.bytes.length

theorem noNul_nil : ∀ b ∈ ([] : Bytes), b ≠ 0 := by simp

theorem CStr.take_length (s : CStr) : s.bytes.take s.length = s.bytes := List.take_length

/-- A string followed by zeros reads as that string. -/
theorem cstr_append_zeros (s : CStr) (k : Nat) : cstr (s.bytes ++ List.replicate k 0) = s.bytes := by
  rw [cstr, List.takeWhile_append_of_pos fun b hb => by simpa using s.noNul b hb]
  cases k <;> simp [List.replicate_succ]

end Lib
