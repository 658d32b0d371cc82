import Mathlib

/-!
# Byte strings

The bytes of a memory block as a list, and the C functions that copy inside of it as total functions on lists
(`Memory` adds the bounds).

* `le w n`, `leNat` : little-endian words of `w` bytes;
* `slice m off len` : the `len` bytes at `off`;
* `memcpy_memcpy` : adjacent writes fuse into one, which is how a sequence of field writes is read as the bytes of one
  record.
-/

namespace Lib

abbrev Bytes := List UInt8

/-! ## Little-endian words -/

/-- The `w` low bytes of `n`, least significant first. -/
def le : Nat → Nat → Bytes
  | 0, _ => []
  | w + 1, n => UInt8.ofNat n :: le w (n / 256)

/-- The number whose little-endian bytes are `bs`. -/
def leNat : Bytes → Nat
  | [] => 0
  | b :: bs => b.toNat + 256 * leNat bs

@[simp] theorem length_le (w n : Nat) : (le w n).length = w := by
  induction w generalizing n with
  | zero => rfl
  | succ w ih => simp [le, ih]

theorem leNat_lt (bs : Bytes) : leNat bs < 256 ^ bs.length := by
  induction bs with
  | nil => simp [leNat]
  | cons b bs ih =>
    have hb := b.toNat_lt
    rw [leNat, List.length_cons, pow_succ]
    omega

theorem leNat_le (w n : Nat) : leNat (le w n) = n % 256 ^ w := by
  induction w generalizing n with
  | zero => simp [le, leNat, Nat.mod_one]
  | succ w ih =>
    have hb : (UInt8.ofNat n).toNat = n % 256 := by simp
    rw [le, leNat, ih, hb, pow_succ', Nat.mod_mul]

theorem leNat_le_of_lt {w n : Nat} (h : n < 256 ^ w) : leNat (le w n) = n := by
  rw [leNat_le, Nat.mod_eq_of_lt h]

theorem leNat_append (a b : Bytes) : leNat (a ++ b) = leNat a + 256 ^ a.length * leNat b := by
  induction a with
  | nil => simp [leNat]
  | cons x a ih =>
    rw [List.cons_append, leNat, leNat, ih, List.length_cons, pow_succ']
    ring

theorem leNat_append_zeros (a : Bytes) (k : Nat) : leNat (a ++ List.replicate k 0) = leNat a := by
  have hzeros : leNat (List.replicate k 0) = 0 := by
    induction k with
    | zero => rfl
    | succ k ih => rw [List.replicate_succ, leNat, ih]; rfl
  rw [leNat_append, hzeros, Nat.mul_zero, Nat.add_zero]

/-! ## Slices -/

section Block
variable {α : Type*}

/-- The `len` elements of `m` from `off` on. -/
def slice (m : List α) (off len : Nat) : List α := (m.drop off).take len

theorem length_slice (m : List α) {off len : Nat} (h : off + len ≤ m.length) :
    (slice m off len).length = len := by
  simp only [slice, List.length_take, List.length_drop]
  omega

theorem slice_zero (m : List α) (len : Nat) : slice m 0 len = m.take len := rfl

theorem slice_add (m : List α) (off a b : Nat) :
    slice m off (a + b) = slice m off a ++ slice m (off + a) b := by
  simp only [slice, List.take_add, List.drop_drop]

theorem slice_take (m : List α) (off len k : Nat) (h : off + len ≤ k) :
    slice (m.take k) off len = slice m off len := by
  simp only [slice, List.drop_take, List.take_take]
  congr 1
  omega

theorem slice_append_left (a b : List α) {off len : Nat} (h : off + len ≤ a.length) :
    slice (a ++ b) off len = slice a off len := by
  rw [slice, slice, List.drop_append_of_le_length (by omega),
    List.take_append_of_le_length (by rw [List.length_drop]; omega)]

/-- A slice that reaches into the zeros behind a list. -/
theorem slice_append_replicate (a : List α) (k : Nat) (z : α) (off len : Nat) :
    ∃ j, slice (a ++ List.replicate k z) off len = slice a off len ++ List.replicate j z := by
  unfold slice
  rw [List.drop_append, List.drop_replicate, List.take_append, List.take_replicate]
  exact ⟨_, rfl⟩

theorem slice_append_right (a b : List α) (off len : Nat) :
    slice (a ++ b) (a.length + off) len = slice b off len := by
  rw [slice, slice, List.drop_length_add_append]

/-! ## Writes -/

/-- `memcpy(m + off, bs, |bs|)` -/
def memcpy (m : List α) (off : Nat) (bs : List α) : List α :=
  m.take off ++ bs ++ m.drop (off + bs.length)

/-- `memmove(m + dst, m + src, len)` -/
def memmove (m : List α) (dst src len : Nat) : List α := memcpy m dst (slice m src len)

theorem length_memcpy {m : List α} {off : Nat} {bs : List α} (h : off + bs.length ≤ m.length) :
    (memcpy m off bs).length = m.length := by
  simp only [memcpy, List.length_append, List.length_take, List.length_drop]
  omega

theorem take_memcpy {m : List α} {off : Nat} {bs : List α} (h : off ≤ m.length) :
    (memcpy m off bs).take (off + bs.length) = m.take off ++ bs := by
  have hlen : (m.take off ++ bs).length = off + bs.length := by simp [h]
  rw [memcpy, ← hlen, List.take_left]

theorem take_memcpy_zero (m bs : List α) : (memcpy m 0 bs).take bs.length = bs := by
  rw [memcpy, List.take_zero, List.nil_append, List.take_left]

theorem take_memcpy_of_le {m : List α} {off k : Nat} {bs : List α} (hk : k ≤ off)
    (h : off ≤ m.length) : (memcpy m off bs).take k = m.take k := by
  rw [memcpy, List.append_assoc, List.take_append_of_le_length (by simp; omega), List.take_take,
    min_eq_left hk]

theorem slice_memcpy_self {m : List α} {off : Nat} {bs : List α} (h : off ≤ m.length) :
    slice (memcpy m off bs) off bs.length = bs := by
  rw [memcpy, List.append_assoc]
  have := slice_append_right (m.take off) (bs ++ m.drop (off + bs.length)) 0 bs.length
  rw [List.length_take, min_eq_left h, Nat.add_zero] at this
  rw [this, slice_zero, List.take_left]

theorem drop_memcpy {m : List α} {off : Nat} {bs : List α} (h : off ≤ m.length) :
    (memcpy m off bs).drop (off + bs.length) = m.drop (off + bs.length) := by
  have hlen : (m.take off ++ bs).length = off + bs.length := by simp [h]
  rw [memcpy, ← hlen, List.drop_left]

theorem memcpy_nil (m : List α) (off : Nat) : memcpy m off [] = m := by
  simp [memcpy]

theorem memmove_self (m : List α) (off len : Nat) (h : off + len ≤ m.length) :
    memmove m off off len = m := by
  rw [memmove, memcpy, length_slice m h, slice, ← List.drop_drop, List.append_assoc,
    List.take_append_drop, List.take_append_drop]

theorem memcpy_memcpy {m : List α} {off : Nat} {a b : List α} (h : off ≤ m.length) :
    memcpy (memcpy m off a) (off + a.length) b = memcpy m off (a ++ b) := by
  rw [memcpy, take_memcpy h, ← List.drop_drop, drop_memcpy h, List.drop_drop, memcpy]
  simp [Nat.add_assoc]

end Block

end Lib
