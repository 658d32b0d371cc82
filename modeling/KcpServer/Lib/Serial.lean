import KcpServer.Lib.Cxx

/-!
# Serial numbers

Items are numbered 0, 1, 2, .. without end, and a 32-bit counter shows their numbers modulo `2 ^ 32`. Two such numbers are
compared by the sign of their difference, taken as a signed number. That is right for items that are less than `2 ^ 31`
apart.

* `serialDiff_serial` : the difference of two near items;
* `exists_serial` : in any `2 ^ 32` items in a row, every 32-bit number is that of one item.
-/

namespace Lib

/-- The 32-bit number of item `n`. -/
abbrev serial (n : ℕ) : UInt32 := UInt32.ofNat n

/-- `(int)(later - earlier)` -/
def serialDiff (later earlier : UInt32) : Int := int32 (later - earlier).toNat

/-- Two items are near enough for their numbers to be compared. -/
def Near (n m : ℕ) : Prop := (n : Int) - m < 2 ^ 31 ∧ (m : Int) - n ≤ 2 ^ 31

theorem near_of_lt {n m : ℕ} (hn : n < 2 ^ 31) (hm : m ≤ 2 ^ 31) : Near n m := by
  unfold Near
  omega

section Serial
variable {n m : ℕ}

@[simp] theorem serial_add_one (n : ℕ) : serial n + 1 = serial (n + 1) := by simp

theorem serial_add (n k : ℕ) : serial n + serial k = serial (n + k) := by simp

theorem toNat_serial (h : n < 2 ^ 32) : (serial n).toNat = n := by
  rw [serial, UInt32.toNat_ofNat']
  exact Nat.mod_eq_of_lt h

theorem serialDiff_serial (h : Near n m) : serialDiff (serial n) (serial m) = n - m := by
  obtain ⟨hlt, hle⟩ := h
  unfold serialDiff int32
  rw [UInt32.toNat_sub, UInt32.toNat_ofNat', UInt32.toNat_ofNat', Int.bmod_def]
  omega

theorem serial_inj (h : Near n m) : serial n = serial m ↔ n = m := by
  refine ⟨fun heq => ?_, congrArg serial⟩
  have hdiff := serialDiff_serial h
  have hself := serialDiff_serial (n := m) (m := m) (by unfold Near; omega)
  rw [heq, hself] at hdiff
  omega

/-- The difference of two numbers is that of two items. -/
theorem toNat_sub_serial (h : m ≤ n) (hlt : n - m < 2 ^ 32) : (serial n - serial m).toNat = n - m := by
  rw [UInt32.toNat_sub, UInt32.toNat_ofNat', UInt32.toNat_ofNat']
  omega

/-- Of `2 ^ 32` items in a row, one has a given number. -/
theorem exists_serial (n : ℕ) (x : UInt32) :
    ∃ k, k = n + (x - serial n).toNat ∧ x = serial k := by
  refine ⟨_, rfl, ?_⟩
  rw [← UInt32.toNat_inj, UInt32.toNat_sub, UInt32.toNat_ofNat', UInt32.toNat_ofNat']
  have hx := x.toNat_lt
  omega

theorem serialDiff_of_lt {x y : UInt32} (h : (x - y).toNat < 2 ^ 31) : serialDiff x y = (x - y).toNat :=
  int32_of_range (by omega) (by omega)

theorem serialDiff_of_le {x y : UInt32} (h : 2 ^ 31 ≤ (x - y).toNat) : serialDiff x y < 0 :=
  int32_neg (by omega) (by have := (x - y).toNat_lt; omega)

/-- A number that goes up by `j` goes up in every difference. -/
theorem serialDiff_add {x y : UInt32} {j : ℕ} (h : serialDiff x y + j < 2 ^ 31) :
    serialDiff (x + UInt32.ofNat j) y = serialDiff x y + j := by
  unfold serialDiff int32 at h ⊢
  simp only [UInt32.toNat_sub, UInt32.toNat_add, UInt32.toNat_ofNat', Int.bmod_def] at h ⊢
  have hx := x.toNat_lt
  have hy := y.toNat_lt
  omega

theorem serialDiff_comm {x y : UInt32} (h : -2 ^ 31 < serialDiff x y) : serialDiff y x = -serialDiff x y := by
  unfold serialDiff int32 at h ⊢
  simp only [UInt32.toNat_sub, Int.bmod_def] at h ⊢
  have hx := x.toNat_lt
  have hy := y.toNat_lt
  omega

theorem toNat_min (x y : UInt32) : (min x y).toNat = min x.toNat y.toNat := by
  rw [show min x y = if x ≤ y then x else y from rfl, apply_ite UInt32.toNat]
  simp only [UInt32.le_iff_toNat_le, Nat.min_def]

theorem toNat_max (x y : UInt32) : (max x y).toNat = max x.toNat y.toNat := by
  rw [show max x y = if x ≤ y then y else x from rfl, apply_ite UInt32.toNat]
  simp only [UInt32.le_iff_toNat_le, Nat.max_def]

@[simp] theorem serialDiff_self (x : UInt32) : serialDiff x x = 0 := by simp [serialDiff, int32]

end Serial

end Lib
