import KcpServer.Lib.Bytes

/-!
# The wire format of protocol buffers

A field of a message is a key, which holds its number and its wire type, and a value: a number in base 128, or a length
and as many bytes. A number that is zero is left out. The lemmas bound the lengths from below and from above.
-/

namespace Lib

/-- Base 128, the low seven bits first; every byte but the last has its high bit set. -/
def varint (n : Nat) : Bytes :=
  if n < 128 then [UInt8.ofNat n] else UInt8.ofNat (n % 128 + 128) :: varint (n / 128)

/-- The key of a field: the wire type is 0 for a number and 2 for what has a length. -/
def fieldKey (field wireType : Nat) : Bytes := varint (field * 8 + wireType)

/-- `WriteUInt32` -/
def uint32Field (field n : Nat) : Bytes := if n = 0 then [] else fieldKey field 0 ++ varint n

/-- `WriteMessage`, of a message with these bytes. -/
def messageField (field : Nat) (bs : Bytes) : Bytes := fieldKey field 2 ++ varint bs.length ++ bs

example : messageField 2 (uint32Field 1 300) = [18, 3, 8, 172, 2] := by simp [messageField, uint32Field, fieldKey, varint]

theorem length_varint_pos (n : Nat) : 0 < (varint n).length := by
  unfold varint
  split <;> simp

theorem length_varint_le {n k : Nat} (h : n < 128 ^ (k + 1)) : (varint n).length ≤ k + 1 := by
  induction k generalizing n with
  | zero =>
    unfold varint
    rw [if_pos (by simpa using h)]
    simp
  | succ k ih =>
    unfold varint
    split
    · simp
    · have hdiv : n / 128 < 128 ^ (k + 1) := by
        rw [Nat.div_lt_iff_lt_mul (by decide), ← pow_succ]
        exact h
      have hlen := ih hdiv
      rw [List.length_cons]
      omega

theorem length_fieldKey_pos (field wireType : Nat) : 0 < (fieldKey field wireType).length := length_varint_pos _

/-- The keys of the first fifteen fields are single bytes. -/
theorem length_fieldKey_le {field : Nat} (wireType : Nat) (hfield : field < 16) (htype : wireType < 8) :
    (fieldKey field wireType).length ≤ 1 := by
  apply length_varint_le
  omega

theorem length_uint32Field_le {field n k : Nat} (hfield : field < 16) (hn : n < 128 ^ (k + 1)) :
    (uint32Field field n).length ≤ k + 2 := by
  have hkey := length_fieldKey_le 0 hfield (by decide)
  have hvar := length_varint_le hn
  unfold uint32Field
  split
  · simp
  · rw [List.length_append]
    omega

theorem two_le_length_messageField (field : Nat) (bs : Bytes) : 2 ≤ (messageField field bs).length := by
  have hkey := length_fieldKey_pos field 2
  have hvar := length_varint_pos bs.length
  rw [messageField, List.length_append, List.length_append]
  omega

theorem length_messageField_le {field k : Nat} (bs : Bytes) (hfield : field < 16) (hbs : bs.length < 128 ^ (k + 1)) :
    (messageField field bs).length ≤ bs.length + (k + 2) := by
  have hkey := length_fieldKey_le 2 hfield (by decide)
  have hvar := length_varint_le hbs
  rw [messageField, List.length_append, List.length_append]
  omega

/-- A message stands in its field as it is. -/
theorem infix_messageField (field : Nat) (bs : Bytes) : bs <:+: messageField field bs := (List.suffix_append _ bs).isInfix

section Repeated
variable {α : Type*} {enc : α → Bytes} {xs : List α}

/-- A repeated field takes two bytes an element. -/
theorem two_mul_length_le (field : Nat) (enc : α → Bytes) (xs : List α) :
    2 * xs.length ≤ (xs.flatMap fun x => messageField field (enc x)).length := by
  induction xs with
  | nil => simp
  | cons x xs ih =>
    have hx := two_le_length_messageField field (enc x)
    rw [List.flatMap_cons, List.length_append, List.length_cons]
    omega

theorem length_repeated_le (field : Nat) {n : Nat} (hfield : field < 16) (hn : n < 128)
    (h : ∀ x ∈ xs, (enc x).length ≤ n) :
    (xs.flatMap fun x => messageField field (enc x)).length ≤ (n + 2) * xs.length := by
  induction xs with
  | nil => simp
  | cons x xs ih =>
    have hx := h x (by simp)
    have hxs := ih fun y hy => h y (by simp [hy])
    have hmsg := length_messageField_le (k := 0) (enc x) hfield (by omega)
    rw [List.flatMap_cons, List.length_append, List.length_cons, Nat.mul_succ]
    omega

theorem infix_repeated (field : Nat) (enc : α → Bytes) {x : α} (hx : x ∈ xs) :
    enc x <:+: xs.flatMap fun x => messageField field (enc x) := by
  obtain ⟨pre, post, rfl⟩ := List.append_of_mem hx
  rw [List.flatMap_append, List.flatMap_cons]
  apply (infix_messageField field (enc x)).trans
  exact ⟨_, _, List.append_assoc _ _ _⟩

end Repeated

end Lib
