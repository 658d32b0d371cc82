import Mathlib

/-!
# C++ integers and failures

`int` values are `Int`s in range, `unsigned` and `size_t` values are `Nat`s in range; `int32` and `uint32` are the
conversions that can change a value. `Fault` lists how a C++ call can fail to return.
-/

namespace Lib

/-- How a call fails to return normally. -/
inductive Fault
  /-- a failed `assert`, in a build that keeps them -/
  | assertion
  /-- a null pointer is dereferenced -/
  | null
  /-- memory outside of an object is read or written -/
  | bounds
  /-- an uninitialised value is used -/
  | uninit
  /-- signed arithmetic leaves its type -/
  | overflow
  /-- a loop does not end -/
  | diverge
  deriving DecidableEq, Repr

section Bind
universe u v
variable {ε : Type u} {α β : Type v}

@[simp] theorem ok_bind (x : α) (f : α → Except ε β) : (Except.ok x >>= f) = f x := rfl

@[simp] theorem error_bind (e : ε) (f : α → Except ε β) : (Except.error e >>= f) = .error e := rfl

theorem bind_eq_ok {x : Except ε α} {f : α → Except ε β} {b : β} :
    (x >>= f) = .ok b ↔ ∃ a, x = .ok a ∧ f a = .ok b := by
  cases x with
  | ok a =>
    refine ⟨fun h => ⟨a, rfl, h⟩, ?_⟩
    rintro ⟨_, ha, h⟩
    cases ha
    exact h
  | error e =>
    constructor
    · intro h
      cases h
    · rintro ⟨_, ha, _⟩
      cases ha

theorem bind_eq_error {x : Except ε α} {f : α → Except ε β} {e : ε} (h : (x >>= f) = .error e) :
    x = .error e ∨ ∃ a, x = .ok a ∧ f a = .error e := by
  cases x with
  | ok a => exact .inr ⟨a, rfl, h⟩
  | error e' =>
    cases h
    exact .inl rfl

/-- What a test of a result says. -/
theorem exists_ok_of_any {x : Except ε α} {q : α → Bool} (h : x.toOption.any q = true) : ∃ a, x = .ok a ∧ q a = true := by
  cases x with
  | ok a => exact ⟨a, rfl, h⟩
  | error e => cases h

theorem bind_of_ok {x y : Except ε α} {f g : α → Except ε β} {b : β} (h : (x >>= f) = .ok b)
    (hx : ∀ a, x = .ok a → y = .ok a) (hf : ∀ a, f a = .ok b → g a = .ok b) : (y >>= g) = .ok b := by
  obtain ⟨a, ha, hb⟩ := bind_eq_ok.mp h
  exact bind_eq_ok.mpr ⟨a, hx a ha, hf a hb⟩

/-- What holds of a sequence's fault holds when it holds of the faults of its calls. -/
theorem of_bind_error {P : ε → Prop} {x : Except ε α} {f : α → Except ε β} {e : ε} (h : (x >>= f) = .error e)
    (hx : ∀ e, x = .error e → P e) (hf : ∀ a, x = .ok a → ∀ e, f a = .error e → P e) : P e := by
  rcases bind_eq_error h with h | ⟨a, ha, h⟩
  · exact hx e h
  · exact hf a ha e h

end Bind

/-- Conversion to a 32-bit `int`. -/
def int32 (n : Int) : Int := n.bmod (2 ^ 32)

/-- Conversion to a 32-bit `unsigned`. -/
def uint32 (n : Int) : Nat := (n % 2 ^ 32).toNat

theorem int32_of_range {n : Int} (h : -2 ^ 31 ≤ n) (h' : n < 2 ^ 31) : int32 n = n := by
  unfold int32
  rw [Int.bmod_eq_of_le (by omega) (by omega)]

theorem int32_neg {n : Int} (h : 2 ^ 31 ≤ n) (h' : n < 2 ^ 32) : int32 n < 0 := by
  unfold int32
  rw [Int.bmod_def]
  omega

def assert (b : Bool) : Except Fault Unit := if b then .ok () else .error .assertion

@[simp] theorem assert_true : assert true = .ok () := rfl

@[simp] theorem assert_false : assert false = .error .assertion := rfl

theorem assert_eq_ok {b : Bool} {u : Unit} : assert b = .ok u ↔ b = true := by
  cases b <;> simp

theorem assert_eq_error {b : Bool} {e : Fault} (h : assert b = .error e) : e = .assertion := by
  cases b <;> cases h
  rfl

end Lib
