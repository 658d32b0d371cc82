import Mathlib

/-!
# Locks of one thread

`Locking μ ε α` is what a thread does that holds some non-recursive mutexes: it returns with the mutexes that it holds
then, or it fails, or it waits for ever on a mutex that it holds itself. A wait for another thread ends, and is not seen
here.

`withLock m x` is `x` inside of a scoped lock. A function is `Disciplined` if a thread that holds nothing does not wait for
itself in it, and holds nothing when it returns.
-/

namespace Lib

/-- How a call ends that does not return: with a failure, or on a mutex that the thread holds. -/
inductive Stop (μ ε : Type*)
  | fault (e : ε)
  | deadlock (m : μ)
  deriving DecidableEq

/-- What a thread does that holds mutexes; a mutex is listed once for each lock that is not yet undone. -/
abbrev Locking (μ ε : Type) := StateT (List μ) (Except (Stop μ ε))

namespace Locking
variable {μ ε α β : Type}

/-- A call that locks nothing. -/
def lift (x : Except ε α) : Locking μ ε α := fun held =>
  match x with
  | .ok a => .ok (a, held)
  | .error e => .error (.fault e)

/-- From a thread that holds nothing: no wait for itself, and nothing held at the end. -/
structure Disciplined (x : Locking μ ε α) : Prop where
  noDeadlock : ∀ m, x [] ≠ .error (.deadlock m)
  releases : ∀ a held, x [] = .ok (a, held) → held = []

variable {x : Locking μ ε α} {f : α → Locking μ ε β} {held held' : List μ} {a : α} {e : Stop μ ε}

theorem bind_ok (h : x held = .ok (a, held')) : (x >>= f) held = f a held' := by
  change (x held >>= fun y => f y.1 y.2) = _
  rw [h]
  rfl

theorem bind_error (h : x held = .error e) : (x >>= f) held = .error e := by
  change (x held >>= fun y => f y.1 y.2) = _
  rw [h]
  rfl

theorem lift_ok {y : Except ε α} (h : y = .ok a) : (lift y : Locking μ ε α) held = .ok (a, held) := by rw [h, lift]

theorem lift_error {y : Except ε α} {e : ε} (h : y = .error e) :
    (lift y : Locking μ ε α) held = .error (.fault e) := by rw [h, lift]

/-! ## Locks -/

variable [DecidableEq μ] {m : μ}

/-- `pthread_mutex_lock` -/
def lock (m : μ) : Locking μ ε Unit := fun held => if m ∈ held then .error (.deadlock m) else .ok ((), m :: held)

/-- `pthread_mutex_unlock` -/
def unlock (m : μ) : Locking μ ε Unit := fun held => .ok ((), held.erase m)

/-- A block that starts with a scoped lock. -/
def withLock (m : μ) (x : Locking μ ε α) : Locking μ ε α := do
  lock m
  let a ← x
  unlock m
  return a

theorem lock_ok (h : m ∉ held) : (lock m : Locking μ ε Unit) held = .ok ((), m :: held) := if_neg h

/-- A scoped lock is released at the end of its block. -/
theorem withLock_ok (hm : m ∉ held) (h : x (m :: held) = .ok (a, m :: held)) : withLock m x held = .ok (a, held) := by
  rw [withLock, bind_ok (lock_ok hm), bind_ok h]
  change (unlock m (m :: held) >>= fun y => .ok (a, y.2)) = _
  rw [unlock, List.erase_cons_head]
  rfl

theorem withLock_error (hm : m ∉ held) (h : x (m :: held) = .error e) : withLock m x held = .error e := by
  rw [withLock, bind_ok (lock_ok hm), bind_error h]

/-- From these mutexes: it returns with the same ones, or it fails. -/
def Balanced (x : Locking μ ε α) (held : List μ) : Prop :=
  (∃ a, x held = .ok (a, held)) ∨ ∃ e, x held = .error (.fault e)

omit [DecidableEq μ] in
theorem balanced_pure (a : α) : Balanced (pure a : Locking μ ε α) held := .inl ⟨a, rfl⟩

omit [DecidableEq μ] in
theorem balanced_lift (y : Except ε α) : Balanced (lift y : Locking μ ε α) held := by
  cases y with
  | ok a => exact .inl ⟨a, rfl⟩
  | error e => exact .inr ⟨e, rfl⟩

omit [DecidableEq μ] in
theorem Balanced.bind (h : Balanced x held) (hf : ∀ a, Balanced (f a) held) : Balanced (x >>= f) held := by
  rcases h with ⟨a, h⟩ | ⟨e, h⟩
  · rw [Balanced, bind_ok h]
    exact hf a
  · exact .inr ⟨e, bind_error h⟩

theorem Balanced.withLock (hm : m ∉ held) (h : Balanced x (m :: held)) : Balanced (withLock m x) held := by
  rcases h with ⟨a, h⟩ | ⟨e, h⟩
  · exact .inl ⟨a, withLock_ok hm h⟩
  · exact .inr ⟨e, withLock_error hm h⟩

omit [DecidableEq μ] in
theorem Balanced.disciplined (h : Balanced x []) : Disciplined x where
  noDeadlock m heq := by
    rcases h with ⟨a, h⟩ | ⟨e, h⟩ <;> simp [h] at heq
  releases a held heq := by
    rcases h with ⟨b, h⟩ | ⟨e, h⟩
    · rw [h] at heq
      cases heq
      rfl
    · simp [h] at heq

theorem withLock_of_mem (hm : m ∈ held) : withLock m x held = .error (.deadlock m) := by
  rw [withLock, bind_error]
  exact if_pos hm

end Locking

end Lib
