import Mathlib

/-!
# Heaps of pooled objects

Objects that are never freed live at addresses `0, 1, ..` of a `Heap`; a pointer is an address. A `FreeList` is a queue
of addresses from which objects are reused; an empty one allocates.
-/

namespace Lib

/-- The objects of one class: what stands at each address, and the first address not yet given out. -/
structure Heap (α : Type*) where
  at' : Nat → α
  next : Nat

namespace Heap
variable {α : Type*}

instance : CoeFun (Heap α) (fun _ => Nat → α) := ⟨Heap.at'⟩

/-- `n` objects, all alike. -/
def replicate (n : Nat) (a : α) : Heap α := ⟨fun _ => a, n⟩

def set (h : Heap α) (p : Nat) (a : α) : Heap α := ⟨Function.update h.at' p a, h.next⟩

/-- `new` -/
def alloc (h : Heap α) (a : α) : Nat × Heap α := (h.next, ⟨Function.update h.at' h.next a, h.next + 1⟩)

def fill (h : Heap α) (ps : List Nat) (a : α) : Heap α := ⟨fun q => if q ∈ ps then a else h q, h.next⟩

@[simp] theorem set_self (h : Heap α) (p : Nat) (a : α) : h.set p a p = a := Function.update_self ..

@[simp] theorem set_next (h : Heap α) (p : Nat) (a : α) : (h.set p a).next = h.next := rfl

theorem set_of_ne (h : Heap α) {p q : Nat} (hq : q ≠ p) (a : α) : h.set p a q = h q := Function.update_of_ne hq ..

theorem set_at (h : Heap α) (p : Nat) : h.set p (h p) = h := by
  unfold set
  rw [Function.update_eq_self]

theorem set_set (h : Heap α) (p : Nat) (a b : α) : (h.set p a).set p b = h.set p b := by
  unfold set
  rw [Function.update_idem]

theorem fill_of_not_mem (h : Heap α) {ps : List Nat} {q : Nat} (hq : q ∉ ps) (a : α) : h.fill ps a q = h q := if_neg hq

@[simp] theorem fill_next (h : Heap α) (ps : List Nat) (a : α) : (h.fill ps a).next = h.next := rfl

@[simp] theorem alloc_fst (h : Heap α) (a : α) : (h.alloc a).1 = h.next := rfl

@[simp] theorem alloc_next (h : Heap α) (a : α) : (h.alloc a).2.next = h.next + 1 := rfl

theorem alloc_self (h : Heap α) (a : α) : (h.alloc a).2 h.next = a := Function.update_self ..

theorem alloc_of_lt (h : Heap α) {q : Nat} (hq : q < h.next) (a : α) : (h.alloc a).2 q = h q :=
  Function.update_of_ne (by omega) ..

end Heap

/-! ## Reuse -/

/-- Take an object out of a queue, or allocate a new one. -/
def pop {α : Type*} (h : Heap α) (pool : List Nat) (a : α) : Nat × Heap α × List Nat :=
  match pool with
  | [] => ((h.alloc a).1, (h.alloc a).2, [])
  | p :: pool => (p, h, pool)

theorem pop_of_ne {α : Type*} {h h' : Heap α} {pool pool' : List Nat} {a : α} {p q : Nat}
    (heq : pop h pool a = (p, h', pool')) (hq : q ≠ p) : h' q = h q := by
  unfold pop at heq
  cases pool with
  | nil => cases heq; exact Function.update_of_ne hq ..
  | cons r pool => cases heq; rfl

section Pop
variable {α : Type*} {h h' : Heap α} {pool pool' : List Nat} {a : α} {p q : Nat}

theorem mem_of_pop (heq : pop h pool a = (p, h', pool')) (hq : q ∈ pool) : q = p ∨ q ∈ pool' := by
  unfold pop at heq
  cases pool with
  | nil => cases hq
  | cons r pool => cases heq; exact List.mem_cons.mp hq

theorem sub_of_pop (heq : pop h pool a = (p, h', pool')) (hq : q ∈ pool') : q ∈ pool := by
  unfold pop at heq
  cases pool with
  | nil => cases heq; cases hq
  | cons r pool => cases heq; exact List.mem_cons_of_mem _ hq

theorem origin_of_pop (heq : pop h pool a = (p, h', pool')) : p ∈ pool ∨ p = h.next := by
  unfold pop at heq
  cases pool with
  | nil => cases heq; exact Or.inr rfl
  | cons r pool => cases heq; exact Or.inl List.mem_cons_self

theorem le_of_pop (heq : pop h pool a = (p, h', pool')) : h.next ≤ h'.next := by
  unfold pop at heq
  cases pool with
  | nil => cases heq; exact Nat.le_succ _
  | cons r pool => cases heq; exact le_rfl

theorem next_of_pop (heq : pop h pool a = (p, h', pool')) (q : Nat) (hq : q < h'.next) : q < h.next ∨ q = p := by
  unfold pop at heq
  cases pool with
  | nil => cases heq; exact Nat.lt_succ_iff_lt_or_eq.mp hq
  | cons r pool => cases heq; exact Or.inl hq

end Pop

/-- The objects in a queue exist, and none is in it twice. -/
structure FreeList {α : Type*} (h : Heap α) (pool : List Nat) : Prop where
  nodup : pool.Nodup
  lt_next : ∀ p ∈ pool, p < h.next

namespace FreeList
variable {α : Type*} {h : Heap α} {pool : List Nat}

theorem range (n : Nat) (a : α) : FreeList (Heap.replicate n a) (List.range n) :=
  ⟨List.nodup_range, fun _ hp => List.mem_range.mp hp⟩

theorem push (hf : FreeList h pool) {p : Nat} (hp : p ∉ pool) (hlt : p < h.next) : FreeList h (pool ++ [p]) := by
  refine ⟨?_, fun q hq => ?_⟩
  · rw [List.nodup_append]
    refine ⟨hf.nodup, List.nodup_singleton p, ?_⟩
    rintro q hq r hr rfl
    exact hp (List.mem_singleton.mp hr ▸ hq)
  · rcases List.mem_append.mp hq with hq | hq
    · exact hf.lt_next q hq
    · rw [List.mem_singleton.mp hq]; exact hlt

theorem set (hf : FreeList h pool) (p : Nat) (a : α) : FreeList (h.set p a) pool := ⟨hf.nodup, hf.lt_next⟩

/-- What is popped exists now and is not in the queue any more; it was in the queue or did not exist before. Nothing that
existed has changed. -/
theorem pop (hf : FreeList h pool) (a : α) {p : Nat} {h' : Heap α} {pool' : List Nat}
    (heq : Lib.pop h pool a = (p, h', pool')) :
    FreeList h' pool' ∧ p < h'.next ∧ p ∉ pool' ∧ (p ∈ pool ∨ p = h.next) ∧ h.next ≤ h'.next ∧
      (∀ q ∈ pool', q ∈ pool) ∧ (∀ q < h.next, h' q = h q) ∧ (∀ q < h'.next, q < h.next ∨ q = p) := by
  unfold Lib.pop at heq
  cases pool with
  | nil =>
    cases heq
    refine ⟨⟨List.nodup_nil, by simp⟩, Nat.lt_succ_self _, by simp, Or.inr rfl, Nat.le_succ _, by simp, ?_, ?_⟩
    · exact fun q hq => Function.update_of_ne (by omega) ..
    · exact fun q hq => Nat.lt_succ_iff_lt_or_eq.mp hq
  | cons q pool =>
    cases heq
    obtain ⟨hnot, hnodup⟩ := List.nodup_cons.mp hf.nodup
    refine ⟨⟨hnodup, fun r hr => hf.lt_next r (List.mem_cons_of_mem _ hr)⟩, hf.lt_next _ List.mem_cons_self, hnot,
      Or.inl List.mem_cons_self, le_rfl, fun r hr => List.mem_cons_of_mem _ hr, fun _ _ => rfl, fun r hr => Or.inl hr⟩

end FreeList

end Lib
