import Mathlib

/-!
# Selective repeat

A sender numbers items 0, 1, 2, .. and holds each one until it is acknowledged, alone or together with all in front of it.
A receiver keeps what comes early and takes what comes next. Neither says when anything is sent, lost or sent again: a
packet is a statement about the other side, "item `n` is `a`" or "`n` has come", and what has been true of the log or of
the receiver once stays so (`Run.log_extends`, `Run.has`), however late it is delivered and however often.

* `inv_new`, `Inv.run` : what holds of every run, in the end that an item not held has come;
* `Inv.early_eq_drop` : if nothing is held, the receiver has everything.
-/

namespace Lib

section Items
variable {α : Type*}

/-- Numbered items, in ascending order. -/
def Ascending (es : List (ℕ × α)) : Prop := es.Pairwise fun e e' => e.1 < e'.1

/-- An item at its place; if there is one of its number, that one stays. -/
def insertItem (n : ℕ) (a : α) : List (ℕ × α) → List (ℕ × α)
  | [] => [(n, a)]
  | e :: es => if n < e.1 then (n, a) :: e :: es else if n = e.1 then e :: es else e :: insertItem n a es

variable {n : ℕ} {a : α} {e : ℕ × α} {es : List (ℕ × α)}

theorem mem_insertItem (h : e ∈ insertItem n a es) : e = (n, a) ∨ e ∈ es := by
  induction es with
  | nil => exact .inl (List.mem_singleton.mp h)
  | cons e' es ih =>
    unfold insertItem at h
    split at h
    · exact List.mem_cons.mp h
    split at h
    · exact .inr h
    rcases List.mem_cons.mp h with rfl | h
    · exact .inr List.mem_cons_self
    · exact (ih h).imp_right (List.mem_cons_of_mem _)

theorem mem_insertItem_of_mem (h : e ∈ es) : e ∈ insertItem n a es := by
  induction es with
  | nil => cases h
  | cons e' es ih =>
    unfold insertItem
    split
    · exact List.mem_cons_of_mem _ h
    split
    · exact h
    rcases List.mem_cons.mp h with rfl | h
    · exact List.mem_cons_self
    · exact List.mem_cons_of_mem _ (ih h)

theorem exists_mem_insertItem (n : ℕ) (a : α) (es : List (ℕ × α)) : ∃ b, (n, b) ∈ insertItem n a es := by
  induction es with
  | nil => exact ⟨a, List.mem_cons_self⟩
  | cons e es ih =>
    unfold insertItem
    split
    · exact ⟨a, List.mem_cons_self⟩
    split
    · next heq => exact ⟨e.2, heq ▸ List.mem_cons_self⟩
    · obtain ⟨b, hb⟩ := ih
      exact ⟨b, List.mem_cons_of_mem _ hb⟩

/-- Looking for the place from the end on. -/
theorem insertItem_concat (h : Ascending (es ++ [e])) (n : ℕ) (a : α) :
    insertItem n a (es ++ [e]) =
      if n = e.1 then es ++ [e] else if e.1 < n then es ++ [e, (n, a)] else insertItem n a es ++ [e] := by
  induction es with
  | nil =>
    simp only [List.nil_append, insertItem]
    split_ifs <;> first | rfl | omega
  | cons e' es ih =>
    obtain ⟨hfirst, hes⟩ := List.pairwise_cons.mp h
    have hlt : e'.1 < e.1 := hfirst e (by simp)
    rw [List.cons_append, insertItem, insertItem, ih hes]
    split_ifs <;> first | rfl | omega

theorem Ascending.insertItem (h : Ascending es) (n : ℕ) (a : α) : Ascending (insertItem n a es) := by
  induction es with
  | nil => exact List.pairwise_singleton _ _
  | cons e es ih =>
    obtain ⟨hfirst, hes⟩ := List.pairwise_cons.mp h
    unfold Lib.insertItem
    split
    · next hlt =>
      refine List.pairwise_cons.mpr ⟨fun e' he' => ?_, h⟩
      rcases List.mem_cons.mp he' with rfl | he'
      · exact hlt
      · exact hlt.trans (hfirst e' he')
    split
    · exact h
    refine List.pairwise_cons.mpr ⟨fun e' he' => ?_, ih hes⟩
    rcases mem_insertItem he' with rfl | he'
    · dsimp only
      omega
    · exact hfirst e' he'

theorem Ascending.length_le (h : Ascending es) {base : ℕ} (hes : ∀ e ∈ es, base ≤ e.1 ∧ e.1 < base + n) :
    es.length ≤ n := by
  have hnodup : (es.map Prod.fst).Nodup := List.pairwise_map.mpr (h.imp fun hlt => hlt.ne)
  have hsub : es.map Prod.fst ⊆ List.range' base n := by
    intro m hm
    obtain ⟨e, he, rfl⟩ := List.mem_map.mp hm
    exact List.mem_range'_1.mpr (hes e he)
  have hle := (List.subperm_of_subset hnodup hsub).length_le
  rwa [List.length_map, List.length_range'] at hle

end Items

/-! ## The two sides -/

/-- A sender and a receiver. -/
structure Arq (α : Type*) where
  /-- every item that has been numbered -/
  log : List α
  /-- the items that have not been acknowledged -/
  held : List (ℕ × α)
  /-- the number of items that have been taken -/
  next : ℕ
  /-- the items that have come early -/
  early : List (ℕ × α)

namespace Arq
variable {α : Type*}

def new : Arq α := ⟨[], [], 0, []⟩

/-- Item `n` has come. -/
def Has (s : Arq α) (n : ℕ) : Prop := n < s.next ∨ ∃ a, (n, a) ∈ s.early

/-- The first number that has not been acknowledged. -/
def una (s : Arq α) : ℕ := (s.held.head?.map Prod.fst).getD s.log.length

/-- What the two sides do. -/
inductive Step : Arq α → Arq α → Prop
  /-- an item gets a number -/
  | push (s : Arq α) (a : α) : Step s { s with log := s.log ++ [a], held := s.held ++ [(s.log.length, a)] }
  /-- item `n` is acknowledged -/
  | ack (s : Arq α) (n : ℕ) (hhas : s.Has n) : Step s { s with held := s.held.filter (·.1 ≠ n) }
  /-- everything in front of `u` is acknowledged -/
  | ackBelow (s : Arq α) (u : ℕ) (hle : u ≤ s.next) : Step s { s with held := s.held.filter (u ≤ ·.1) }
  /-- an item comes -/
  | store (s : Arq α) (n : ℕ) (a : α) (hlog : s.log[n]? = some a) (hge : s.next ≤ n) :
    Step s { s with early := insertItem n a s.early }
  /-- the next item is taken -/
  | take (s : Arq α) (a : α) (early : List (ℕ × α)) (hearly : s.early = (s.next, a) :: early) :
    Step s { s with next := s.next + 1, early }

abbrev Run : Arq α → Arq α → Prop := Relation.ReflTransGen Step

structure Inv (s : Arq α) : Prop where
  held_ascending : Ascending s.held
  held_log : ∀ e ∈ s.held, s.log[e.1]? = some e.2
  early_ascending : Ascending s.early
  early_log : ∀ e ∈ s.early, s.log[e.1]? = some e.2
  early_ge : ∀ e ∈ s.early, s.next ≤ e.1
  next_le : s.next ≤ s.log.length
  /-- an item that is not held has come -/
  has : ∀ n < s.log.length, (∀ e ∈ s.held, e.1 ≠ n) → s.Has n

variable {s t : Arq α} {n : ℕ}

theorem inv_new : Inv (new : Arq α) where
  held_ascending := List.Pairwise.nil
  held_log _ h := nomatch h
  early_ascending := List.Pairwise.nil
  early_log _ h := nomatch h
  early_ge _ h := nomatch h
  next_le := le_rfl
  has n h := absurd h (Nat.not_lt_zero n)

/-! ## What one step keeps -/

theorem Step.has (h : Step s t) (hn : s.Has n) : t.Has n := by
  cases h with
  | push a => exact hn
  | ack m hhas => exact hn
  | ackBelow u hle => exact hn
  | store m a hlog hge => exact hn.imp_right fun ⟨b, hb⟩ => ⟨b, mem_insertItem_of_mem hb⟩
  | take a early hearly =>
    rcases hn with hlt | ⟨b, hb⟩
    · exact .inl (Nat.lt_succ_of_lt hlt)
    · rw [hearly] at hb
      rcases List.mem_cons.mp hb with heq | hb
      · cases heq
        exact .inl (Nat.lt_succ_self _)
      · exact .inr ⟨b, hb⟩

theorem Step.log_extends (h : Step s t) : s.log <+: t.log := by
  cases h with
  | push a => exact List.prefix_append _ _
  | _ => exact List.prefix_rfl

theorem Step.next_le (h : Step s t) : s.next ≤ t.next := by
  cases h with
  | take a early hearly => exact Nat.le_succ _
  | _ => exact le_rfl

theorem Step.log_eq_some (h : Step s t) {a : α} (hn : s.log[n]? = some a) : t.log[n]? = some a := by
  cases h with
  | push b => rwa [List.getElem?_append_left (List.getElem?_eq_some_iff.mp hn).1]
  | _ => exact hn

theorem Inv.push (hs : Inv s) (a : α) :
    Inv { s with log := s.log ++ [a], held := s.held ++ [(s.log.length, a)] } := by
  have hstep : Step s _ := .push s a
  have hlt : ∀ e ∈ s.held, e.1 < s.log.length := fun e he => (List.getElem?_eq_some_iff.mp (hs.held_log e he)).1
  refine ⟨?_, ?_, hs.early_ascending, fun e he => hstep.log_eq_some (hs.early_log e he), hs.early_ge, ?_, ?_⟩
  · refine List.pairwise_append.mpr ⟨hs.held_ascending, List.pairwise_singleton _ _, fun e he e' he' => ?_⟩
    rw [List.mem_singleton.mp he']
    exact hlt e he
  · intro e he
    rcases List.mem_append.mp he with he | he
    · exact hstep.log_eq_some (hs.held_log e he)
    · rw [List.mem_singleton.mp he]
      exact List.getElem?_concat_length
  · exact hs.next_le.trans hstep.log_extends.length_le
  · intro n hn hheld
    have hne : n ≠ s.log.length := (hheld (s.log.length, a) (by simp)).symm
    rw [List.length_append, List.length_singleton] at hn
    exact hs.has n (by omega) fun e he => hheld e (List.mem_append_left _ he)

/-- An item is no longer held if it has come. -/
theorem Inv.release (hs : Inv s) (p : ℕ → Bool) (hp : ∀ n, p n = false → s.Has n) :
    Inv { s with held := s.held.filter (p ·.1) } := by
  refine ⟨hs.held_ascending.sublist List.filter_sublist, ?_, hs.early_ascending, hs.early_log, hs.early_ge, hs.next_le, ?_⟩
  · exact fun e he => hs.held_log e (List.mem_of_mem_filter he)
  · intro n hn hheld
    by_cases hpn : p n = true
    · exact hs.has n hn fun e he heq => hheld e (List.mem_filter.mpr ⟨he, heq ▸ hpn⟩) heq
    · exact hp n (Bool.not_eq_true _ ▸ hpn)

theorem Inv.store (hs : Inv s) {a : α} (hlog : s.log[n]? = some a) (hge : s.next ≤ n) :
    Inv { s with early := insertItem n a s.early } := by
  have hstep := Step.store s n a hlog hge
  refine ⟨hs.held_ascending, hs.held_log, hs.early_ascending.insertItem n a, ?_, ?_, hs.next_le, ?_⟩
  · intro e he
    rcases mem_insertItem he with rfl | he
    · exact hlog
    · exact hs.early_log e he
  · intro e he
    rcases mem_insertItem he with rfl | he
    · exact hge
    · exact hs.early_ge e he
  · exact fun n hn hheld => hstep.has (hs.has n hn hheld)

theorem Inv.take (hs : Inv s) {a : α} {early : List (ℕ × α)} (hearly : s.early = (s.next, a) :: early) :
    Inv { s with next := s.next + 1, early } := by
  have hstep := Step.take s a early hearly
  have hmem : ∀ e ∈ early, e ∈ s.early := fun e he => hearly ▸ List.mem_cons_of_mem _ he
  obtain ⟨hfirst, hasc⟩ := List.pairwise_cons.mp (hearly ▸ hs.early_ascending : Ascending _)
  refine ⟨hs.held_ascending, hs.held_log, hasc, fun e he => hs.early_log e (hmem e he), hfirst, ?_, ?_⟩
  · have hlog := hs.early_log (s.next, a) (hearly ▸ List.mem_cons_self)
    exact (List.getElem?_eq_some_iff.mp hlog).1
  · exact fun n hn hheld => hstep.has (hs.has n hn hheld)

theorem Inv.step (hs : Inv s) (h : Step s t) : Inv t := by
  cases h with
  | push a => exact hs.push a
  | ack n hhas =>
    refine hs.release (fun m => decide (m ≠ n)) fun m hm => ?_
    rwa [of_not_not (of_decide_eq_false hm)]
  | ackBelow u hle =>
    refine hs.release (fun m => decide (u ≤ m)) fun m hm => .inl ?_
    have hlt := of_decide_eq_false hm
    omega
  | store n a hlog hge => exact hs.store hlog hge
  | take a early hearly => exact hs.take hearly

/-! ## What a run keeps -/

theorem Inv.run (hs : Inv s) (h : Run s t) : Inv t := by
  induction h with
  | refl => exact hs
  | tail _ hstep ih => exact ih.step hstep

theorem Run.has (h : Run s t) (hn : s.Has n) : t.Has n := by
  induction h with
  | refl => exact hn
  | tail _ hstep ih => exact hstep.has ih

theorem Run.log_eq_some (h : Run s t) {a : α} (hn : s.log[n]? = some a) : t.log[n]? = some a := by
  induction h with
  | refl => exact hn
  | tail _ hstep ih => exact hstep.log_eq_some ih

theorem Run.log_extends (h : Run s t) : s.log <+: t.log := by
  induction h with
  | refl => exact List.prefix_rfl
  | tail _ hstep ih => exact ih.trans hstep.log_extends

theorem Run.next_le (h : Run s t) : s.next ≤ t.next := by
  induction h with
  | refl => exact le_rfl
  | tail _ hstep ih => exact ih.trans hstep.next_le

/-! ## When there is nothing left to do -/

/-- Items that leave no number out are the rest of the log. -/
theorem map_snd_eq_drop {log : List α} {es : List (ℕ × α)} {next : ℕ} (hes : Ascending es)
    (hlog : ∀ e ∈ es, next ≤ e.1 ∧ log[e.1]? = some e.2) (hall : ∀ n < log.length, next ≤ n → ∃ a, (n, a) ∈ es) :
    es.map Prod.snd = log.drop next := by
  induction es generalizing next with
  | nil =>
    have hle : log.length ≤ next := by
      by_contra hlt
      obtain ⟨a, ha⟩ := hall next (not_le.mp hlt) le_rfl
      cases ha
    rw [List.drop_eq_nil_of_le hle, List.map_nil]
  | cons e es ih =>
    obtain ⟨hfirst, hes⟩ := List.pairwise_cons.mp hes
    obtain ⟨hge, hget⟩ := hlog e List.mem_cons_self
    obtain ⟨hlt, hget⟩ := List.getElem?_eq_some_iff.mp hget
    have heq : e.1 = next := by
      obtain ⟨a, ha⟩ := hall next (by omega) le_rfl
      rcases List.mem_cons.mp ha with rfl | ha
      · rfl
      · have := hfirst _ ha
        omega
    subst heq
    rw [List.map_cons, List.drop_eq_getElem_cons hlt, hget,
      ih hes (fun e' he' => ⟨hfirst e' he', (hlog e' (List.mem_cons_of_mem _ he')).2⟩) fun n hn hle => ?_]
    obtain ⟨a, ha⟩ := hall n hn (by omega)
    rcases List.mem_cons.mp ha with rfl | ha
    · exact absurd hle (Nat.not_succ_le_self _)
    · exact ⟨a, ha⟩

theorem Inv.length_held_le (hs : Inv s) : s.held.length ≤ s.log.length := by
  refine hs.held_ascending.length_le fun e he => ⟨Nat.zero_le _, ?_⟩
  rw [Nat.zero_add]
  exact (List.getElem?_eq_some_iff.mp (hs.held_log e he)).1

/-- If nothing is held, what has come early is all that has not been taken. -/
theorem Inv.early_eq_drop (hs : Inv s) (hheld : s.held = []) : s.early.map Prod.snd = s.log.drop s.next := by
  refine map_snd_eq_drop hs.early_ascending (fun e he => ⟨hs.early_ge e he, hs.early_log e he⟩) fun n hn hle => ?_
  exact (hs.has n hn (by simp [hheld])).resolve_left (not_lt.mpr hle)

end Arq

end Lib
