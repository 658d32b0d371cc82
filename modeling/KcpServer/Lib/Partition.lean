import Mathlib

/-!
# Objects that have one place each

Objects `0, 1, .., n - 1` have been created, and each stands once in one of several lists. `Partition.move` : so it stays
when two of the lists exchange objects and take new ones; `Partition.existsUnique` : every object has exactly one place.
-/

namespace Lib

variable {κ : Type*}

/-- The lists hold the numbers below `n`, each once. -/
structure Partition (held : κ → List Nat) (n : Nat) : Prop where
  nodup : ∀ k, (held k).Nodup
  unique : ∀ {k k' u}, u ∈ held k → u ∈ held k' → k = k'
  lt_iff : ∀ u, u < n ↔ ∃ k, u ∈ held k

namespace Partition
variable {held held' : κ → List Nat} {n n' : Nat} {a b k : κ} {u : Nat}

theorem empty (held : κ → List Nat) (h : ∀ k, held k = []) : Partition held 0 where
  nodup k := by simp [h]
  unique hu := by simp [h] at hu
  lt_iff u := by simp [h]

theorem lt (h : Partition held n) (hu : u ∈ held k) : u < n := (h.lt_iff u).mpr ⟨k, hu⟩

/-! ## Two lists exchange objects and take new ones -/

section Move
variable (hperm : (held' a ++ held' b).Perm (held a ++ held b ++ List.range' n (n' - n)))
include hperm

theorem mem_pair (hn : n ≤ n') (u : Nat) :
    u ∈ held' a ∨ u ∈ held' b ↔ (u ∈ held a ∨ u ∈ held b) ∨ n ≤ u ∧ u < n' := by
  have hmem := hperm.mem_iff (a := u)
  simp only [List.mem_append, List.mem_range'_1] at hmem
  rw [hmem]
  apply or_congr_right
  omega

theorem nodup_pair (h : Partition held n) (hab : a ≠ b) : (held' a ++ held' b).Nodup := by
  rw [hperm.nodup_iff, List.nodup_append, List.nodup_append]
  refine ⟨⟨h.nodup a, h.nodup b, ?_⟩, List.nodup_range', ?_⟩
  · intro u hu v hv huv
    subst huv
    exact hab (h.unique hu hv)
  · intro u hu v hv huv
    subst huv
    rw [List.mem_range'_1] at hv
    have : u < n := (List.mem_append.mp hu).elim h.lt h.lt
    omega

/-- The lists still hold every object once. -/
theorem move (h : Partition held n) (hab : a ≠ b) (hn : n ≤ n') (hother : ∀ k, k ≠ a → k ≠ b → held' k = held k) :
    Partition held' n' := by
  have hmem := mem_pair hperm hn
  obtain ⟨ha, hb, hdisj⟩ := List.nodup_append.mp (nodup_pair hperm h hab)
  -- a list is one of the two, or as it was and apart from the two
  have hcases : ∀ {k u}, u ∈ held' k → k = a ∨ k = b ∨ u ∈ held k ∧ ¬ (u ∈ held' a ∨ u ∈ held' b) := by
    intro k u hu
    by_cases hka : k = a
    · exact .inl hka
    by_cases hkb : k = b
    · exact .inr (.inl hkb)
    rw [hother k hka hkb] at hu
    refine .inr (.inr ⟨hu, ?_⟩)
    rw [hmem]
    rintro ((hu' | hu') | ⟨hge, -⟩)
    · exact hka (h.unique hu hu')
    · exact hkb (h.unique hu hu')
    · exact absurd (h.lt hu) (not_lt.mpr hge)
  refine ⟨?_, ?_, ?_⟩
  · intro k
    by_cases hka : k = a
    · exact hka ▸ ha
    · by_cases hkb : k = b
      · exact hkb ▸ hb
      · rw [hother k hka hkb]
        exact h.nodup k
  · intro k k' u hu hu'
    rcases hcases hu with rfl | rfl | ⟨hold, hout⟩
    · rcases hcases hu' with rfl | rfl | ⟨-, hout⟩
      · rfl
      · exact absurd rfl (hdisj u hu u hu')
      · exact absurd (.inl hu) hout
    · rcases hcases hu' with rfl | rfl | ⟨-, hout⟩
      · exact absurd rfl (hdisj u hu' u hu)
      · rfl
      · exact absurd (.inr hu) hout
    · rcases hcases hu' with rfl | rfl | ⟨hold', -⟩
      · exact absurd (.inl hu') hout
      · exact absurd (.inr hu') hout
      · exact h.unique hold hold'
  · intro u
    have hpair : u ∈ held' a ∨ u ∈ held' b → ∃ k, u ∈ held' k := fun hu => hu.elim (⟨a, ·⟩) (⟨b, ·⟩)
    constructor
    · intro hu
      by_cases hold : u < n
      · obtain ⟨k, hk⟩ := (h.lt_iff u).mp hold
        by_cases hka : k = a
        · exact hpair ((hmem u).mpr (.inl (.inl (hka ▸ hk))))
        · by_cases hkb : k = b
          · exact hpair ((hmem u).mpr (.inl (.inr (hkb ▸ hk))))
          · exact ⟨k, (hother k hka hkb).symm ▸ hk⟩
      · exact hpair ((hmem u).mpr (.inr ⟨not_lt.mp hold, hu⟩))
    · rintro ⟨k, hk⟩
      have hlt : u ∈ held' a ∨ u ∈ held' b → u < n' := by
        intro hu
        rcases (hmem u).mp hu with (hu | hu) | ⟨-, hu⟩
        · exact lt_of_lt_of_le (h.lt hu) hn
        · exact lt_of_lt_of_le (h.lt hu) hn
        · exact hu
      rcases hcases hk with rfl | rfl | ⟨hold, -⟩
      · exact hlt (.inl hk)
      · exact hlt (.inr hk)
      · exact lt_of_lt_of_le (h.lt hold) hn

end Move

/-- Every object has exactly one place. -/
theorem existsUnique (h : Partition held n) (hu : u < n) : ∃! p : κ × Nat, (held p.1)[p.2]? = some u := by
  obtain ⟨k, hk⟩ := (h.lt_iff u).mp hu
  obtain ⟨i, hi, hget⟩ := List.getElem_of_mem hk
  refine ⟨(k, i), by simp [hi, hget], ?_⟩
  rintro ⟨k', j⟩ hj
  obtain ⟨hj, hget'⟩ := List.getElem?_eq_some_iff.mp hj
  obtain rfl : k' = k := h.unique (List.mem_of_getElem hget') hk
  exact Prod.ext rfl ((h.nodup k').getElem_inj_iff.mp (hget'.trans hget.symm))

end Partition

end Lib
