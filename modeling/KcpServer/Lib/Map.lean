import Mathlib

/-!
# Finite maps

`std::map` is `Std.TreeMap`: iteration goes through the keys in increasing order. The lemmas say what an entry of a
changed map is, in the form in which invariants over maps use it.
-/

namespace Lib
open Std

theorem values_eq {κ ν : Type*} [Ord κ] (m : TreeMap κ ν) : m.values = m.toList.map Prod.snd := by
  have h : m.values = m.foldr (fun _ v vs => v :: vs) [] := rfl
  rw [h, TreeMap.foldr_eq_foldr_toList]
  induction m.toList with
  | nil => rfl
  | cons e es ih => rw [List.foldr_cons, List.map_cons, ih]

section Map
variable {κ ν : Type*} [Ord κ] [TransOrd κ] [LawfulEqOrd κ] {m : TreeMap κ ν} {a k : κ} {v w : ν}

theorem insert_eq_some : (m.insert k v)[a]? = some w ↔ (a = k ∧ w = v) ∨ (a ≠ k ∧ m[a]? = some w) := by
  classical
  rw [TreeMap.getElem?_insert]
  simp only [LawfulEqCmp.compare_eq_iff_eq]
  by_cases h : k = a
  · simp [h, eq_comm]
  · simp [h, show a ≠ k from fun h' => h h'.symm]

theorem erase_eq_some : (m.erase k)[a]? = some w ↔ a ≠ k ∧ m[a]? = some w := by
  classical
  rw [TreeMap.getElem?_erase]
  simp only [LawfulEqCmp.compare_eq_iff_eq]
  by_cases h : k = a
  · simp [h]
  · simp [h, show a ≠ k from fun h' => h h'.symm]

theorem insert_eq_none : (m.insert k v)[a]? = none ↔ a ≠ k ∧ m[a]? = none := by
  classical
  rw [TreeMap.getElem?_insert]
  simp only [LawfulEqCmp.compare_eq_iff_eq]
  by_cases h : k = a
  · simp [h]
  · simp [h, show a ≠ k from fun h' => h h'.symm]

theorem getElem?_insert_of_ne (h : a ≠ k) : (m.insert k v)[a]? = m[a]? := by
  rw [TreeMap.getElem?_insert, if_neg]
  rw [LawfulEqCmp.compare_eq_iff_eq]
  exact fun h' => h h'.symm

theorem getElem?_erase_of_ne (h : a ≠ k) : (m.erase k)[a]? = m[a]? := by
  rw [TreeMap.getElem?_erase, if_neg]
  rw [LawfulEqCmp.compare_eq_iff_eq]
  exact fun h' => h h'.symm

theorem insert_of_entry (h : m[a]? = some w) (hk : m[k]? ≠ some w) : (m.insert k v)[a]? = some w := by
  refine insert_eq_some.mpr (Or.inr ⟨?_, h⟩)
  rintro rfl
  exact hk h

theorem erase_of_entry (h : m[a]? = some w) (hk : m[k]? ≠ some w) : (m.erase k)[a]? = some w := by
  refine erase_eq_some.mpr ⟨?_, h⟩
  rintro rfl
  exact hk h

omit [LawfulEqOrd κ] in
theorem mem_iff_exists : k ∈ m ↔ ∃ v, m[k]? = some v := by
  rw [TreeMap.mem_iff_isSome_getElem?, Option.isSome_iff_exists]

omit [LawfulEqOrd κ] in
theorem not_isEmpty (h : m[k]? = some v) : ¬ m.isEmpty = true := by
  rw [TreeMap.isEmpty_eq_false_of_contains (TreeMap.contains_iff_mem.mpr (mem_iff_exists.mpr ⟨v, h⟩))]
  exact Bool.false_ne_true

theorem exists_entry (h : ¬ m.isEmpty = true) : ∃ (k : κ) (v : ν), m[k]? = some v := by
  rw [← TreeMap.isEmpty_toList, List.isEmpty_iff] at h
  obtain ⟨⟨k, v⟩, hkv⟩ := List.exists_mem_of_ne_nil _ h
  exact ⟨k, v, TreeMap.mem_toList_iff_getElem?_eq_some.mp hkv⟩

theorem mem_values : v ∈ m.values ↔ ∃ k : κ, m[k]? = some v := by
  rw [values_eq, List.mem_map]
  constructor
  · rintro ⟨⟨k, w⟩, hk, rfl⟩
    exact ⟨k, TreeMap.mem_toList_iff_getElem?_eq_some.mp hk⟩
  · rintro ⟨k, hk⟩
    exact ⟨(k, v), TreeMap.mem_toList_iff_getElem?_eq_some.mpr hk, rfl⟩

theorem nodup_toList (m : TreeMap κ ν) : m.toList.Nodup := by
  refine (TreeMap.distinct_keys_toList (t := m)).imp fun {a b} h => ?_
  rintro rfl
  exact h (LawfulEqCmp.compare_eq_iff_eq.mpr rfl)

end Map

/-- A map whose keys are `0, 1, ..` iterates over them in that order. -/
theorem map_toList_of_dense {ν β : Type*} {m : TreeMap Int ν} {f : ν → β} {bs : List β}
    (h : ∀ k : Int, m[k]?.map f = if 0 ≤ k then bs[k.toNat]? else none) : (m.toList.map fun e => f e.2) = bs := by
  have hkeys : m.toList.map Prod.fst = (List.range bs.length).map ((↑) : Nat → Int) := by
    rw [TreeMap.map_fst_toList_eq_keys]
    apply List.Pairwise.eq_of_mem_iff (r := (· < ·))
    · exact TreeMap.ordered_keys.imp fun hlt => Int.compare_eq_lt.mp hlt
    · exact List.pairwise_lt_range.map _ fun _ _ hlt => Int.ofNat_lt.mpr hlt
    · intro k
      rw [TreeMap.mem_keys, mem_iff_exists, ← Option.isSome_iff_exists, ← Option.isSome_map (f := f), h, List.mem_map]
      constructor
      · intro hk
        split at hk
        · next h0 =>
          rw [isSome_getElem?] at hk
          exact ⟨k.toNat, List.mem_range.mpr hk, Int.toNat_of_nonneg h0⟩
        · cases hk
      · rintro ⟨n, hn, rfl⟩
        rw [if_pos (Int.natCast_nonneg n), Int.toNat_natCast, isSome_getElem?]
        exact List.mem_range.mp hn
  have hlen : m.toList.length = bs.length := by
    have := congrArg List.length hkeys
    rwa [List.length_map, List.length_map, List.length_range] at this
  apply List.ext_getElem (by rw [List.length_map, hlen])
  intro i hi hi'
  have hi₁ : i < m.toList.length := hlen ▸ hi'
  have hkey : (m.toList[i]).1 = i := by
    have := List.getElem_of_eq hkeys (by rwa [List.length_map])
    rwa [List.getElem_map, List.getElem_map, List.getElem_range] at this
  have hentry : m[(i : Int)]? = some (m.toList[i]).2 := by
    rw [← TreeMap.mem_toList_iff_getElem?_eq_some, ← hkey]
    exact List.getElem_mem hi₁
  have hval := h i
  rw [hentry, if_pos (Int.natCast_nonneg i), Int.toNat_natCast, Option.map_some, List.getElem?_eq_getElem hi'] at hval
  rw [List.getElem_map]
  exact Option.some.inj hval

end Lib
