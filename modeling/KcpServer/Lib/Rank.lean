import Mathlib

/-!
# Ranks in a finite set

`rank s k` is the number of elements of `s` up to `k`. A `Roll` is a set that grows while its elements, and elements
that are not in it, announce their rank again and again. `Roll.agrees_step_iff` : every element keeps its rank and no two
have the same one exactly as long as the set grows at its upper end and nobody outside is above an element.
-/

namespace Lib

section Rank
variable {α : Type*} [LinearOrder α] {s : Finset α} {a b k : α}

/-- The number of elements up to `k`. -/
def rank (s : Finset α) (k : α) : Nat := (s.filter (· ≤ k)).card

theorem rank_le_card (s : Finset α) (k : α) : rank s k ≤ s.card := Finset.card_filter_le _ _

theorem rank_pos (h : k ∈ s) : 0 < rank s k := by
  apply Finset.card_pos.mpr
  exact ⟨k, Finset.mem_filter.mpr ⟨h, le_rfl⟩⟩

theorem rank_lt_rank (hb : b ∈ s) (h : a < b) : rank s a < rank s b := by
  apply Finset.card_lt_card
  rw [Finset.ssubset_iff_of_subset (Finset.monotone_filter_right s fun _ _ hx => le_trans hx h.le)]
  refine ⟨b, Finset.mem_filter.mpr ⟨hb, le_rfl⟩, fun hba => ?_⟩
  exact absurd (Finset.mem_filter.mp hba).2 (not_le.mpr h)

theorem rank_inj (ha : a ∈ s) (hb : b ∈ s) (h : rank s a = rank s b) : a = b := by
  rcases lt_trichotomy a b with hlt | heq | hlt
  · exact absurd h (rank_lt_rank hb hlt).ne
  · exact heq
  · exact absurd h.symm (rank_lt_rank ha hlt).ne

theorem rank_eq_zero (h : ∀ b ∈ s, k < b) : rank s k = 0 := by
  apply Finset.card_eq_zero.mpr
  apply Finset.filter_eq_empty_iff.mpr
  exact fun b hb => not_le.mpr (h b hb)

/-- A rank depends on the smaller elements only. -/
theorem rank_insert_of_lt (h : k < a) : rank (insert a s) k = rank s k := by
  unfold rank
  rw [Finset.filter_insert, if_neg (not_le.mpr h)]

theorem rank_insert_self (h : a ∉ s) : rank (insert a s) a = rank s a + 1 := by
  unfold rank
  rw [Finset.filter_insert, if_pos le_rfl, Finset.card_insert_of_notMem]
  exact fun ha => h (Finset.mem_filter.mp ha).1

/-- The rank of a new element is one that an element above it has had. -/
theorem exists_rank_insert (ha : a ∉ s) (hb : b ∈ s) (h : a < b) : ∃ c ∈ s, rank s c = rank (insert a s) a := by
  have hne : (s.filter (a < ·)).Nonempty := ⟨b, Finset.mem_filter.mpr ⟨hb, h⟩⟩
  set c := (s.filter (a < ·)).min' hne with hc
  obtain ⟨hcs, hac⟩ := Finset.mem_filter.mp (hc ▸ Finset.min'_mem _ hne)
  refine ⟨c, hcs, ?_⟩
  -- up to `c` there are the elements up to `a`, and `c` itself
  have hsplit : s.filter (· ≤ c) = insert c (s.filter (· ≤ a)) := by
    ext x
    rw [Finset.mem_filter, Finset.mem_insert, Finset.mem_filter]
    constructor
    · rintro ⟨hx, hxc⟩
      by_cases hxa : x ≤ a
      · exact .inr ⟨hx, hxa⟩
      · have hmin : c ≤ x := Finset.min'_le _ _ (Finset.mem_filter.mpr ⟨hx, not_le.mp hxa⟩)
        exact .inl (le_antisymm hxc hmin)
    · rintro (rfl | ⟨hx, hxa⟩)
      · exact ⟨hcs, le_rfl⟩
      · exact ⟨hx, hxa.trans hac.le⟩
  have hnot : c ∉ s.filter (· ≤ a) := fun hmem => absurd (Finset.mem_filter.mp hmem).2 (not_le.mpr hac)
  rw [rank_insert_self ha, rank, hsplit, Finset.card_insert_of_notMem hnot, rank]

/-- The rank of whoever is above an element is the rank of an element. -/
theorem exists_rank_eq (hb : b ∈ s) (h : b ≤ k) : ∃ c ∈ s, rank s c = rank s k := by
  have hne : (s.filter (· ≤ k)).Nonempty := ⟨b, Finset.mem_filter.mpr ⟨hb, h⟩⟩
  set c := (s.filter (· ≤ k)).max' hne with hc
  obtain ⟨hcs, hck⟩ := Finset.mem_filter.mp (hc ▸ Finset.max'_mem _ hne)
  refine ⟨c, hcs, congrArg Finset.card ?_⟩
  ext x
  rw [Finset.mem_filter, Finset.mem_filter]
  constructor
  · rintro ⟨hx, hxc⟩
    exact ⟨hx, hxc.trans hck⟩
  · rintro ⟨hx, hxk⟩
    exact ⟨hx, Finset.le_max' _ _ (Finset.mem_filter.mpr ⟨hx, hxk⟩)⟩

end Rank

/-! ## Announcing ranks -/

/-- A set, and the ranks that have been announced. -/
structure Roll (α : Type*) where
  present : Finset α
  said : List (α × Nat)

/-- An element comes, or is there already; or it speaks without coming. -/
inductive RollOp (α : Type*)
  | enter (a : α)
  | speak (a : α)

namespace Roll
variable {α : Type*} [LinearOrder α]

def step (s : Roll α) : RollOp α → Roll α
  | .enter a => ⟨insert a s.present, s.said ++ [(a, rank (insert a s.present) a)]⟩
  | .speak a => ⟨s.present, s.said ++ [(a, rank s.present a)]⟩

/-- One rank for everyone, and not the same for two. -/
def Agrees (s : Roll α) : Prop := ∀ e ∈ s.said, ∀ e' ∈ s.said, e.1 = e'.1 ↔ e.2 = e'.2

/-- Whoever comes is there already, or is above all that are there and has not spoken before; whoever speaks is there,
or is below all that are there and the only one outside who has spoken. -/
def Keeps (s : Roll α) : RollOp α → Prop
  | .enter a => a ∈ s.present ∨ (∀ b ∈ s.present, b < a) ∧ ∀ e ∈ s.said, e.1 ≠ a
  | .speak a => a ∈ s.present ∨ (∀ b ∈ s.present, a < b) ∧ ∀ e ∈ s.said, e.1 ∈ s.present ∨ e.1 = a

/-- Everyone who is there has announced the rank that it has now; outside at most one has spoken, with rank 0. -/
structure Inv (s : Roll α) : Prop where
  said : ∀ a ∈ s.present, (a, rank s.present a) ∈ s.said
  inside : ∀ e ∈ s.said, e.1 ∈ s.present → e.2 = rank s.present e.1
  outside : ∀ e ∈ s.said, e.1 ∉ s.present → e.2 = 0
  alone : ∀ e ∈ s.said, ∀ e' ∈ s.said, e.1 ∉ s.present → e'.1 ∉ s.present → e.1 = e'.1

variable {s : Roll α} {o : RollOp α}

theorem inv_empty : Inv (⟨∅, []⟩ : Roll α) := by
  refine ⟨fun a ha => ?_, fun e he => ?_, fun e he => ?_, fun e he => ?_⟩
  · cases Finset.notMem_empty a ha
  all_goals cases he

theorem Inv.agrees (h : s.Inv) : s.Agrees := by
  intro e he e' he'
  by_cases hin : e.1 ∈ s.present <;> by_cases hin' : e'.1 ∈ s.present
  · rw [h.inside e he hin, h.inside e' he' hin']
    exact ⟨fun heq => by rw [heq], rank_inj hin hin'⟩
  · rw [h.inside e he hin, h.outside e' he' hin']
    exact ⟨fun heq => absurd (heq ▸ hin) hin', fun heq => absurd heq (rank_pos hin).ne'⟩
  · rw [h.outside e he hin, h.inside e' he' hin']
    exact ⟨fun heq => absurd (heq ▸ hin') hin, fun heq => absurd heq.symm (rank_pos hin').ne'⟩
  · rw [h.outside e he hin, h.outside e' he' hin']
    exact ⟨fun _ => rfl, fun _ => h.alone e he e' he' hin hin'⟩

theorem Inv.again {a : α} (h : s.Inv) (ha : a ∈ s.present) :
    Inv ⟨s.present, s.said ++ [(a, rank s.present a)]⟩ where
  said b hb := List.mem_append_left _ (h.said b hb)
  inside e he hin := by
    rcases List.mem_append.mp he with he | he
    · exact h.inside e he hin
    · rw [List.mem_singleton.mp he]
  outside e he hout := by
    rcases List.mem_append.mp he with he | he
    · exact h.outside e he hout
    · rw [List.mem_singleton.mp he] at hout
      exact absurd ha hout
  alone e he e' he' hout hout' := by
    have hold : ∀ e ∈ s.said ++ [(a, rank s.present a)], e.1 ∉ s.present → e ∈ s.said := by
      intro e he hout
      rcases List.mem_append.mp he with he | he
      · exact he
      · rw [List.mem_singleton.mp he] at hout
        exact absurd ha hout
    exact h.alone e (hold e he hout) e' (hold e' he' hout') hout hout'

theorem Inv.enter {a : α} (h : s.Inv) (htop : ∀ b ∈ s.present, b < a) (hnew : ∀ e ∈ s.said, e.1 ≠ a) :
    Inv ⟨insert a s.present, s.said ++ [(a, rank (insert a s.present) a)]⟩ := by
  have hsame : ∀ b ∈ s.present, rank (insert a s.present) b = rank s.present b := fun b hb =>
    rank_insert_of_lt (htop b hb)
  have hold : ∀ e ∈ s.said ++ [(a, rank (insert a s.present) a)], e.1 ∉ insert a s.present →
      e ∈ s.said ∧ e.1 ∉ s.present := by
    intro e he hout
    rw [Finset.mem_insert, not_or] at hout
    rcases List.mem_append.mp he with he | he
    · exact ⟨he, hout.2⟩
    · rw [List.mem_singleton.mp he] at hout
      exact absurd rfl hout.1
  refine ⟨fun b hb => ?_, fun e he hin => ?_, fun e he hout => ?_, fun e he e' he' hout hout' => ?_⟩
  · rcases Finset.mem_insert.mp hb with rfl | hb
    · exact List.mem_append_right _ (List.mem_singleton_self _)
    · show (b, rank (insert a s.present) b) ∈ _
      rw [hsame b hb]
      exact List.mem_append_left _ (h.said b hb)
  · rcases List.mem_append.mp he with he | he
    · have hpresent : e.1 ∈ s.present := (Finset.mem_insert.mp hin).resolve_left (hnew e he)
      show e.2 = rank (insert a s.present) e.1
      rw [hsame _ hpresent]
      exact h.inside e he hpresent
    · rw [List.mem_singleton.mp he]
  · obtain ⟨he, hout⟩ := hold e he hout
    exact h.outside e he hout
  · obtain ⟨he, hout⟩ := hold e he hout
    obtain ⟨he', hout'⟩ := hold e' he' hout'
    exact h.alone e he e' he' hout hout'

theorem Inv.speak {a : α} (h : s.Inv) (ha : a ∉ s.present) (hlow : ∀ b ∈ s.present, a < b)
    (honly : ∀ e ∈ s.said, e.1 ∈ s.present ∨ e.1 = a) : Inv ⟨s.present, s.said ++ [(a, rank s.present a)]⟩ := by
  have hself : ∀ e ∈ s.said ++ [(a, rank s.present a)], e.1 ∉ s.present → e.1 = a := by
    intro e he hout
    rcases List.mem_append.mp he with he | he
    · exact (honly e he).resolve_left hout
    · rw [List.mem_singleton.mp he]
  refine ⟨fun b hb => List.mem_append_left _ (h.said b hb), fun e he hin => ?_, fun e he hout => ?_,
    fun e he e' he' hout hout' => (hself e he hout).trans (hself e' he' hout').symm⟩
  · rcases List.mem_append.mp he with he | he
    · exact h.inside e he hin
    · rw [List.mem_singleton.mp he] at hin
      exact absurd hin ha
  · rcases List.mem_append.mp he with he | he
    · exact h.outside e he hout
    · rw [List.mem_singleton.mp he]
      exact rank_eq_zero hlow

theorem Inv.step (h : s.Inv) (hkeeps : s.Keeps o) : (s.step o).Inv := by
  cases o with
  | enter a =>
    by_cases ha : a ∈ s.present
    · unfold Roll.step
      dsimp only
      rw [Finset.insert_eq_of_mem ha]
      exact h.again ha
    · obtain ⟨htop, hnew⟩ := hkeeps.resolve_left ha
      exact h.enter htop hnew
  | speak a =>
    by_cases ha : a ∈ s.present
    · exact h.again ha
    · obtain ⟨hlow, honly⟩ := hkeeps.resolve_left ha
      exact h.speak ha hlow honly

/-- **The ranks agree** after a step exactly if the step keeps them. -/
theorem agrees_step_iff (h : s.Inv) : (s.step o).Agrees ↔ s.Keeps o := by
  refine ⟨fun hagrees => ?_, fun hkeeps => (h.step hkeeps).agrees⟩
  cases o with
  | enter a =>
    by_cases ha : a ∈ s.present
    · exact .inl ha
    -- what is said now agrees with whatever has been said
    have hlast : ∀ e ∈ s.said, e.1 = a ↔ e.2 = rank (insert a s.present) a := fun e he =>
      hagrees e (List.mem_append_left _ he) _ (List.mem_append_right _ (List.mem_singleton_self _))
    refine .inr ⟨fun b hb => ?_, fun e he heq => ?_⟩
    · by_contra hnot
      have hlt : a < b := lt_of_le_of_ne (not_lt.mp hnot) fun heq => ha (heq ▸ hb)
      obtain ⟨c, hc, hrank⟩ := exists_rank_insert ha hb hlt
      exact ha ((hlast _ (h.said c hc)).mpr hrank ▸ hc)
    · have hzero : e.2 = 0 := h.outside e he (heq ▸ ha)
      have hpos := rank_pos (Finset.mem_insert_self a s.present)
      have hrank := (hlast e he).mp heq
      omega
  | speak a =>
    by_cases ha : a ∈ s.present
    · exact .inl ha
    have hlast : ∀ e ∈ s.said, e.1 = a ↔ e.2 = rank s.present a := fun e he =>
      hagrees e (List.mem_append_left _ he) _ (List.mem_append_right _ (List.mem_singleton_self _))
    have hlow : ∀ b ∈ s.present, a < b := by
      intro b hb
      by_contra hnot
      obtain ⟨c, hc, hrank⟩ := exists_rank_eq hb (not_lt.mp hnot)
      exact ha ((hlast _ (h.said c hc)).mpr hrank ▸ hc)
    refine .inr ⟨hlow, fun e he => ?_⟩
    by_cases hin : e.1 ∈ s.present
    · exact .inl hin
    · exact .inr ((hlast e he).mpr ((h.outside e he hin).trans (rank_eq_zero hlow).symm))

end Roll

end Lib
