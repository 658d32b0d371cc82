import KcpServer.Lib.Bytes

/-!
# Framed streams

A framing tells from the head of a stream how long its first frame is, once enough of the frame is
there. `Framing.split` cuts a stream into its complete frames and the incomplete rest.

* `flatten_split` : nothing is lost, nothing is invented;
* `split_append` : cutting after more bytes have arrived only cuts the rest further;
* `split_flatten_append` : the frames of a concatenation of frames are those frames.
-/

namespace Lib

/-- How long the first frame of a stream is, read from the bytes that have arrived. -/
structure Framing (α : Type*) where
  size : List α → Option Nat
  size_pos : ∀ {s n}, size s = some n → 0 < n
  /-- A known length does not change when more of the stream arrives. -/
  size_append : ∀ {s n}, size s = some n → ∀ t, size (s ++ t) = some n

namespace Framing
variable {α : Type*} (F : Framing α)

/-- The stream holds no complete frame. -/
def Incomplete (s : List α) : Prop := ∀ n, F.size s = some n → s.length < n

/-- The list is exactly one frame. -/
def IsFrame (f : List α) : Prop := F.size f = some f.length

/-- The complete frames at the head of a stream, and what is left. -/
def split (s : List α) : List (List α) × List α :=
  match _hn : F.size s with
  | some n =>
    if n ≤ s.length then
      let r := split (s.drop n)
      (s.take n :: r.1, r.2)
    else ([], s)
  | none => ([], s)
termination_by s.length
decreasing_by
  have := F.size_pos ‹F.size s = some n›
  rw [List.length_drop]
  omega

theorem split_of_complete {s : List α} {n : Nat} (h : F.size s = some n) (hn : n ≤ s.length) :
    F.split s = (s.take n :: (F.split (s.drop n)).1, (F.split (s.drop n)).2) := by
  rw [split]
  split
  · next m hm =>
    obtain rfl : m = n := Option.some.inj (hm.symm.trans h)
    rw [if_pos hn]
  · next hm => rw [hm] at h; cases h

theorem split_of_incomplete {s : List α} (h : F.Incomplete s) : F.split s = ([], s) := by
  rw [split]
  split
  · next n hn => rw [if_neg (by have := h n hn; omega)]
  · rfl

/-- A stream either holds no complete frame or starts with one. -/
theorem incomplete_or (s : List α) :
    F.Incomplete s ∨ ∃ n, F.size s = some n ∧ n ≤ s.length := by
  by_cases h : F.Incomplete s
  · exact Or.inl h
  · simp only [Incomplete, not_forall, not_lt] at h
    obtain ⟨n, hn, hle⟩ := h
    exact Or.inr ⟨n, hn, hle⟩

/-- Induction along the frames of a stream. -/
theorem split_induction {P : List α → Prop} (incomplete : ∀ s, F.Incomplete s → P s)
    (frame : ∀ s n, F.size s = some n → n ≤ s.length → P (s.drop n) → P s) (s : List α) : P s := by
  induction hl : s.length using Nat.strong_induction_on generalizing s with
  | _ k ih =>
    rcases F.incomplete_or s with h | ⟨n, hn, hle⟩
    · exact incomplete s h
    · have hpos := F.size_pos hn
      refine frame s n hn hle (ih _ ?_ (s.drop n) rfl)
      rw [List.length_drop]
      omega

theorem flatten_split (s : List α) : (F.split s).1.flatten ++ (F.split s).2 = s := by
  induction s using F.split_induction with
  | incomplete s h => rw [F.split_of_incomplete h]; rfl
  | frame s n hn hle ih =>
    rw [F.split_of_complete hn hle, List.flatten_cons, List.append_assoc, ih, List.take_append_drop]

theorem incomplete_split (s : List α) : F.Incomplete (F.split s).2 := by
  induction s using F.split_induction with
  | incomplete s h => rw [F.split_of_incomplete h]; exact h
  | frame s n hn hle ih => rw [F.split_of_complete hn hle]; exact ih

/-- What a stream is cut into are frames, none longer than the stream, if the length of a frame is read from the frame
itself. -/
theorem isFrame_of_mem_split (htake : ∀ {s n}, F.size s = some n → n ≤ s.length → F.size (s.take n) = some n)
    {s f : List α} (hf : f ∈ (F.split s).1) : F.IsFrame f ∧ f.length ≤ s.length := by
  induction s using F.split_induction with
  | incomplete s h =>
    rw [F.split_of_incomplete h] at hf
    simp at hf
  | frame s n hn hle ih =>
    rw [F.split_of_complete hn hle] at hf
    rcases List.mem_cons.mp hf with rfl | hf
    · have hlen : (s.take n).length = n := by simp [hle]
      refine ⟨?_, by omega⟩
      rw [IsFrame, hlen]
      exact htake hn hle
    · obtain ⟨hframe, hlen⟩ := ih hf
      rw [List.length_drop] at hlen
      exact ⟨hframe, by omega⟩

/-- Bytes that arrive later only extend the rest. -/
theorem split_append (s t : List α) : F.split (s ++ t) =
    ((F.split s).1 ++ (F.split ((F.split s).2 ++ t)).1, (F.split ((F.split s).2 ++ t)).2) := by
  induction s using F.split_induction with
  | incomplete s h => rw [F.split_of_incomplete h]; rfl
  | frame s n hn hle ih =>
    have hle' : n ≤ (s ++ t).length := by rw [List.length_append]; omega
    rw [F.split_of_complete (F.size_append hn t) hle', F.split_of_complete hn hle,
      List.take_append_of_le_length hle, List.drop_append_of_le_length hle, ih]
    rfl

theorem IsFrame.incomplete_of_append {f s t : List α} (hf : F.IsFrame f) (h : s ++ t = f) (ht : t ≠ []) :
    F.Incomplete s := by
  intro n hn
  have hsize := F.size_append hn t
  rw [h, hf] at hsize
  have hlen := congrArg List.length h
  have hpos := List.length_pos_iff.mpr ht
  rw [List.length_append] at hlen
  have := Option.some.inj hsize
  omega

theorem split_isFrame_append {f : List α} (hf : F.IsFrame f) (t : List α) :
    F.split (f ++ t) = (f :: (F.split t).1, (F.split t).2) := by
  rw [F.split_of_complete (F.size_append hf t) (by simp), List.take_left, List.drop_left]

/-- The frames of a concatenation of frames are those frames. -/
theorem split_flatten_append {fs : List (List α)} (hfs : ∀ f ∈ fs, F.IsFrame f) (t : List α) :
    F.split (fs.flatten ++ t) = (fs ++ (F.split t).1, (F.split t).2) := by
  induction fs with
  | nil => rfl
  | cons f fs ih =>
    rw [List.flatten_cons, List.append_assoc, F.split_isFrame_append (hfs f (by simp)),
      ih (fun g hg => hfs g (by simp [hg]))]
    rfl

theorem split_nil : F.split [] = ([], []) := by
  refine F.split_of_incomplete fun n hn => ?_
  exact F.size_pos hn

theorem split_flatten {fs : List (List α)} (hfs : ∀ f ∈ fs, F.IsFrame f) :
    F.split fs.flatten = (fs, []) := by
  have h := F.split_flatten_append hfs []
  rwa [List.append_nil, F.split_nil, List.append_nil] at h

/-- The frames of a prefix of a concatenation of frames are a prefix of those frames. -/
theorem split_prefix {fs : List (List α)} (hfs : ∀ f ∈ fs, F.IsFrame f) {s t : List α}
    (h : s ++ t = fs.flatten) : (F.split s).1 <+: fs := by
  have h' := F.split_append s t
  rw [h, F.split_flatten hfs] at h'
  exact ⟨_, (congrArg Prod.fst h').symm⟩

/-- What a prefix leaves over and what is still to come are the remaining frames. -/
theorem split_prefix_rest {fs : List (List α)} (hfs : ∀ f ∈ fs, F.IsFrame f) {s t : List α}
    (h : s ++ t = fs.flatten) : ∃ gs, fs = (F.split s).1 ++ gs ∧ (F.split s).2 ++ t = gs.flatten := by
  obtain ⟨gs, hgs⟩ := F.split_prefix hfs h
  refine ⟨gs, hgs.symm, ?_⟩
  have h1 : (F.split s).1.flatten ++ ((F.split s).2 ++ t) =
      (F.split s).1.flatten ++ gs.flatten := by
    rw [← List.append_assoc, F.flatten_split, h, ← List.flatten_append, hgs]
  exact List.append_cancel_left h1

/-- A prefix of a stream of things with frames consists of the first of them and a rest. -/
theorem split_prefix_map {β : Type*} (g : β → List α) {fs : List β} (hfs : ∀ f ∈ fs, F.IsFrame (g f)) {s t : List α}
    (h : s ++ t = (fs.map g).flatten) : ∃ gs hs rest, fs = gs ++ hs ∧ s = (gs.map g).flatten ++ rest ∧
      rest ++ t = (hs.map g).flatten ∧ F.Incomplete rest := by
  have hmap : ∀ b ∈ fs.map g, F.IsFrame b := by
    intro b hb
    obtain ⟨f, hf, rfl⟩ := List.mem_map.mp hb
    exact hfs f hf
  obtain ⟨bs, hbs, hrest⟩ := F.split_prefix_rest hmap h
  obtain ⟨gs, hs, rfl, hgs, rfl⟩ := List.map_eq_append_iff.mp hbs
  refine ⟨gs, hs, (F.split s).2, rfl, ?_, hrest, F.incomplete_split s⟩
  rw [hgs, F.flatten_split]

end Framing

/-! ## Length-prefixed frames -/

/-- Frames with a header of `h + 4` bytes whose first four are the little-endian length of what
follows the header. -/
def lenPrefixed (h : Nat) : Framing UInt8 where
  size s := if h + 4 ≤ s.length then some (h + 4 + leNat (s.take 4)) else none
  size_pos := by
    intro s n hs
    split at hs
    · cases hs; omega
    · cases hs
  size_append := by
    intro s n hs t
    split at hs
    · next hle =>
      rw [if_pos (by rw [List.length_append]; omega), List.take_append_of_le_length (by omega)]
      exact hs
    · cases hs

theorem lenPrefixed_size {h : Nat} {s : Bytes} (hs : h + 4 ≤ s.length) :
    (lenPrefixed h).size s = some (h + 4 + leNat (s.take 4)) := if_pos hs

theorem lenPrefixed_size_of_lt {h : Nat} {s : Bytes} (hs : s.length < h + 4) :
    (lenPrefixed h).size s = none := if_neg (by omega)

theorem lenPrefixed_incomplete_of_lt {h : Nat} {s : Bytes} (hs : s.length < h + 4) :
    (lenPrefixed h).Incomplete s := by
  intro n hn
  rw [lenPrefixed_size_of_lt hs] at hn
  cases hn

/-- The length of a frame is read from the frame itself. -/
theorem lenPrefixed_size_take {h : Nat} {s : Bytes} {n : Nat} (hn : (lenPrefixed h).size s = some n)
    (hle : n ≤ s.length) : (lenPrefixed h).size (s.take n) = some n := by
  by_cases hs : h + 4 ≤ s.length
  · rw [lenPrefixed_size hs] at hn
    cases hn
    rw [lenPrefixed_size (by rw [List.length_take]; omega), List.take_take, min_eq_left (by omega)]
  · rw [lenPrefixed_size_of_lt (by omega)] at hn
    cases hn

theorem lenPrefixed_isFrame {h : Nat} (hdr body : Bytes) (hh : hdr.length = h)
    (hb : body.length < 256 ^ 4) : (lenPrefixed h).IsFrame (le 4 body.length ++ hdr ++ body) := by
  have hlen : (le 4 body.length ++ hdr ++ body).length = h + 4 + body.length := by
    simp [hh]; omega
  rw [Framing.IsFrame, lenPrefixed_size (by omega), hlen, List.append_assoc,
    List.take_append_of_le_length (by simp), List.take_of_length_le (by simp), leNat_le_of_lt hb]

end Lib
