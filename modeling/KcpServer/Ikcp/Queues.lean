import KcpServer.Ikcp.Flush
import KcpServer.Lib.Arq

/-!
# The loops over `snd_buf` and `rcv_buf`

`Tracks segs es` : the segments of a queue are the items `es`, their numbers shown modulo `2 ^ 32`. Every loop of `ikcp.c`
over a queue is then an operation on items; a loop that compares numbers needs them to be near.
-/

namespace KcpServer.Ikcp
open Lib

/-- What a segment carries: its place in the message, and its data. -/
abbrev Frag := UInt32 × Bytes

/-- The segments are the items. -/
def Tracks (segs : List IKCPSEG) (es : List (ℕ × Frag)) : Prop :=
  List.Forall₂ (fun seg e => seg.sn = serial e.1 ∧ seg.frag = e.2) segs es

theorem exists_of_forall₂ {α β : Type*} {R : α → β → Prop} {as : List α} {bs : List β} {b : β} (h : List.Forall₂ R as bs)
    (hb : b ∈ bs) : ∃ a ∈ as, R a b := by
  induction h with
  | nil => cases hb
  | cons hhead _ ih =>
    rcases List.mem_cons.mp hb with rfl | hb
    · exact ⟨_, List.mem_cons_self, hhead⟩
    · obtain ⟨a, ha, hR⟩ := ih hb
      exact ⟨a, List.mem_cons_of_mem _ ha, hR⟩

section Tracks
variable {seg : IKCPSEG} {segs : List IKCPSEG} {e : ℕ × Frag} {es : List (ℕ × Frag)} {n : ℕ}

theorem Tracks.append {segs' : List IKCPSEG} {es' : List (ℕ × Frag)} (h : Tracks segs es) (h' : Tracks segs' es') :
    Tracks (segs ++ segs') (es ++ es') := List.rel_append h h'

theorem tracks_singleton (hsn : seg.sn = serial e.1) (hfrag : seg.frag = e.2) : Tracks [seg] [e] :=
  .cons ⟨hsn, hfrag⟩ .nil

theorem Tracks.reverse (h : Tracks segs es) : Tracks segs.reverse es.reverse := List.rel_reverse h

theorem Tracks.exists_item (h : Tracks segs es) (hseg : seg ∈ segs) : ∃ e ∈ es, seg.sn = serial e.1 ∧ seg.frag = e.2 :=
  exists_of_forall₂ h.flip hseg

theorem Tracks.exists_seg (h : Tracks segs es) (he : e ∈ es) : ∃ seg ∈ segs, seg.sn = serial e.1 ∧ seg.frag = e.2 :=
  exists_of_forall₂ h he

theorem Tracks.map_frag (h : Tracks segs es) : segs.map IKCPSEG.frag = es.map Prod.snd := by
  induction h with
  | nil => rfl
  | cons hhead _ ih => rw [List.map_cons, List.map_cons, hhead.2, ih]

/-- `ikcp_parse_ack` takes out the item that is acknowledged. -/
theorem Tracks.ackLoop (h : Tracks segs es) (hes : Ascending es) (hnear : ∀ e ∈ es, Near n e.1) :
    Tracks (IKCPCB.ackLoop (serial n) segs).1 (es.filter (·.1 ≠ n)) := by
  induction h with
  | nil => exact .nil
  | @cons seg e segs es hhead htail ih =>
    obtain ⟨hfirst, hes⟩ := List.pairwise_cons.mp hes
    have hn := hnear e List.mem_cons_self
    have hother : n ≤ e.1 → es.filter (·.1 ≠ n) = es := by
      intro hle
      refine List.filter_eq_self.mpr fun e' he' => ?_
      have hlt := hfirst e' he'
      simp only [decide_eq_true_eq]
      omega
    unfold IKCPCB.ackLoop
    rw [hhead.1]
    by_cases heq : n = e.1
    · subst heq
      rw [if_pos rfl, List.filter_cons_of_neg (by simp), hother le_rfl]
      exact htail
    rw [if_neg (fun hserial => heq ((serial_inj hn).mp hserial)), List.filter_cons_of_pos (by simpa using Ne.symm heq),
      itimediff, serialDiff_serial hn]
    split
    · next hlt =>
      rw [hother (by omega)]
      exact .cons hhead htail
    · exact .cons hhead (ih hes fun e' he' => hnear e' (List.mem_cons_of_mem _ he'))

/-- `ikcp_parse_una` takes out the items in front of the one that is awaited. -/
theorem Tracks.dropWhile (h : Tracks segs es) (hes : Ascending es) (hnear : ∀ e ∈ es, Near n e.1) :
    Tracks (segs.dropWhile fun seg => itimediff (serial n) seg.sn > 0) (es.filter (n ≤ ·.1)) := by
  induction h with
  | nil => exact .nil
  | @cons seg e segs es hhead htail ih =>
    obtain ⟨hfirst, hes⟩ := List.pairwise_cons.mp hes
    have hdiff := serialDiff_serial (hnear e List.mem_cons_self)
    by_cases hlt : e.1 < n
    · rw [List.dropWhile_cons_of_pos (by simp only [hhead.1, itimediff, hdiff, decide_eq_true_eq]; omega),
        List.filter_cons_of_neg (by simpa using hlt)]
      exact ih hes fun e' he' => hnear e' (List.mem_cons_of_mem _ he')
    · have hall : (e :: es).filter (n ≤ ·.1) = e :: es := by
        refine List.filter_eq_self.mpr fun e' he' => ?_
        rcases List.mem_cons.mp he' with rfl | he'
        · simpa using hlt
        · have := hfirst e' he'
          simp only [decide_eq_true_eq]
          omega
      rw [List.dropWhile_cons_of_neg (by simp only [hhead.1, itimediff, hdiff, decide_eq_true_eq]; omega), hall]
      exact .cons hhead htail

theorem forall_fastackLoop {P : IKCPSEG → Prop} (sn : UInt32) (h : ∀ seg ∈ segs, P seg)
    (hP : ∀ seg, P seg → P { seg with fastack := seg.fastack + 1 }) : ∀ seg ∈ IKCPCB.fastackLoop sn segs, P seg := by
  induction segs with
  | nil => exact h
  | cons seg segs ih =>
    obtain ⟨hseg, hsegs⟩ := List.forall_mem_cons.mp h
    unfold IKCPCB.fastackLoop
    split
    · exact h
    · refine List.forall_mem_cons.mpr ⟨?_, ih hsegs⟩
      split
      · exact hP seg hseg
      · exact hseg

theorem Tracks.fastackLoop (h : Tracks segs es) (sn : UInt32) : Tracks (IKCPCB.fastackLoop sn segs) es := by
  induction h with
  | nil => exact .nil
  | cons hhead htail ih =>
    unfold IKCPCB.fastackLoop
    split
    · exact .cons hhead htail
    · refine .cons ?_ ih
      split <;> exact hhead

theorem Tracks.of_concat (h : Tracks (segs ++ [seg]) es) :
    ∃ es' e, es = es' ++ [e] ∧ Tracks segs es' ∧ seg.sn = serial e.1 ∧ seg.frag = e.2 := by
  have hrev := h.reverse
  rw [List.reverse_append, List.reverse_singleton, List.singleton_append] at hrev
  cases hes : es.reverse with
  | nil =>
    rw [hes] at hrev
    cases hrev
  | cons e es' =>
    rw [hes] at hrev
    obtain ⟨hhead, htail⟩ := List.forall₂_cons.mp hrev
    refine ⟨es'.reverse, e, ?_, ?_, hhead⟩
    · rw [← List.reverse_cons, ← hes, List.reverse_reverse]
    · have htail := Tracks.reverse htail
      rwa [List.reverse_reverse] at htail

/-- `ikcp_parse_data` puts a segment in its place, unless it is there. -/
theorem Tracks.placeRev {newseg : IKCPSEG} (hsn : newseg.sn = serial n) (h : Tracks segs es) (hes : Ascending es)
    (hnear : ∀ e ∈ es, Near n e.1) :
    Tracks (((IKCPCB.placeRev newseg segs.reverse).map List.reverse).getD segs) (insertItem n newseg.frag es) := by
  induction segs using List.reverseRecOn generalizing es with
  | nil =>
    cases h
    exact tracks_singleton hsn rfl
  | append_singleton segs seg ih =>
    obtain ⟨es, e, rfl, htail, hhead⟩ := h.of_concat
    have hn := hnear e (by simp)
    have ih := ih htail (List.pairwise_append.mp hes).1 fun e' he' => hnear e' (List.mem_append_left _ he')
    rw [List.reverse_append, List.reverse_singleton, List.singleton_append, IKCPCB.placeRev, insertItem_concat hes,
      hhead.1, hsn]
    by_cases heq : n = e.1
    · subst heq
      rw [if_pos rfl, if_pos rfl]
      exact h
    rw [if_neg (fun hserial => heq ((serial_inj hn).mp hserial.symm)), if_neg heq, itimediff, serialDiff_serial hn]
    by_cases hlt : e.1 < n
    · rw [if_pos (by omega), if_pos hlt]
      simp only [Option.map_some, Option.getD_some, List.reverse_cons, List.reverse_reverse, List.append_assoc,
        List.singleton_append]
      exact htail.append (.cons hhead (tracks_singleton hsn rfl))
    · rw [if_neg (by omega), if_neg hlt]
      cases hplace : IKCPCB.placeRev newseg segs.reverse with
      | none =>
        rw [hplace] at ih
        exact ih.append (tracks_singleton hhead.1 hhead.2)
      | some segs' =>
        rw [hplace] at ih
        simp only [Option.map_some, Option.getD_some, List.reverse_cons] at ih ⊢
        exact ih.append (tracks_singleton hhead.1 hhead.2)

end Tracks

end KcpServer.Ikcp
