import KcpServer.Ikcp.Counters

/-!
# Messages and fragments

Without `stream`, `ikcp_send` cuts a message into fragments that count down to 0. `Cuts fs msgs` : the fragments `fs` are
those of the messages `msgs`, one message behind the other. They can be cut in one way only (`Cuts.append_rest`), so
what `ikcp_recv` puts together is a message that has been sent (`Cuts.next`).
-/

namespace KcpServer.Ikcp
open Lib

/-- How the fragments of a message are marked. -/
def countdown : ℕ → List UInt32
  | 0 => []
  | n + 1 => UInt32.ofNat n :: countdown n

/-- The fragments of one message. -/
structure IsMsg (fs : List Frag) (msg : Bytes) : Prop where
  pos : 0 < fs.length
  le : fs.length ≤ 255
  marks : fs.map Prod.fst = countdown fs.length
  data : fs.flatMap Prod.snd = msg

/-- The fragments of messages. -/
inductive Cuts : List Frag → List Bytes → Prop
  | nil : Cuts [] []
  | cons {fs fs' : List Frag} {msg : Bytes} {msgs : List Bytes} (hmsg : IsMsg fs msg) (hrest : Cuts fs' msgs) :
    Cuts (fs ++ fs') (msg :: msgs)

variable {fs fs' gs : List Frag} {msg msg' : Bytes} {msgs msgs' : List Bytes}

theorem Cuts.append (h : Cuts fs msgs) (h' : Cuts fs' msgs') : Cuts (fs ++ fs') (msgs ++ msgs') := by
  induction h with
  | nil => exact h'
  | cons hmsg _ ih =>
    rw [List.append_assoc]
    exact .cons hmsg ih

theorem IsMsg.cuts (h : IsMsg fs msg) : Cuts fs [msg] := List.append_nil fs ▸ Cuts.cons h .nil

theorem IsMsg.exists_cons (h : IsMsg fs msg) : ∃ f rest, fs = f :: rest ∧ f.1.toNat + 1 = fs.length := by
  obtain ⟨f, rest, rfl⟩ := List.exists_cons_of_length_pos h.pos
  refine ⟨f, rest, rfl, ?_⟩
  have hmarks := h.marks
  rw [List.length_cons, List.map_cons, countdown] at hmarks
  have hle := h.le
  rw [List.length_cons] at hle ⊢
  rw [(List.cons.inj hmarks).1, UInt32.toNat_ofNat']
  omega

/-- Of two messages that begin in the same place, both are the same. -/
theorem IsMsg.append_inj (h : IsMsg fs msg) (h' : IsMsg fs' msg') {gs' : List Frag} (heq : fs ++ gs = fs' ++ gs') :
    fs = fs' ∧ gs = gs' := by
  obtain ⟨f, rest, hf, hlen⟩ := h.exists_cons
  obtain ⟨f', rest', hf', hlen'⟩ := h'.exists_cons
  have hhead : f = f' := by
    rw [hf, hf'] at heq
    exact (List.cons.inj heq).1
  exact List.append_inj heq (by rw [← hlen, ← hlen', hhead])

theorem Cuts.append_rest (h : Cuts fs msgs) (h' : Cuts (fs ++ gs) msgs') :
    ∃ rest, msgs' = msgs ++ rest ∧ Cuts gs rest := by
  induction h generalizing msgs' with
  | nil => exact ⟨msgs', rfl, h'⟩
  | @cons fs fs' msg msgs hmsg hrest ih =>
    rw [List.append_assoc] at h'
    generalize hall : fs ++ (fs' ++ gs) = all at h'
    cases h' with
    | nil =>
      have hpos := hmsg.pos
      rw [List.append_eq_nil_iff] at hall
      rw [hall.1] at hpos
      exact absurd hpos (by decide)
    | cons hmsg' hrest' =>
      obtain ⟨rfl, rfl⟩ := hmsg.append_inj hmsg' hall
      obtain ⟨rest, rfl, hcut⟩ := ih hrest'
      exact ⟨rest, by rw [← hmsg.data, ← hmsg'.data, List.cons_append], hcut⟩

theorem Cuts.flatten (h : Cuts fs msgs) : fs.flatMap Prod.snd = msgs.flatten := by
  induction h with
  | nil => rfl
  | cons hmsg _ ih => rw [List.flatMap_append, hmsg.data, ih, List.flatten_cons]

theorem exists_of_mem_countdown {n : ℕ} {x : UInt32} (h : x ∈ countdown n) : ∃ i < n, x = UInt32.ofNat i := by
  induction n with
  | zero => cases h
  | succ n ih =>
    rcases List.mem_cons.mp h with rfl | h
    · exact ⟨n, Nat.lt_succ_self _, rfl⟩
    · obtain ⟨i, hi, hx⟩ := ih h
      exact ⟨i, Nat.lt_succ_of_lt hi, hx⟩

theorem Cuts.frg_lt (h : Cuts fs msgs) {f : Frag} (hf : f ∈ fs) : f.1.toNat < 255 := by
  induction h with
  | nil => cases hf
  | @cons fs fs' msg msgs hmsg _ ih =>
    rcases List.mem_append.mp hf with hf | hf
    · have hmem := List.mem_map_of_mem (f := Prod.fst) hf
      rw [hmsg.marks] at hmem
      obtain ⟨i, hi, hx⟩ := exists_of_mem_countdown hmem
      have hle := hmsg.le
      rw [hx, UInt32.toNat_ofNat']
      omega
    · exact ih hf

/-! ## Where the fragments come from -/

/-- `ikcp_send` cuts a message into its fragments. -/
theorem isMsg_fragment {kcp : IKCPCB} (hstream : kcp.stream = 0) (hmss : kcp.mss > 0)
    (hcount : kcp.fragCount msg.length ≤ 255) :
    IsMsg ((kcp.fragment (kcp.fragCount msg.length) msg).map IKCPSEG.frag) msg := by
  have hmarks : ∀ (count : ℕ) (buffer : Bytes),
      ((kcp.fragment count buffer).map IKCPSEG.frag).map Prod.fst = countdown count := by
    intro count
    induction count with
    | zero => exact fun _ => rfl
    | succ count ih =>
      intro buffer
      rw [IKCPCB.fragment, List.map_cons, List.map_cons, ih, countdown, IKCPSEG.frag, if_pos hstream]
  refine ⟨?_, ?_, ?_, ?_⟩
  · rw [List.length_map, IKCPCB.length_fragment]
    unfold IKCPCB.fragCount
    split
    · exact Nat.one_pos
    · exact Nat.div_pos (by omega) (UInt32.lt_iff_toNat_lt.mp hmss)
  · rwa [List.length_map, IKCPCB.length_fragment]
  · rw [hmarks, List.length_map, IKCPCB.length_fragment]
  · rw [← IKCPCB.dataOf_eq]
    exact IKCPCB.dataOf_fragment (IKCPCB.le_fragCount hmss _)

/-- Without `stream`, `ikcp_send` puts the fragments of the message behind the others. -/
theorem cuts_send {kcp kcp' : IKCPCB} {buffer : Bytes} {ret : Int} (hstream : kcp.stream = 0)
    (h : kcp.send buffer = .ok (kcp', ret)) : ∃ fs, kcp'.sndQueue.map IKCPSEG.frag = kcp.sndQueue.map IKCPSEG.frag ++ fs ∧
      Cuts fs (kcp.accepted buffer ret) := by
  obtain ⟨hmss, rest, hrest, hcases⟩ := IKCPCB.send_cases h
  have hextend : kcp.extend buffer.length = 0 := if_pos hstream
  have hlast : kcp.appendLast buffer = kcp := if_pos hstream
  rw [hextend, List.drop_zero] at hrest
  subst hrest
  rw [hlast] at hcases
  unfold IKCPCB.accepted
  rcases hcases with ⟨hne, -⟩ | ⟨rfl, rfl⟩ | ⟨hcount, rfl, rfl⟩
  · exact absurd hstream hne
  · rw [if_neg (by decide), if_pos hstream]
    exact ⟨[], (List.append_nil _).symm, .nil⟩
  · exact ⟨_, List.map_append, (isMsg_fragment hstream hmss hcount).cuts⟩

theorem splitMsg_of_marks {segs : List IKCPSEG} (hle : fs.length ≤ 2 ^ 32) (hpos : 0 < fs.length)
    (hmarks : fs.map Prod.fst = countdown fs.length) (hsegs : segs.map IKCPSEG.frag = fs ++ gs) :
    (IKCPCB.splitMsg segs).1.map IKCPSEG.frag = fs := by
  induction fs generalizing segs with
  | nil => exact absurd hpos (by decide)
  | cons f fs ih =>
    obtain ⟨seg, segs, rfl, hseg, hrest⟩ := List.map_eq_cons_iff.mp hsegs
    rw [List.length_cons, List.map_cons, countdown] at hmarks
    obtain ⟨hfirst, hmarks⟩ := List.cons.inj hmarks
    have hfrg : seg.frg = UInt32.ofNat fs.length := by rw [← hfirst, ← hseg]; rfl
    rw [List.length_cons] at hle
    unfold IKCPCB.splitMsg
    by_cases hnil : fs.length = 0
    · rw [List.length_eq_zero_iff] at hnil
      subst hnil
      rw [if_pos (show seg.frg = 0 from hfrg), List.map_singleton, hseg]
    · have hne : seg.frg ≠ 0 := by
        rw [hfrg, Ne, ← UInt32.toNat_inj, UInt32.toNat_ofNat', Nat.mod_eq_of_lt (by omega)]
        exact hnil
      rw [if_neg hne, List.map_cons, hseg, ih (by omega) (by omega) hmarks hrest]

/-- What `ikcp_recv` puts together is the next message. -/
theorem Cuts.next {segs : List IKCPSEG} {seg : IKCPSEG} (h : Cuts fs msgs)
    (h' : Cuts (fs ++ segs.map IKCPSEG.frag ++ gs) msgs') (hhead : segs.head? = some seg)
    (hall : seg.frg.toNat + 1 ≤ segs.length) :
    Cuts (fs ++ (IKCPCB.splitMsg segs).1.map IKCPSEG.frag) (msgs ++ [IKCPCB.dataOf (IKCPCB.splitMsg segs).1]) := by
  rw [List.append_assoc] at h'
  obtain ⟨rest, -, hrest⟩ := h.append_rest h'
  obtain ⟨segs', rfl⟩ : ∃ segs', segs = seg :: segs' := by
    cases segs with
    | nil => cases hhead
    | cons s segs =>
      cases hhead
      exact ⟨segs, rfl⟩
  generalize hq : (seg :: segs').map IKCPSEG.frag ++ gs = q at hrest
  cases hrest with
  | nil => cases hq
  | @cons p ps msg _ hmsg _ =>
    obtain ⟨f, tail, hp, hlen⟩ := hmsg.exists_cons
    have hf : f = seg.frag := by
      rw [hp, List.map_cons] at hq
      exact (List.cons.inj hq).1.symm
    have hlen : p.length ≤ ((seg :: segs').map IKCPSEG.frag).length := by
      rw [List.length_map, ← hlen, hf]
      exact hall
    obtain ⟨ws, hws⟩ : p <+: (seg :: segs').map IKCPSEG.frag :=
      List.prefix_of_prefix_length_le (List.prefix_append p ps) (hq ▸ List.prefix_append _ gs) hlen
    have hsplit := splitMsg_of_marks (hmsg.le.trans (by decide)) hmsg.pos hmsg.marks hws.symm
    rw [hsplit, IKCPCB.dataOf_eq, hsplit, hmsg.data]
    exact h.append hmsg.cuts

end KcpServer.Ikcp
