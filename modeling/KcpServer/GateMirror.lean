import KcpServer.NetLoop

/-!
# What the gate knows of a net node

`OnInit` tells the gate of every new session and `OnClose` of every one that is closed. `mirror_eq` : what these calls
say is what is registered, whatever is queued, closed by force or timed out.
-/

namespace KcpServer
open Lib

namespace RegConn

def adds (r : RegConn) : Bool := r.msgid = 1

def removes (r : RegConn) : Bool := r.msgid = 2 ∨ r.msgid = 3

/-- What one call does to the sessions that the gate knows. -/
def replay (s : Finset Int) (r : RegConn) : Finset Int :=
  if r.adds then insert r.pid s else if r.removes then s.erase r.pid else s

/-- The sessions that the gate knows after a sequence of calls. -/
def mirror (regs : List RegConn) : Finset Int := regs.foldl replay ∅

def added (regs : List RegConn) : List Int := (regs.filter adds).map RegConn.pid

def removed (regs : List RegConn) : List Int := (regs.filter removes).map RegConn.pid

variable {regs : List RegConn} {r : RegConn}

theorem mirror_append (regs : List RegConn) (r : RegConn) : mirror (regs ++ [r]) = replay (mirror regs) r := by
  rw [mirror, List.foldl_append]
  rfl

theorem removes_eq_false (h : r.adds = true) : r.removes = false := by
  simp only [adds, decide_eq_true_eq] at h
  simp [removes, h]

theorem added_of_adds (h : r.adds = true) : added (regs ++ [r]) = added regs ++ [r.pid] := by
  simp [added, h]

theorem added_of_removes (h : r.removes = true) : added (regs ++ [r]) = added regs := by
  have hnot : r.adds = false := by
    by_contra hadds
    rw [Bool.not_eq_false] at hadds
    rw [removes_eq_false hadds] at h
    cases h
  simp [added, hnot]

theorem removed_of_adds (h : r.adds = true) : removed (regs ++ [r]) = removed regs := by
  simp [removed, removes_eq_false h]

theorem removed_of_removes (h : r.removes = true) : removed (regs ++ [r]) = removed regs ++ [r.pid] := by
  simp [removed, h]

/-- What the gate knows has been added. -/
theorem mem_added {pid : Int} (h : pid ∈ mirror regs) : pid ∈ added regs := by
  induction regs using List.reverseRecOn with
  | nil => simp [mirror] at h
  | append_singleton regs r ih =>
    rw [mirror_append, replay] at h
    split at h
    · next hadds =>
      rw [added_of_adds hadds, List.mem_append, List.mem_singleton]
      rcases Finset.mem_insert.mp h with rfl | h
      · exact .inr rfl
      · exact .inl (ih h)
    · next hadds =>
      have hsame : added (regs ++ [r]) = added regs := by simp [added, hadds]
      rw [hsame]
      split at h
      · exact ih (Finset.mem_erase.mp h).2
      · exact ih h

/-- Each removal is behind the addition of the same session. -/
def Ordered (regs : List RegConn) : Prop := ∀ l r, l ++ [r] <+: regs → r.removes = true → r.pid ∈ added l

theorem ordered_append (h : Ordered regs) (hr : r.removes = true → r.pid ∈ added regs) : Ordered (regs ++ [r]) := by
  intro l r' hl hremoves
  rcases List.prefix_concat_iff.mp hl with heq | hl
  · obtain ⟨rfl, hsingle⟩ := List.append_inj' heq rfl
    cases hsingle
    exact hr hremoves
  · exact h l r' hl hremoves

end RegConn

open RegConn

/-- The calls so far add each session once and remove it at most once, behind its addition; replaying them gives the
registered sessions. -/
structure Mirrors (g : ConnObjMgr) (regs : List RegConn) : Prop where
  mem_mirror : ∀ pid : Int, pid ∈ mirror regs ↔ pid ∈ g.connMap
  added_nodup : (added regs).Nodup
  removed_nodup : (removed regs).Nodup
  ordered : Ordered regs

structure MirrorInv (g : ConnObjMgr) (regs : List RegConn) : Prop extends Mirrors g regs where
  coherent : g.Coherent
  added_lt : ∀ pid ∈ added regs, pid < g.maxSessid
  removed_lt : ∀ pid ∈ removed regs, pid < g.maxSessid
  removed_not : ∀ pid ∈ removed regs, pid ∉ g.connMap

theorem mirrorInv_new : MirrorInv .new [] where
  mem_mirror pid := by simp [mirror, ConnObjMgr.new]
  added_nodup := List.nodup_nil
  removed_nodup := List.nodup_nil
  ordered l r h := by simp at h
  coherent := ConnObjMgr.coherent_new
  added_lt pid h := by simp [added] at h
  removed_lt pid h := by simp [removed] at h
  removed_not pid h := by simp [removed] at h

section Steps
variable {g g' : ConnObjMgr} {regs : List RegConn}

theorem mirrorInv_kept (h : MirrorInv g regs) (hk : g.Kept ConnObj.SameIds g') : MirrorInv g' regs := by
  have hmem : ∀ pid : Int, pid ∈ g'.connMap ↔ pid ∈ g.connMap := by
    refine fun pid => ⟨fun hpid => ?_, hk.mem⟩
    obtain ⟨c', hc'⟩ := mem_iff_exists.mp hpid
    obtain ⟨c, hc, -⟩ := hk.conn hc'
    exact mem_iff_exists.mpr ⟨c, hc⟩
  have hsess := hk.maxSessid
  exact ⟨⟨fun pid => (h.mem_mirror pid).trans (hmem pid).symm, h.added_nodup, h.removed_nodup, h.ordered⟩,
    hk.coherent h.coherent, fun pid hp => hsess ▸ h.added_lt pid hp, fun pid hp => hsess ▸ h.removed_lt pid hp,
    fun pid hp hmem' => h.removed_not pid hp ((hmem pid).mp hmem')⟩

theorem mirrorInv_createConn (h : MirrorInv g regs) {fd : Int} {paddr : PeerAddr} {regs' : List RegConn}
    (hcreate : g.createConn true fd paddr = .ok (g', regs')) : MirrorInv g' (regs ++ regs') := by
  obtain ⟨hcoh, hsess, -⟩ := ConnObjMgr.coherent_createConn h.coherent hcreate
  have hmax := ConnObjMgr.maxSessid_lt_of_createConn hcreate
  obtain ⟨g₁, regs₁, c, heq, -, hmap, -⟩ := ConnObjMgr.createConn_ok hmax true fd paddr
  rw [hcreate] at heq
  cases heq
  have hregs : regs' = [⟨g.maxSessid, 1, paddr.bytes⟩] := by
    rw [ConnObjMgr.createConn, if_neg (by omega)] at hcreate
    cases hcreate
    rfl
  subst hregs
  have hadds : adds ⟨g.maxSessid, 1, paddr.bytes⟩ = true := rfl
  refine ⟨⟨fun pid => ?_, ?_, ?_, ?_⟩, hcoh, fun pid hp => ?_, fun pid hp => ?_, fun pid hp => ?_⟩
  · rw [mirror_append, replay, if_pos hadds, Finset.mem_insert, h.mem_mirror, hmap, Std.TreeMap.mem_insert,
      compare_eq_iff_eq, eq_comm]
  · rw [added_of_adds hadds, List.nodup_append]
    refine ⟨h.added_nodup, List.nodup_singleton _, ?_⟩
    rintro a ha b hb rfl
    have hlt := h.added_lt a ha
    rw [List.mem_singleton.mp hb] at hlt
    exact lt_irrefl _ hlt
  · rw [removed_of_adds hadds]
    exact h.removed_nodup
  · exact ordered_append h.ordered fun hremoves => absurd hremoves (by rw [removes_eq_false hadds]; decide)
  · rw [added_of_adds hadds, List.mem_append, List.mem_singleton] at hp
    rw [hsess]
    rcases hp with hp | rfl
    · exact lt_trans (h.added_lt pid hp) (lt_add_one _)
    · exact lt_add_one _
  · rw [removed_of_adds hadds] at hp
    rw [hsess]
    exact lt_trans (h.removed_lt pid hp) (lt_add_one _)
  · rw [removed_of_adds hadds] at hp
    rw [hmap, Std.TreeMap.mem_insert, compare_eq_iff_eq, not_or]
    exact ⟨fun heq => lt_irrefl _ (heq ▸ h.removed_lt pid hp), h.removed_not pid hp⟩

theorem mirrorInv_createConnBatch (h : MirrorInv g regs) {plist : List (Int × PeerAddr)} {regs' : List RegConn}
    (hcreate : g.createConnBatch true plist = .ok (g', regs')) : MirrorInv g' (regs ++ regs') := by
  induction plist generalizing g regs regs' with
  | nil =>
    cases hcreate
    rwa [List.append_nil]
  | cons p plist ih =>
    obtain ⟨⟨g₁, regs₁⟩, h₁, hcreate⟩ := bind_eq_ok.mp hcreate
    obtain ⟨⟨g₂, regs₂⟩, h₂, hcreate⟩ := bind_eq_ok.mp hcreate
    cases hcreate
    rw [← List.append_assoc]
    exact ih (mirrorInv_createConn h h₁) h₂

theorem mirrorInv_delConn (h : MirrorInv g regs) (fd : Int) (btimeOut : Bool) :
    MirrorInv (g.delConn fd btimeOut).1 (regs ++ (g.delConn fd btimeOut).2) := by
  cases hc : g.getConn fd with
  | none =>
    rw [ConnObjMgr.delConn_of_getConn_none hc]
    simpa using h
  | some c =>
    obtain ⟨hcoh, hsess, -⟩ := ConnObjMgr.coherent_delConn h.coherent fd btimeOut
    obtain ⟨pid, hpid, hmap⟩ := Option.bind_eq_some_iff.mp hc
    obtain ⟨d, hd, -, hdpid⟩ := h.coherent.conn_of_fd hpid
    cases hd.symm.trans hmap
    subst hdpid
    have hmem : c.pid ∈ g.connMap := mem_iff_exists.mpr ⟨c, hd⟩
    rw [ConnObjMgr.delConn_of_getConn hc] at hcoh hsess ⊢
    have hadds : adds ⟨c.pid, if btimeOut then 3 else 2, []⟩ = false := by cases btimeOut <;> rfl
    have hremoves : removes ⟨c.pid, if btimeOut then 3 else 2, []⟩ = true := by cases btimeOut <;> rfl
    have hadded := mem_added ((h.mem_mirror c.pid).mpr hmem)
    refine ⟨⟨fun pid => ?_, ?_, ?_, ?_⟩, hcoh, fun pid hp => ?_, fun pid hp => ?_, fun pid hp hmem' => ?_⟩
    · rw [mirror_append, replay, if_neg (by rw [hadds]; decide), if_pos hremoves, Finset.mem_erase, h.mem_mirror,
        Std.TreeMap.mem_erase, Ne, Ne, compare_eq_iff_eq, eq_comm]
    · rw [added_of_removes hremoves]
      exact h.added_nodup
    · rw [removed_of_removes hremoves, List.nodup_append]
      refine ⟨h.removed_nodup, List.nodup_singleton _, ?_⟩
      rintro a ha b hb rfl
      rw [List.mem_singleton.mp hb] at ha
      exact h.removed_not _ ha hmem
    · exact ordered_append h.ordered fun _ => hadded
    · rw [added_of_removes hremoves] at hp
      exact h.added_lt pid hp
    · rw [removed_of_removes hremoves, List.mem_append, List.mem_singleton] at hp
      rcases hp with hp | rfl
      · exact h.removed_lt pid hp
      · exact h.added_lt _ hadded
    · rw [removed_of_removes hremoves, List.mem_append, List.mem_singleton] at hp
      rw [Std.TreeMap.mem_erase, Ne, compare_eq_iff_eq] at hmem'
      rcases hp with hp | rfl
      · exact h.removed_not pid hp hmem'.2
      · exact hmem'.1 rfl

end Steps

namespace NetLoop
variable {w w' : NetLoop}

/-- A net node, and what it has told the gate. -/
structure Mirrored (w : NetLoop) : Prop where
  bNet : w.server.bNet = true
  inv : MirrorInv w.server.mgr w.regs

theorem mirrored_delConn (hw : w.Mirrored) (fd : Int) (btimeOut : Bool) : (w.delConn fd btimeOut).Mirrored := by
  obtain ⟨hserver, -, hregs⟩ := w.delConn_server fd btimeOut
  refine ⟨by rw [hserver]; exact hw.bNet, ?_⟩
  rw [hserver, hregs]
  exact mirrorInv_delConn hw.inv fd btimeOut

theorem mirrored_drainLoop (hw : w.Mirrored) (q : List NetOp) (listNew : List (Int × PeerAddr)) :
    (drainLoop q w listNew).Mirrored := by
  induction q generalizing w listNew with
  | nil => exact ⟨hw.bNet, hw.inv⟩
  | cons o q ih =>
    cases o with
    | newConn fd paddr => exact ih hw _
    | dataIn fd =>
      have hread : Mirrored { w with server := { w.server with readFdMap := w.server.readFdMap.insert fd true } } :=
        ⟨hw.bNet, hw.inv⟩
      exact ih hread _
    | quitConn fd => exact ih (mirrored_delConn hw fd false) _

theorem mirrored_timeouts (hw : w.Mirrored) (ps : List ConnObj) :
    (ps.foldl (fun w p => w.delConn p.fd true) w).Mirrored := by
  induction ps generalizing w with
  | nil => exact hw
  | cons p ps ih => exact ih (mirrored_delConn hw p.fd true)

theorem mirrored_stepped (hw : w.Mirrored) {o : LoopOp} (h : w.Stepped o w') : w'.Mirrored := by
  have hsock : ∀ (fd : Int) (f : Socket → Socket), (w.onSock fd f).Mirrored := fun fd f =>
    ⟨by simpa using hw.bNet, by simpa using hw.inv⟩
  cases h with
  | accept fd paddr => exact ⟨hw.bNet, hw.inv⟩
  | arrive fd bs => exact hsock fd _
  | shutdown fd => exact hsock fd _
  | dataIn fd => exact ⟨(hsock fd _).bNet, (hsock fd _).inv⟩
  | hangUp fd => exact ⟨(hsock fd _).bNet, (hsock fd _).inv⟩
  | drain => exact mirrored_drainLoop hw _ _
  | create _ hcreate =>
    rw [hw.bNet] at hcreate
    exact ⟨hw.bNet, mirrorInv_createConnBatch hw.inv hcreate⟩
  | read _ hread =>
    obtain ⟨hkept, hregs, hnet⟩ := readConn_kept hw.inv.coherent hread
    refine ⟨hnet.trans hw.bNet, ?_⟩
    rw [hregs]
    exact mirrorInv_kept hw.inv hkept
  | erase => exact ⟨hw.bNet, hw.inv⟩
  | @sent _ r _ hsent =>
    obtain ⟨hserver, -, hregs⟩ := foldl_appendConnClose (w.setMgr r.1) r.2
    refine ⟨by rw [NetLoop.sent, hserver]; exact hw.bNet, ?_⟩
    rw [NetLoop.sent, hserver, hregs]
    exact mirrorInv_kept hw.inv hsent.sameIds
  | closeCliConn fd => exact mirrored_delConn hw fd false
  | chkConnTimeout nowsec =>
    have h := mirrored_timeouts hw (w.server.mgr.timeouts nowsec)
    exact ⟨h.bNet, h.inv⟩
  | stay => exact hw

/-- **The gate mirrors the sessions of a net node.** Whatever is queued in whatever order, read, sent, closed by force or
timed out: replaying the calls made so far gives exactly the sessions that are registered, each is added once, and each
is removed at most once and behind its addition. -/
theorem mirror_eq (h : Reach step (fun _ _ => True) (start true) w) : Mirrors w.server.mgr w.regs := by
  have hw : w.Mirrored := by
    apply h.invariant ⟨rfl, mirrorInv_new⟩
    intro w o w' hw _ hs
    exact mirrored_stepped hw (stepped hw.inv.coherent hs)
  exact hw.inv.toMirrors

/-- A client connects and is closed by force. -/
theorem mirror_closed : ∃ w, run step (start true) [.accept 5 NetServer.peerAddr, .drain, .create, .erase,
    .closeCliConn 5] = .ok w ∧ w.regs.map RegConn.msgid = [1, 2] ∧ Mirrors w.server.mgr w.regs := by
  obtain ⟨w, hw, hregs⟩ : ∃ w, run step (start true) [.accept 5 NetServer.peerAddr, .drain, .create, .erase,
    .closeCliConn 5] = .ok w ∧ w.regs.map RegConn.msgid = [1, 2] := ⟨_, rfl, rfl⟩
  exact ⟨w, hw, hregs, mirror_eq (Reach.refl.run (fun _ _ _ => trivial) hw)⟩

end NetLoop

end KcpServer
