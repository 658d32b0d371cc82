import KcpServer.Lib.Transition
import KcpServer.NetQueue

/-!
# The net link of a game node

`connRpcObj::m_inst` is the connection on which a game node answers. `CreateConnBatch` points it to every connection that
it creates, `DelConn` clears it with every connection that it deletes. `current_iff` : it is the most recent connection
until an older one is deleted beside it.
-/

namespace KcpServer
open Lib

/-- The calls on a game node's connections. -/
inductive LinkOp
  | createConnBatch (plist : List (Int × PeerAddr))
  | delConn (fd : Int) (btimeOut : Bool)

namespace ConnObjMgr

/-- One call; a game node's connections are `connRpcObj`s. -/
def linkStep (g : ConnObjMgr) : LinkOp → Except Fault ConnObjMgr
  | .createConnBatch plist => do
    let (g, _) ← g.createConnBatch false plist
    return g
  | .delConn fd btimeOut => return (g.delConn fd btimeOut).1

/-- The session id of the connection created most recently; 0, which no connection has, before the first. -/
def newest (g : ConnObjMgr) : Int := g.maxSessid - 1

/-- `m_inst` is the most recent connection while that is registered, and null only if it is not. -/
def Current (g : ConnObjMgr) : Prop :=
  (g.newest ∈ g.connMap → g.inst = some g.newest) ∧ (g.inst = none → g.newest ∉ g.connMap)

/-- The deletion of a connection other than the most recent one leaves `m_inst` as it is. -/
def OlderKept (g g' : ConnObjMgr) : LinkOp → Prop
  | .createConnBatch _ => True
  | .delConn fd _ => ∀ c : ConnObj, g.getConn fd = some c → c.pid ≠ g.newest → g'.inst = g.inst

/-- A connection that is deleted is the most recent one, or outlived it. -/
def Latest (g : ConnObjMgr) : LinkOp → Prop
  | .createConnBatch _ => True
  | .delConn fd _ => ∀ c : ConnObj, g.getConn fd = some c → c.pid = g.newest ∨ g.newest ∉ g.connMap

structure Linked (g : ConnObjMgr) : Prop where
  coherent : g.Coherent
  rpc : ∀ {pid : Int} {c : ConnObj}, g.connMap[pid]? = some c → c.rpc = true
  inst_mem : g.newest ∈ g.connMap → g.inst = some g.newest
  inst_not_mem : g.newest ∉ g.connMap → g.inst = none

theorem linked_new : new.Linked where
  coherent := coherent_new
  rpc h := by simp [new] at h
  inst_mem h := by simp [new] at h
  inst_not_mem _ := rfl

variable {g g' : ConnObjMgr}

theorem Linked.current (hg : g.Linked) : g.Current := by
  refine ⟨hg.inst_mem, fun hnone hmem => ?_⟩
  rw [hg.inst_mem hmem] at hnone
  cases hnone

theorem linked_createConn (hg : g.Linked) {fd : Int} {paddr : PeerAddr} {regs : List RegConn}
    (h : g.createConn false fd paddr = .ok (g', regs)) : g'.Linked := by
  have hcoh := (coherent_createConn hg.coherent h).1
  have hmax := maxSessid_lt_of_createConn h
  rw [createConn, if_neg (by omega)] at h
  cases h
  refine ⟨hcoh, fun {pid c} hc => ?_, fun _ => ?_, fun hnot => ?_⟩
  · rcases insert_eq_some.mp hc with ⟨-, rfl⟩ | ⟨-, hc⟩
    · rfl
    · exact hg.rpc hc
  · simp [newest]
  · refine absurd ?_ hnot
    simp [newest]

theorem linked_createConnBatch (hg : g.Linked) {plist : List (Int × PeerAddr)} {regs : List RegConn}
    (h : g.createConnBatch false plist = .ok (g', regs)) : g'.Linked := by
  induction plist generalizing g regs with
  | nil =>
    cases h
    exact hg
  | cons p plist ih =>
    obtain ⟨⟨g₁, regs₁⟩, h₁, h⟩ := bind_eq_ok.mp h
    obtain ⟨⟨g₂, regs₂⟩, h₂, h⟩ := bind_eq_ok.mp h
    cases h
    exact ih (linked_createConn hg h₁) h₂

theorem delConn_getConn (hg : g.Linked) {fd : Int} {c : ConnObj} (hc : g.getConn fd = some c) (btimeOut : Bool) :
    (g.delConn fd btimeOut).1.inst = none ∧ (g.delConn fd btimeOut).1.connMap = g.connMap.erase c.pid ∧
      (g.delConn fd btimeOut).1.newest = g.newest := by
  obtain ⟨pid, -, hmap⟩ := Option.bind_eq_some_iff.mp hc
  rw [delConn_of_getConn hc]
  exact ⟨if_pos (hg.rpc hmap), rfl, rfl⟩

theorem linked_delConn (hg : g.Linked) {fd : Int} {btimeOut : Bool} (hlatest : g.Latest (.delConn fd btimeOut)) :
    (g.delConn fd btimeOut).1.Linked ∧ g.OlderKept (g.delConn fd btimeOut).1 (.delConn fd btimeOut) := by
  cases hc : g.getConn fd with
  | none =>
    rw [delConn_of_getConn_none hc]
    exact ⟨hg, fun _ _ _ => rfl⟩
  | some c =>
    obtain ⟨hinst, hmap, hnew⟩ := delConn_getConn hg hc btimeOut
    have hgone : g.newest ∉ g.connMap.erase c.pid := by
      rw [mem_iff_exists]
      rintro ⟨d, hd⟩
      obtain ⟨hne, hd⟩ := erase_eq_some.mp hd
      rcases hlatest c hc with heq | hnot
      · exact hne heq.symm
      · exact hnot (mem_iff_exists.mpr ⟨d, hd⟩)
    refine ⟨⟨(coherent_delConn hg.coherent fd btimeOut).1, fun {pid d} hd => ?_, fun hmem => ?_, fun _ => hinst⟩,
      fun d hd hne => ?_⟩
    · rw [hmap] at hd
      exact hg.rpc (erase_eq_some.mp hd).2
    · rw [hnew, hmap] at hmem
      exact absurd hmem hgone
    · cases hc.symm.trans hd
      rw [hinst]
      exact (hg.inst_not_mem ((hlatest c hc).resolve_left hne)).symm

/-- A call keeps `m_inst` right exactly if it deletes no older connection beside the most recent one. -/
theorem linkStep_iff (hg : g.Linked) {o : LinkOp} (h : g.linkStep o = .ok g') :
    (g.Latest o → g'.Linked ∧ g.OlderKept g' o) ∧ (g'.Current → g.Latest o) := by
  cases o with
  | createConnBatch plist =>
    obtain ⟨⟨g₁, regs⟩, hbatch, h⟩ := bind_eq_ok.mp h
    cases h
    exact ⟨fun _ => ⟨linked_createConnBatch hg hbatch, trivial⟩, fun _ => trivial⟩
  | delConn fd btimeOut =>
    cases h
    refine ⟨linked_delConn hg, fun hcur c hc => ?_⟩
    by_contra hnot
    rw [not_or, not_not] at hnot
    obtain ⟨hinst, hmap, hnew⟩ := delConn_getConn hg hc btimeOut
    -- the most recent connection is still registered, and nothing points to it
    refine hcur.2 hinst ?_
    obtain ⟨d, hd⟩ := mem_iff_exists.mp hnot.2
    rw [hnew, hmap]
    exact mem_iff_exists.mpr ⟨d, erase_eq_some.mpr ⟨fun heq => hnot.1 heq.symm, hd⟩⟩

/-- **The net link.** However connections are created and deleted: while each that is deleted is the most recent one or
outlived it, `m_inst` is the most recent connection whenever that is registered, and null only if it is not. There the
next call keeps this, and leaves `m_inst` as it is where it deletes another connection, exactly if it meets this
condition too. -/
theorem current_iff (h : Reach linkStep Latest new g) : g.Current ∧
    ∀ o g', g.linkStep o = .ok g' → (g'.Current ∧ g.OlderKept g' o ↔ g.Latest o) := by
  have hg : g.Linked := by
    apply h.invariant linked_new
    intro g o g' hg ho hs
    exact ((linkStep_iff hg hs).1 ho).1
  refine ⟨hg.current, fun o g' hs => ⟨fun h => (linkStep_iff hg hs).2 h.1, fun ho => ?_⟩⟩
  obtain ⟨hlinked, hkept⟩ := (linkStep_iff hg hs).1 ho
  exact ⟨hlinked.current, hkept⟩

/-- The net node connects on descriptor 5 and once more on descriptor 6. The second connection is deleted, then the first
one, and the net node connects again. -/
theorem link_twice : ∃ g₂ g₃ g₄ g₅, Reach linkStep Latest new g₂ ∧ g₂.newest ∈ g₂.connMap ∧
    (∃ c, g₂.getConn 5 = some c ∧ c.pid ≠ g₂.newest) ∧
    g₂.Latest (.delConn 6 false) ∧ g₂.linkStep (.delConn 6 false) = .ok g₃ ∧
    g₃.Latest (.delConn 5 false) ∧ g₃.linkStep (.delConn 5 false) = .ok g₄ ∧
    g₄.linkStep (.createConnBatch [(6, NetServer.peerAddr)]) = .ok g₅ ∧ g₅.newest ∈ g₅.connMap := by
  have hruns : ∃ g₁, new.linkStep (.createConnBatch [(5, NetServer.peerAddr)]) = .ok g₁ ∧
      ∃ g₂, g₁.linkStep (.createConnBatch [(6, NetServer.peerAddr)]) = .ok g₂ ∧ g₂.newest ∈ g₂.connMap ∧
        (∃ c, g₂.getConn 5 = some c ∧ c.pid ≠ g₂.newest) ∧ (∃ c, g₂.getConn 6 = some c ∧ c.pid = g₂.newest) ∧
        ∃ g₃, g₂.linkStep (.delConn 6 false) = .ok g₃ ∧ g₃.newest ∉ g₃.connMap ∧
          ∃ g₄, g₃.linkStep (.delConn 5 false) = .ok g₄ ∧
            ∃ g₅, g₄.linkStep (.createConnBatch [(6, NetServer.peerAddr)]) = .ok g₅ ∧ g₅.newest ∈ g₅.connMap :=
    ⟨_, rfl, _, rfl, by decide, ⟨_, rfl, by decide⟩, ⟨_, rfl, by decide⟩, _, rfl, by decide, _, rfl, _, rfl, by decide⟩
  obtain ⟨g₁, h₁, g₂, h₂, hmem, hfirst, ⟨c, hc, hpid⟩, g₃, h₃, hgone, g₄, h₄, g₅, h₅, hmem₅⟩ := hruns
  have hreach : Reach linkStep Latest new g₁ := Reach.refl.step (o := LinkOp.createConnBatch _) trivial h₁
  refine ⟨g₂, g₃, g₄, g₅, hreach.step (o := LinkOp.createConnBatch _) trivial h₂, hmem, hfirst, ?_, h₃, ?_, h₄, h₅, hmem₅⟩
  · intro d hd
    cases hc.symm.trans hd
    exact .inl hpid
  · exact fun _ _ => .inr hgone

theorem current_twice : ∃ g₂ g₃ g₄ g₅, Reach linkStep Latest new g₂ ∧ g₂.linkStep (.delConn 6 false) = .ok g₃ ∧ g₃.Current ∧
    g₃.linkStep (.delConn 5 false) = .ok g₄ ∧ g₄.Current ∧ g₃.OlderKept g₄ (.delConn 5 false) ∧
    g₄.linkStep (.createConnBatch [(6, NetServer.peerAddr)]) = .ok g₅ ∧ g₅.inst = some g₅.newest := by
  obtain ⟨g₂, g₃, g₄, g₅, hreach, -, -, hlatest₂, h₃, hlatest₃, h₄, h₅, hmem⟩ := link_twice
  have hreach₃ := hreach.step hlatest₂ h₃
  have hreach₄ := hreach₃.step hlatest₃ h₄
  have hreach₅ := hreach₄.step (o := LinkOp.createConnBatch _) trivial h₅
  obtain ⟨hcur₄, hkept⟩ := ((current_iff hreach₃).2 _ g₄ h₄).mpr hlatest₃
  exact ⟨g₂, g₃, g₄, g₅, hreach, h₃, (current_iff hreach₃).1, h₄, hcur₄, hkept, h₅, (current_iff hreach₅).1.1 hmem⟩

/-- The close of the first connection is processed after the second one has been accepted. -/
theorem not_current : ∃ g, Reach linkStep (fun _ _ => True) new g ∧ ¬ g.Current := by
  obtain ⟨g, -, -, -, hreach, hmem, ⟨c, hc, hne⟩, -⟩ := link_twice
  have hg : g.Linked := hreach.invariant linked_new fun g o g' hg ho hs => ((linkStep_iff hg hs).1 ho).1
  have hstep : g.linkStep (.delConn 5 false) = .ok (g.delConn 5 false).1 := rfl
  refine ⟨_, (hreach.mono fun _ _ _ => trivial).step trivial hstep, fun hcur => ?_⟩
  exact ((linkStep_iff hg hstep).2 hcur c hc).elim hne fun hnot => hnot hmem

end ConnObjMgr

end KcpServer
