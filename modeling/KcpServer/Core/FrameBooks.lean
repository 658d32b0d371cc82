import KcpServer.Core.RoomFrames

/-!
# No message is nowhere

`FramePool.Owned` says that no frame and no command is in two places. `FramePool.Complete` says the opposite: none is
nowhere. `RoomMgr.Filed` is what the methods of the rooms keep of both, with what a room has recorded: whoever takes a
message puts it somewhere, and a frame is recorded under an id that has none.
-/

namespace KcpServer
open Lib

namespace FramePool
variable {s t : FramePool} {placed placed' loose loose' : Nat → Prop} {f c : Nat}

/-- Every frame is queued or placed, and every command is queued, in a frame's list, or loose. -/
structure Complete (s : FramePool) (placed loose : Nat → Prop) : Prop where
  frames : ∀ f < s.frames.next, f ∈ s.pool2001 ∨ placed f
  cmds : ∀ c < s.cmds.next, c ∈ s.pool ∨ (∃ f < s.frames.next, c ∈ (s.frames f).cmdlist) ∨ loose c

theorem complete_withPool (n : Nat) (placed loose : Nat → Prop) : Complete (withPool n) placed loose where
  frames _ hf := Or.inl (List.mem_range.mpr hf)
  cmds _ hc := Or.inl (List.mem_range.mpr hc)

namespace Complete

theorem mono (h : Complete s placed loose) (hplaced : ∀ f, placed f → placed' f) (hloose : ∀ c, loose c → loose' c) :
    Complete s placed' loose' where
  frames f hf := (h.frames f hf).imp_right (hplaced f)
  cmds c hc := (h.cmds c hc).imp_right fun hor => hor.imp_right (hloose c)

/-! ## Fetching -/

theorem fetchPt (h : Complete s placed loose) (heq : s.fetchPt = (c, t)) :
    Complete t placed fun b => b = c ∨ loose b := by
  obtain ⟨p, cmds, pool, hpop⟩ : ∃ c cmds pool, pop s.cmds s.pool Cmd.clear = (c, cmds, pool) := ⟨_, _, _, rfl⟩
  unfold FramePool.fetchPt at heq
  rw [hpop] at heq
  cases heq
  refine ⟨h.frames, fun b hb => ?_⟩
  by_cases hbc : b = c
  · exact Or.inr (Or.inr (Or.inl hbc))
  · rcases h.cmds b ((next_of_pop hpop b hb).resolve_right hbc) with hin | hlist | hloose
    · exact Or.inl ((mem_of_pop hpop hin).resolve_left hbc)
    · exact Or.inr (Or.inl hlist)
    · exact Or.inr (Or.inr (Or.inr hloose))

/-- A frame that is fetched had no commands: it was queued or is new. -/
theorem fetchPt2001 (h : Complete s placed loose) (hclear : ∀ f ∈ s.pool2001, (s.frames f).cmdlist = [])
    (heq : s.fetchPt2001 = (f, t)) : Complete t (fun g => g = f ∨ placed g) loose := by
  obtain ⟨p, frames, pool2001, hpop⟩ :
    ∃ f frames pool, pop s.frames s.pool2001 FrameUpdate.clear = (f, frames, pool) := ⟨_, _, _, rfl⟩
  unfold FramePool.fetchPt2001 at heq
  rw [hpop] at heq
  cases heq
  refine ⟨fun g hg => ?_, fun c hc => ?_⟩
  · by_cases hgf : g = f
    · exact Or.inr (Or.inl hgf)
    · rcases h.frames g ((next_of_pop hpop g hg).resolve_right hgf) with hin | hplaced
      · exact Or.inl ((mem_of_pop hpop hin).resolve_left hgf)
      · exact Or.inr (Or.inr hplaced)
  · rcases h.cmds c hc with hin | ⟨g, hg, hlist⟩ | hloose
    · exact Or.inl hin
    · have hle : s.frames.next ≤ frames.next := le_of_pop hpop
      refine Or.inr (Or.inl ⟨g, lt_of_lt_of_le hg hle, ?_⟩)
      have hgf : g ≠ f := by
        rintro rfl
        rcases origin_of_pop hpop with hin | hnew
        · rw [hclear g hin] at hlist
          cases hlist
        · exact absurd hg (by omega)
      show c ∈ ((frames.set f FrameUpdate.clear) g).cmdlist
      rw [Heap.set_of_ne _ hgf, pop_of_ne hpop hgf]
      exact hlist
    · exact Or.inr (Or.inr hloose)

/-! ## Filling in -/

theorem of_lists (h : Complete s placed loose) (hframes : t.frames.next = s.frames.next)
    (hlist : ∀ g, (t.frames g).cmdlist = (s.frames g).cmdlist) (hcmds : t.cmds.next = s.cmds.next)
    (hpool : t.pool = s.pool) (hpool2001 : t.pool2001 = s.pool2001) : Complete t placed loose := by
  refine ⟨fun f hf => ?_, fun c hc => ?_⟩
  · rw [hpool2001]
    exact h.frames f (hframes ▸ hf)
  · rw [hpool]
    rcases h.cmds c (hcmds ▸ hc) with hin | ⟨f, hf, hin⟩ | hloose
    · exact Or.inl hin
    · exact Or.inr (Or.inl ⟨f, hframes.symm ▸ hf, (hlist f).symm ▸ hin⟩)
    · exact Or.inr (Or.inr hloose)

theorem setCmd (h : Complete s placed loose) (c : Nat) (cmd : Cmd) : Complete (s.setCmd c cmd) placed loose :=
  h.of_lists rfl (fun _ => rfl) rfl rfl rfl

theorem setFrameid (h : Complete s placed loose) (f frameid : Nat) : Complete (s.setFrameid f frameid) placed loose := by
  refine h.of_lists rfl (fun g => ?_) rfl rfl rfl
  by_cases hg : g = f
  · subst hg
    simp [FramePool.setFrameid]
  · simp [FramePool.setFrameid, Heap.set_of_ne _ hg]

theorem addAllocated (h : Complete s placed fun b => b = c ∨ loose b) (hf : f < s.frames.next) :
    Complete (s.addAllocated f c) placed loose := by
  have hself : ((s.addAllocated f c).frames f).cmdlist = (s.frames f).cmdlist ++ [c] := by simp [FramePool.addAllocated]
  refine ⟨h.frames, fun b hb => ?_⟩
  rcases h.cmds b hb with hin | ⟨g, hg, hlist⟩ | rfl | hloose
  · exact Or.inl hin
  · refine Or.inr (Or.inl ⟨g, hg, ?_⟩)
    by_cases hgf : g = f
    · subst hgf
      rw [hself]
      exact List.mem_append_left _ hlist
    · show b ∈ ((s.frames.set f _) g).cmdlist
      rw [Heap.set_of_ne _ hgf]
      exact hlist
  · exact Or.inr (Or.inl ⟨f, hf, by rw [hself]; exact List.mem_append_right _ List.mem_cons_self⟩)
  · exact Or.inr (Or.inr hloose)

/-! ## Recycling -/

theorem recyclePt2001 (h : Complete s (fun g => g = f ∨ placed g) loose) :
    Complete (s.recyclePt2001 f) placed loose := by
  rw [recyclePt2001_eq]
  refine ⟨fun g hg => ?_, fun c hc => ?_⟩
  · rcases h.frames g hg with hin | rfl | hplaced
    · exact Or.inl (List.mem_append_left _ hin)
    · exact Or.inl (List.mem_append_right _ List.mem_cons_self)
    · exact Or.inr hplaced
  · rcases h.cmds c hc with hin | ⟨g, hg, hlist⟩ | hloose
    · exact Or.inl (List.mem_append_left _ hin)
    · by_cases hgf : g = f
      · subst hgf
        exact Or.inl (List.mem_append_right _ (List.mem_reverse.mpr hlist))
      · refine Or.inr (Or.inl ⟨g, hg, ?_⟩)
        show c ∈ ((s.frames.set f _) g).cmdlist
        rw [Heap.set_of_ne _ hgf]
        exact hlist
    · exact Or.inr (Or.inr hloose)

theorem recycleAll {fs : List Nat} (h : Complete s (fun g => g ∈ fs ∨ placed g) loose) :
    Complete (fs.foldl FramePool.recyclePt2001 s) placed loose := by
  induction fs generalizing s with
  | nil => exact h.mono (fun _ hg => hg.resolve_left List.not_mem_nil) fun _ hc => hc
  | cons f fs ih =>
    refine ih (recyclePt2001 (h.mono (fun g hg => ?_) fun _ hc => hc))
    rw [List.mem_cons, or_assoc] at hg
    exact hg

/-! ## Copies -/

theorem copyFrame (h : Complete s placed loose) {f' : Nat} (heq : s.copyFrame f = (f', t)) :
    Complete t (fun g => g = f' ∨ placed g) loose := by
  obtain ⟨cs, cmds, hcopy⟩ : ∃ cs cmds, copyCmds (s.frames f).cmdlist s.cmds = (cs, cmds) := ⟨_, _, rfl⟩
  obtain ⟨hcs, hnext, -⟩ := copyCmds_spec hcopy
  unfold FramePool.copyFrame at heq
  rw [hcopy] at heq
  cases heq
  refine ⟨fun g hg => ?_, fun c hc => ?_⟩
  · rcases Nat.lt_succ_iff_lt_or_eq.mp hg with hlt | hnew
    · exact (h.frames g hlt).imp_right Or.inr
    · exact Or.inr (Or.inl hnew)
  · by_cases hold : c < s.cmds.next
    · rcases h.cmds c hold with hin | ⟨g, hg, hlist⟩ | hloose
      · exact Or.inl hin
      · refine Or.inr (Or.inl ⟨g, Nat.lt_succ_of_lt hg, ?_⟩)
        show c ∈ ((s.frames.alloc _).2 g).cmdlist
        rw [Heap.alloc_of_lt _ hg]
        exact hlist
      · exact Or.inr (Or.inr hloose)
    · -- a new command is one of the copies
      refine Or.inr (Or.inl ⟨s.frames.next, Nat.lt_succ_self _, ?_⟩)
      show c ∈ ((s.frames.alloc _).2 s.frames.next).cmdlist
      rw [Heap.alloc_self, hcs, List.mem_range'_1]
      have hlt : c < cmds.next := hc
      omega

theorem copyFrames (h : Complete s placed loose) {fs fs' : List Nat} (heq : FramePool.copyFrames fs s = (fs', t)) :
    Complete t (fun g => g ∈ fs' ∨ placed g) loose := by
  induction fs generalizing s fs' t placed with
  | nil =>
    cases heq
    exact h.mono (fun _ => Or.inr) fun _ hc => hc
  | cons f fs ih =>
    obtain ⟨f', u, hu⟩ : ∃ f' u, s.copyFrame f = (f', u) := ⟨_, _, rfl⟩
    obtain ⟨gs, v, hv⟩ : ∃ gs v, FramePool.copyFrames fs u = (gs, v) := ⟨_, _, rfl⟩
    simp only [FramePool.copyFrames, hu, hv] at heq
    cases heq
    refine (ih (h.copyFrame hu) hv).mono (fun g hg => ?_) fun _ hc => hc
    rw [List.mem_cons, or_assoc]
    exact or_left_comm.mp hg

end Complete

end FramePool

/-! ## The rooms -/

namespace RoomMgr
variable {m m' : RoomMgr} {r : Nat} {loose : Nat → Prop}

def Complete (m : RoomMgr) (loose : Nat → Prop) : Prop := m.msgs.Complete (fun f => ∃ x, m.Holds x f) loose

theorem Complete.modify (h : m.Complete loose) {f : Room → Room} (hf : (f (m.rooms r)).slot = (m.rooms r).slot) :
    (m.modify r f).Complete loose := by
  unfold Complete
  rw [holds_modify hf]
  exact h

theorem Complete.fetchPending (ho : m.Owned) (h : m.Complete loose) {f : Nat} (heq : m.fetchPending r = (f, m')) :
    m'.Complete loose := by
  unfold RoomMgr.fetchPending at heq
  cases hpt : (m.rooms r).pt2001 with
  | some g =>
    rw [hpt] at heq
    cases heq
    exact h
  | none =>
    obtain ⟨g, msgs, hfetch⟩ : ∃ g msgs, m.msgs.fetchPt2001 = (g, msgs) := ⟨_, _, rfl⟩
    rw [hpt] at heq
    simp only [hfetch] at heq
    cases heq
    refine (FramePool.Complete.fetchPt2001 h ho.clear hfetch).mono (fun g hg => ?_) fun _ hc => hc
    rcases hg with rfl | ⟨⟨q, k⟩, hx⟩
    · refine ⟨(r, none), ?_⟩
      unfold Holds
      rw [modify_self]
      rfl
    · -- the slot that is filled was empty
      refine ⟨(q, k), ?_⟩
      unfold Holds at hx ⊢
      by_cases hq : q = r
      · subst hq
        rw [modify_self]
        cases k with
        | none => cases hpt.symm.trans hx
        | some k => exact hx
      · rw [modify_of_ne _ hq]
        exact hx

theorem Complete.pushCmd (ho : m.Owned) (h : m.Complete loose) (cmd : Cmd) : (m.pushCmd r cmd).Complete loose := by
  obtain ⟨c, msgs, hfetch⟩ : ∃ c msgs, m.msgs.fetchPt = (c, msgs) := ⟨_, _, rfl⟩
  obtain ⟨hown, hc, -⟩ := FramePool.Owned.fetchPt ho hfetch
  obtain ⟨hown, -, -⟩ := hown.setCmd hc cmd
  set m₁ : RoomMgr := { m with msgs := msgs.setCmd c cmd } with hm₁
  have h₁ : m₁.Complete fun b => b = c ∨ loose b := (FramePool.Complete.fetchPt h hfetch).setCmd c cmd
  obtain ⟨f, m₂, hpend⟩ : ∃ f m₂, m₁.fetchPending r = (f, m₂) := ⟨_, _, rfl⟩
  have hown₁ : m₁.Owned := hown
  obtain ⟨hown₂, -, hself, -⟩ := hown₁.fetchPending hpend
  have hholds : m₂.Holds (r, none) f := by
    unfold Holds
    rw [hself]
    rfl
  have h₂ : m₂.Complete fun b => b = c ∨ loose b := h₁.fetchPending hown₁ hpend
  have heq : m.pushCmd r cmd = { m₂ with msgs := m₂.msgs.addAllocated f c } := by
    simp only [RoomMgr.pushCmd, hfetch, ← hm₁, hpend]
  rw [heq]
  exact FramePool.Complete.addAllocated h₂ (hown₂.held hholds).1

/-- A frame is recorded where no other one is. -/
theorem Complete.emitFrame (ho : m.Owned) (h : m.Complete loose) {out : Out} (heq : m.emitFrame r = .ok (m', out))
    (hkey : (m.rooms r).allOperMap[(m.rooms r).frameId]? = none) : m'.Complete loose := by
  obtain ⟨f, m₁, hpend⟩ : ∃ f m₁, m.fetchPending r = (f, m₁) := ⟨_, _, rfl⟩
  obtain ⟨hown₁, -, hself, hother, -⟩ := ho.fetchPending hpend
  have h₁ : m₁.Complete loose := h.fetchPending ho hpend
  have hfid : (m₁.rooms r).frameId = (m.rooms r).frameId := by rw [hself]
  have hmap : (m₁.rooms r).allOperMap = (m.rooms r).allOperMap := by rw [hself]
  obtain ⟨hown₂, -⟩ := FramePool.Owned.setFrameid hown₁ f (uint32 (m.rooms r).frameId)
  set s₂ := m₁.msgs.setFrameid f (uint32 (m.rooms r).frameId) with hs₂
  have h₂ : s₂.Complete (fun f => ∃ x, m₁.Holds x f) loose := FramePool.Complete.setFrameid h₁ f _
  obtain ⟨f', s₃, hfetch⟩ : ∃ f' s₃, s₂.fetchPt2001 = (f', s₃) := ⟨_, _, rfl⟩
  have h₃ := h₂.fetchPt2001 hown₂.clear hfetch
  simp only [RoomMgr.emitFrame, hpend, hfid, ← hs₂, hfetch] at heq
  split at heq
  · cases heq
  · cases heq
    refine h₃.mono (fun g hg => ?_) fun _ hc => hc
    rcases hg with rfl | ⟨x, hx⟩
    · exact ⟨(r, none), holds_record.mpr (Or.inl ⟨rfl, rfl⟩)⟩
    · by_cases hnone : x = (r, none)
      · -- the pending frame is the recorded one now
        subst hnone
        refine ⟨(r, some (m₁.rooms r).frameId), holds_record.mpr (Or.inr (Or.inl ⟨rfl, ?_⟩))⟩
        unfold Holds at hx
        rw [hself] at hx
        exact (Option.some.inj hx).symm
      · refine ⟨x, holds_record.mpr (Or.inr (Or.inr ⟨hnone, ?_, hx⟩))⟩
        rintro rfl
        change (m₁.rooms r).allOperMap[(m₁.rooms r).frameId]? = some g at hx
        rw [hfid, hmap, hkey] at hx
        cases hx

theorem Complete.getFramesData (h : m.Complete loose) (pb : Pb) (players : Heap Player) (kcp : KCPServer) (p : Nat)
    (body : Bytes) : (m.getFramesData pb players kcp r p body).1.Complete loose := by
  obtain ⟨copies, msgs, hcopy⟩ : ∃ copies msgs,
    FramePool.copyFrames (m.foundFrames r (pb.frameids2002 body)) m.msgs = (copies, msgs) := ⟨_, _, rfl⟩
  have hcopied := FramePool.Complete.copyFrames h hcopy
  simp only [RoomMgr.getFramesData, hcopy]
  refine FramePool.Complete.recycleAll (hcopied.mono (fun g hg => ?_) fun _ hc => hc)
  exact hg.imp_left List.mem_reverse.mpr

theorem Complete.finnal (h : m.Complete loose) : (m.finnal r).1.Complete loose := by
  have hall : m.msgs.Complete (fun f => f ∈ (m.rooms r).allOperMap.toList.map Prod.snd ∨ ∃ x, (m.finnal r).1.Holds x f)
      loose := by
    refine FramePool.Complete.mono h (fun f hf => ?_) fun _ hc => hc
    obtain ⟨⟨q, k⟩, hx⟩ := hf
    unfold Holds at hx
    by_cases hq : q = r
    · subst hq
      cases k with
      | none =>
        refine Or.inr ⟨(q, none), ?_⟩
        unfold Holds RoomMgr.finnal
        rw [modify_self]
        exact hx
      | some k =>
        exact Or.inl (List.mem_map.mpr ⟨(k, f), Std.TreeMap.mem_toList_iff_getElem?_eq_some.mpr hx, rfl⟩)
    · refine Or.inr ⟨(q, k), ?_⟩
      unfold Holds RoomMgr.finnal
      rw [modify_of_ne _ hq]
      exact hx
  exact FramePool.Complete.recycleAll hall

/-! ## The ledger -/

/-- The books of the messages: every frame and every command has its place, rooms outside of `live` have no recorded
frames, and a room has recorded frames under the ids it has counted. -/
structure Filed (m : RoomMgr) (live : Nat → Prop) : Prop where
  owned : m.Owned
  complete : m.Complete fun _ => False
  keys : ∀ {r : Nat} {k : Int} {f : Nat}, (m.rooms r).allOperMap[k]? = some f → k < (m.rooms r).frameId
  logs : ∀ {r : Nat} {k : Int} {f : Nat}, (m.rooms r).allOperMap[k]? = some f → live r
  pending : ∀ {r f : Nat}, (m.rooms r).pt2001 = some f → r < m.rooms.next

namespace Filed
variable {live live' : Nat → Prop} {outs : List Out}

theorem mono (h : m.Filed live) (hlive : ∀ r k f, (m.rooms r).allOperMap[(k : Int)]? = some f → live r → live' r) :
    m.Filed live' := ⟨h.owned, h.complete, h.keys, fun hf => hlive _ _ _ hf (h.logs hf), h.pending⟩

theorem congr (h : m.Filed live) (hrooms : m'.rooms = m.rooms) (hmsgs : m'.msgs = m.msgs) : m'.Filed live := by
  have hholds : m'.Holds = m.Holds := by
    unfold Holds
    rw [hrooms]
  obtain ⟨hown, hcomplete, hkeys, hlogs, hpending⟩ := h
  unfold RoomMgr.Owned at hown
  unfold RoomMgr.Complete at hcomplete
  rw [← hrooms] at hkeys hlogs hpending
  rw [← hmsgs, ← hholds] at hown hcomplete
  exact ⟨hown, hcomplete, hkeys, hlogs, hpending⟩

theorem modify (h : m.Filed live) {f : Room → Room} (hslot : (f (m.rooms r)).slot = (m.rooms r).slot)
    (hid : (f (m.rooms r)).frameId = (m.rooms r).frameId) : (m.modify r f).Filed live := by
  have hrooms : ∀ q, ((m.modify r f).rooms q).slot = (m.rooms q).slot ∧
      ((m.modify r f).rooms q).frameId = (m.rooms q).frameId := by
    intro q
    by_cases hq : q = r
    · subst hq
      rw [modify_self]
      exact ⟨hslot, hid⟩
    · rw [modify_of_ne m hq]
      exact ⟨rfl, rfl⟩
  refine ⟨h.owned.modify hslot, h.complete.modify hslot, fun {q k g} hg => ?_, fun {q k g} hg => ?_, fun {q g} hg => ?_⟩
  · rw [(hrooms q).2]
    exact h.keys ((congrFun (hrooms q).1 (some k)).symm.trans hg)
  · exact h.logs ((congrFun (hrooms q).1 (some k)).symm.trans hg)
  · exact h.pending ((congrFun (hrooms q).1 none).symm.trans hg)

theorem pushCmd (h : m.Filed live) (hr : r < m.rooms.next) (cmd : Cmd) : (m.pushCmd r cmd).Filed live := by
  obtain ⟨hown, -, ⟨f, hself⟩, hother, -⟩ := h.owned.pushCmd (r := r) cmd
  have hnext : (m.pushCmd r cmd).rooms.next = m.rooms.next := by
    obtain ⟨msgs, f, heq⟩ := m.pushCmd_eq r cmd
    rw [heq]
    rfl
  have hmap : ∀ q, ((m.pushCmd r cmd).rooms q).allOperMap = (m.rooms q).allOperMap ∧
      ((m.pushCmd r cmd).rooms q).frameId = (m.rooms q).frameId := by
    intro q
    by_cases hq : q = r
    · subst hq
      rw [hself]
      exact ⟨rfl, rfl⟩
    · rw [hother q hq]
      exact ⟨rfl, rfl⟩
  refine ⟨hown, h.complete.pushCmd h.owned cmd, fun {q k g} hg => ?_, fun {q k g} hg => ?_, fun {q g} hg => ?_⟩
  · rw [(hmap q).1] at hg
    rw [(hmap q).2]
    exact h.keys hg
  · rw [(hmap q).1] at hg
    exact h.logs hg
  · rw [hnext]
    by_cases hq : q = r
    · exact hq ▸ hr
    · rw [hother q hq] at hg
      exact h.pending hg

theorem enterP (h : m.Filed live) (hr : r < m.rooms.next) (players : Heap Player) (p : Nat) (pconn : Option Nat) :
    (m.enterP players r p pconn).Filed live :=
  (h.modify (f := (·.enter players p pconn)) rfl rfl).pushCmd hr _

theorem emitFrame (h : m.Filed live) (hr : r < m.rooms.next) (hlive : live r) {out : Out}
    (heq : m.emitFrame r = .ok (m', out)) : m'.Filed live := by
  have hkey : (m.rooms r).allOperMap[(m.rooms r).frameId]? = none := by
    rw [Option.eq_none_iff_forall_ne_some]
    intro f hf
    exact lt_irrefl _ (h.keys hf)
  obtain ⟨hown, -, hother, -, -, -, f, f', hself, -⟩ := h.owned.emitFrame heq
  have hnext : m'.rooms.next = m.rooms.next := by
    obtain ⟨-, -, msgs, f, f', rfl⟩ := emitFrame_eq heq
    rfl
  have hrec : ∀ {k : Int} {g : Nat}, ((m.rooms r).record f f').allOperMap[k]? = some g →
      k = (m.rooms r).frameId ∨ (m.rooms r).allOperMap[k]? = some g := by
    intro k g hg
    rcases insert_eq_some.mp hg with ⟨hk, -⟩ | ⟨-, hg⟩
    · exact Or.inl hk
    · exact Or.inr hg
  refine ⟨hown, h.complete.emitFrame h.owned heq hkey, fun {q k g} hg => ?_, fun {q k g} hg => ?_, fun {q g} hg => ?_⟩
  · by_cases hq : q = r
    · subst hq
      rw [hself] at hg ⊢
      show k < (m.rooms q).frameId + 1
      rcases hrec hg with rfl | hg
      · exact Int.lt_succ _
      · exact (h.keys hg).trans (Int.lt_succ _)
    · rw [hother q hq] at hg ⊢
      exact h.keys hg
  · by_cases hq : q = r
    · exact hq ▸ hlive
    · rw [hother q hq] at hg
      exact h.logs hg
  · rw [hnext]
    by_cases hq : q = r
    · exact hq ▸ hr
    · rw [hother q hq] at hg
      exact h.pending hg

theorem advance (h : m.Filed live) (hr : r < m.rooms.next) (hlive : live r) {ms : Nat}
    (heq : m.advance r ms = .ok (m', outs)) : m'.Filed live ∧ m'.rooms.next = m.rooms.next := by
  refine advance_invariant (I := fun m' _ => m'.Filed live ∧ m'.rooms.next = m.rooms.next) heq ⟨h, rfl⟩ ?_ ?_
  · rintro m₁ m₂ - out ⟨hfiled, hnext⟩ hout
    obtain ⟨-, -, msgs, f, f', heq⟩ := emitFrame_eq hout
    refine ⟨hfiled.emitFrame (hnext.symm ▸ hr) hlive hout, ?_⟩
    rw [heq]
    exact hnext
  · rintro m₁ accMs ⟨hfiled, hnext⟩
    exact ⟨hfiled.modify rfl rfl, hnext⟩

theorem getFramesData (h : m.Filed live) (pb : Pb) (players : Heap Player) (kcp : KCPServer) (p : Nat) (body : Bytes) :
    (m.getFramesData pb players kcp r p body).1.Filed live := by
  obtain ⟨hown, -, -⟩ := h.owned.getFramesData (r := r) pb players kcp p body
  exact ⟨hown, h.complete.getFramesData pb players kcp p body, h.keys, h.logs, h.pending⟩

/-- `Finnal` clears the record of its room. -/
theorem finnal (h : m.Filed live) : (m.finnal r).1.Filed fun q => live q ∧ q ≠ r := by
  obtain ⟨hown, -, hother⟩ := h.owned.finnal (r := r)
  have hself : (m.finnal r).1.rooms r = { m.rooms r with allOperMap := ∅ } := modify_self ..
  have hempty : ∀ {k : Int} {g : Nat}, ((m.finnal r).1.rooms r).allOperMap[k]? ≠ some g := by
    intro k g hg
    rw [hself] at hg
    exact nomatch Std.TreeMap.getElem?_emptyc.symm.trans hg
  refine ⟨hown, h.complete.finnal, fun {q k g} hg => ?_, fun {q k g} hg => ?_, fun {q g} hg => ?_⟩
  · have hq : q ≠ r := by
      rintro rfl
      exact hempty hg
    rw [hother q hq] at hg ⊢
    exact h.keys hg
  · have hq : q ≠ r := by
      rintro rfl
      exact hempty hg
    rw [hother q hq] at hg
    exact ⟨h.logs hg, hq⟩
  · show q < m.rooms.next
    by_cases hq : q = r
    · subst hq
      rw [hself] at hg
      exact h.pending hg
    · rw [hother q hq] at hg
      exact h.pending hg

end Filed

end RoomMgr

end KcpServer
