import KcpServer.Core.Clock
import KcpServer.Lib.Transition

/-!
# The frame log

One room among others that share the message pools. `LogWorld` follows a room with two ghost lists: the commands it has
accepted and the frames it has broadcast. Whatever the methods of the other rooms do, and whatever happens to players
and sessions, the recorded frames are the broadcast ones, and their commands followed by the pending ones are the accepted
ones (`frameLog`).
-/

namespace KcpServer
open Lib FramePool

inductive RoomCall
  | init (roomid : Int)
  | updateDelta (delta : Nat)
  | enterP (p : Nat) (pconn : Option Nat)
  | leaveP (p : Nat)
  | frameCmd (pid : Int) (body : Bytes)
  | getFramesData (p : Nat) (body : Bytes)
  | getCacheFrames (p beginid : Nat)
  | setOver (force : Bool)
  | setReady
  | update (ms : Nat)
  | finnal

def GameNode.call (pb : Pb) (g : GameNode) (r : Nat) : RoomCall → Except Fault (GameNode × List Out)
  | .init roomid => .ok (g.modifyRoom r (·.init roomid), [])
  | .updateDelta delta => .ok (g.modifyRoom r (·.updateDelta delta), [])
  | .enterP p pconn => .ok ({ g with rm := g.rm.enterP g.pm.players r p pconn }, [])
  | .leaveP p => .ok ({ g with rm := g.rm.leaveP g.pm.players r p }, [])
  | .frameCmd pid body => .ok ({ g with rm := g.rm.frameCmd pb r pid body }, [])
  | .getFramesData p body =>
    let (rm, outs) := g.rm.getFramesData pb g.pm.players g.kcp r p body
    .ok ({ g with rm }, outs)
  | .getCacheFrames p beginid => .ok (g, g.rm.getCacheFrames g.pm.players r p beginid)
  | .setOver force => .ok (g.modifyRoom r (·.setOver force), [])
  | .setReady => .ok (g.modifyRoom r (·.setReady), [])
  | .update ms => do
    let (g, _, outs) ← g.updateRoom r ms
    return (g, outs)
  | .finnal =>
    let (rm, out) := g.rm.finnal r
    .ok ({ g with rm }, [out])

theorem GameNode.call_update (pb : Pb) {g g' : GameNode} {r ms : Nat} {ret : Int} {outs : List Out}
    (hup : g.updateRoom r ms = .ok (g', ret, outs)) : g.call pb r (.update ms) = .ok (g', outs) := by
  rw [call, hup, ok_bind]
  rfl

/-- The commands that a call makes the room accept. -/
def GameNode.accepts (pb : Pb) (g : GameNode) (r : Nat) : RoomCall → List Cmd
  | .enterP p pconn => [((g.room r).enter g.pm.players p pconn).svrCmd g.pm.players p 1]
  | .leaveP p => [(g.room r).svrCmd g.pm.players p 0]
  | .frameCmd pid body => if ((g.room r).getP pid).isSome then [pb.cmd2000 body] else []
  | _ => []

def sentFrames (outs : List Out) : List (Nat × List Cmd) :=
  outs.filterMap fun
    | .frame _ _ data => some data
    | _ => none

/-- A call of a room's method, or anything that happens to players and sessions. -/
inductive LogOp
  | call (r : Nat) (c : RoomCall)
  | others (kcp : KCPServer) (pm : PlayerMgr)

def GameNode.logStep (pb : Pb) (g : GameNode) : LogOp → Except Fault GameNode
  | .call r c => Prod.fst <$> g.call pb r c
  | .others kcp pm => .ok { g with kcp, pm }

/-- A game node, and what one of its rooms has accepted and broadcast. -/
structure LogWorld where
  node : GameNode
  accepted : List Cmd
  sent : List (Nat × List Cmd)

namespace LogWorld

def start (g : GameNode) (t : Nat) (roomid : Int) : LogWorld := ⟨g.modifyRoom t (·.init roomid), [], []⟩

def step (pb : Pb) (t : Nat) (w : LogWorld) : LogOp → Except Fault LogWorld
  | .call r c => do
    let (node, outs) ← w.node.call pb r c
    if r = t then
      return ⟨node, w.accepted ++ w.node.accepts pb t c, w.sent ++ sentFrames outs⟩
    else
      return { w with node }
  | .others kcp pm => .ok { w with node := { w.node with kcp, pm } }

/-- The room under observation is not finished and not initialised again; other rooms may be. -/
def Plays (t : Nat) : LogOp → Prop
  | .call r (.init _) | .call r (.updateDelta _) | .call r .finnal => r ≠ t
  | _ => True

/-- The room is neither initialised nor emptied; its tick may change. -/
def Lasts (t : Nat) : LogOp → Prop
  | .call r (.init _) | .call r .finnal => r ≠ t
  | _ => True

theorem Plays.lasts {t : Nat} {o : LogOp} (h : Plays t o) : Lasts t o := by
  unfold Lasts
  split
  · exact h
  · exact h
  · trivial

/-- What a step does: only the calls of the room's own methods go into the two lists. -/
inductive Stepped (pb : Pb) (t : Nat) (w : LogWorld) : LogOp → LogWorld → Prop
  | own {c : RoomCall} {node : GameNode} {outs : List Out} (hcall : w.node.call pb t c = .ok (node, outs)) :
      Stepped pb t w (.call t c) ⟨node, w.accepted ++ w.node.accepts pb t c, w.sent ++ sentFrames outs⟩
  | other {r : Nat} {c : RoomCall} {node : GameNode} {outs : List Out} (hr : t ≠ r)
      (hcall : w.node.call pb r c = .ok (node, outs)) : Stepped pb t w (.call r c) { w with node }
  | others (kcp : KCPServer) (pm : PlayerMgr) :
      Stepped pb t w (.others kcp pm) { w with node := { w.node with kcp, pm } }

theorem stepped {pb : Pb} {t : Nat} {w w' : LogWorld} {o : LogOp} (heq : w.step pb t o = .ok w') :
    Stepped pb t w o w' := by
  cases o with
  | call r c =>
    obtain ⟨⟨node, outs⟩, hcall, heq⟩ := bind_eq_ok.mp heq
    dsimp only at heq
    split at heq
    · next hr =>
      subst hr
      cases heq
      exact .own hcall
    · next hr =>
      cases heq
      exact .other (fun hrt => hr hrt.symm) hcall
  | others kcp pm =>
    cases heq
    exact .others kcp pm

theorem step_own {pb : Pb} {t : Nat} {w : LogWorld} {c : RoomCall} {node : GameNode} {outs : List Out}
    (hcall : w.node.call pb t c = .ok (node, outs)) :
    w.step pb t (.call t c) = .ok ⟨node, w.accepted ++ w.node.accepts pb t c, w.sent ++ sentFrames outs⟩ := by
  rw [step, hcall, ok_bind]
  exact if_pos rfl

/-- The commands recorded under a frame id. -/
def recorded (m : RoomMgr) (t : Nat) (k : Nat) : List Cmd := ((m.rooms t).allOperMap[(k : Int)]?).elim [] m.msgs.content

/-- The law of the log. -/
structure FrameLog (t : Nat) (w : LogWorld) : Prop where
  keys : ∀ k : Int, k ∈ (w.node.room t).allOperMap ↔ 0 ≤ k ∧ k < (w.node.room t).frameId
  entry : ∀ (k : Nat) f, (w.node.room t).allOperMap[(k : Int)]? = some f →
    (w.node.rm.msgs.frames f).frameid = k ∧ w.sent[k]? = some (k, w.node.rm.msgs.content f)
  log : ((List.range (w.node.room t).frameId.toNat).flatMap (recorded w.node.rm t)) ++ w.node.rm.pending t = w.accepted

/-! ## The invariant -/

structure Inv (t : Nat) (m : RoomMgr) (accepted : List Cmd) (sent : List (Nat × List Cmd)) : Prop where
  owned : m.Owned
  frameId : (m.rooms t).frameId = sent.length
  bound : sent.length < 2 ^ 31
  entry : ∀ k : Int, (m.rooms t).allOperMap[k]?.map m.msgs.frameData = if 0 ≤ k then sent[k.toNat]? else none
  ids : ∀ (k : Nat) (h : k < sent.length), (sent[k]).1 = k
  log : (sent.map Prod.snd).flatten ++ m.pending t = accepted

section Inv
variable {t : Nat} {m m' : RoomMgr} {accepted : List Cmd} {sent : List (Nat × List Cmd)}

/-- What is recorded reads the same when its frames are kept. -/
theorem map_frameData {m m' : RoomMgr} {t : Nat} (hmap : (m'.rooms t).allOperMap = (m.rooms t).allOperMap)
    {k : Int} (hkeeps : ∀ f, m.Holds (t, some k) f → Kept m.msgs m'.msgs f) :
    (m'.rooms t).allOperMap[k]?.map m'.msgs.frameData = (m.rooms t).allOperMap[k]?.map m.msgs.frameData := by
  rw [hmap]
  cases hf : (m.rooms t).allOperMap[k]? with
  | none => rfl
  | some f => exact congrArg some (hkeeps f hf).frameData

theorem Inv.push (h : Inv t m accepted sent) {cmds : List Cmd} (hown : m'.Owned)
    (hkeeps : RoomMgr.Keeps (· ≠ (t, none)) m m') (hid : (m'.rooms t).frameId = (m.rooms t).frameId)
    (hmap : (m'.rooms t).allOperMap = (m.rooms t).allOperMap) (hpend : m'.pending t = m.pending t ++ cmds) :
    Inv t m' (accepted ++ cmds) sent where
  owned := hown
  frameId := hid.trans h.frameId
  bound := h.bound
  entry k := (map_frameData hmap fun f hf => (hkeeps _ f (by simp) hf).2).trans (h.entry k)
  ids := h.ids
  log := by rw [hpend, ← List.append_assoc, h.log]

theorem Inv.keep (h : Inv t m accepted sent) (hown : m'.Owned) (hkeeps : RoomMgr.Keeps (·.1 = t) m m')
    (hid : (m'.rooms t).frameId = (m.rooms t).frameId) (hslot : (m'.rooms t).slot = (m.rooms t).slot)
    (hmap : (m'.rooms t).allOperMap = (m.rooms t).allOperMap) : Inv t m' accepted sent where
  owned := hown
  frameId := hid.trans h.frameId
  bound := h.bound
  entry k := (map_frameData hmap fun f hf => (hkeeps _ f rfl hf).2).trans (h.entry k)
  ids := h.ids
  log := by
    have hpt : (m'.rooms t).pt2001 = (m.rooms t).pt2001 := congrFun hslot none
    rw [← h.log, RoomMgr.pending, RoomMgr.pending, hpt]
    cases hf : (m.rooms t).pt2001 with
    | none => rfl
    | some f => rw [Option.elim_some, Option.elim_some, (hkeeps (t, none) f rfl hf).2.content]

theorem Inv.emit (h : Inv t m accepted sent) {out : Out} (heq : m.emitFrame t = .ok (m', out)) :
    Inv t m' accepted (sent ++ sentFrames [out]) := by
  obtain ⟨hown, hkeeps, -, hmax, hpend, rfl, f, f', hroom, hdata⟩ := h.owned.emitFrame heq
  have hfid : uint32 (m.rooms t).frameId = sent.length := by
    have := h.frameId
    have := h.bound
    unfold uint32
    omega
  rw [hfid] at hdata
  have hsent : sentFrames [Out.frame t (m.rooms t).pidConn.values (uint32 (m.rooms t).frameId, m.pending t)] =
      [(sent.length, m.pending t)] := by
    rw [hfid]
    rfl
  rw [hsent]
  refine ⟨hown, ?_, ?_, fun k => ?_, fun k hk => ?_, ?_⟩
  · rw [hroom, List.length_append]
    change (m.rooms t).frameId + 1 = _
    rw [h.frameId]
    rfl
  · have := h.frameId
    have := h.bound
    rw [List.length_append, List.length_singleton]
    omega
  · rw [hroom]
    change ((m.rooms t).allOperMap.insert (m.rooms t).frameId f)[k]?.map _ = _
    rw [h.frameId]
    by_cases hk : k = sent.length
    · subst hk
      rw [Std.TreeMap.getElem?_insert_self, Option.map_some, hdata, if_pos (by omega), Int.toNat_natCast,
        List.getElem?_concat_length]
    · have hne : ((t, some k) : Nat × Option Int) ≠ (t, some (m.rooms t).frameId) := by
        rw [h.frameId]
        simpa using hk
      have hold := h.entry k
      rw [getElem?_insert_of_ne hk]
      have hsame : (m.rooms t).allOperMap[k]?.map m'.msgs.frameData = (m.rooms t).allOperMap[k]?.map m.msgs.frameData := by
        cases hf : (m.rooms t).allOperMap[k]? with
        | none => rfl
        | some g => exact congrArg some (hkeeps (t, some k) g ⟨by simp, hne⟩ hf).2.frameData
      rw [hsame, hold]
      split
      · by_cases hlt : k.toNat < sent.length
        · rw [List.getElem?_append_left hlt]
        · rw [List.getElem?_eq_none (by omega), List.getElem?_eq_none (by rw [List.length_append, List.length_singleton]; omega)]
      · rfl
  · rw [List.length_append, List.length_singleton] at hk
    by_cases hlt : k < sent.length
    · rw [List.getElem_append_left hlt]
      exact h.ids k hlt
    · obtain rfl : k = sent.length := by omega
      simp
  · rw [hpend, List.append_nil, ← h.log]
    simp

end Inv

/-! ## The calls -/

theorem sentFrames_append (outs outs' : List Out) : sentFrames (outs ++ outs') = sentFrames outs ++ sentFrames outs' :=
  List.filterMap_append

theorem sentFrames_rawOver (g : GameNode) (r : Nat) : sentFrames (g.rawOver r).2 = [] := by
  simp [GameNode.rawOver, sentFrames]

theorem Inv.modify {t r : Nat} {m : RoomMgr} {accepted : List Cmd} {sent : List (Nat × List Cmd)}
    (h : Inv t m accepted sent) {f : Room → Room} (hslot : (f (m.rooms r)).slot = (m.rooms r).slot)
    (hid : (f (m.rooms r)).frameId = (m.rooms r).frameId)
    (hmap : (f (m.rooms r)).allOperMap = (m.rooms r).allOperMap) : Inv t (m.modify r f) accepted sent := by
  by_cases hr : t = r
  · subst hr
    refine h.keep (h.owned.modify hslot) (RoomMgr.keeps_modify hslot) ?_ ?_ ?_
    · rw [RoomMgr.modify_self, hid]
    · rw [RoomMgr.modify_self, hslot]
    · rw [RoomMgr.modify_self, hmap]
  · refine h.keep (h.owned.modify hslot) (RoomMgr.keeps_modify hslot) ?_ ?_ ?_ <;> rw [RoomMgr.modify_of_ne m hr]

/-- The clock of the room itself. -/
theorem inv_advance {t ms : Nat} {m m' : RoomMgr} {accepted : List Cmd} {sent : List (Nat × List Cmd)} {outs : List Out}
    (h : Inv t m accepted sent) (heq : m.advance t ms = .ok (m', outs)) :
    Inv t m' accepted (sent ++ sentFrames outs) := by
  have hstart : Inv t m accepted (sent ++ sentFrames []) := by simpa [sentFrames] using h
  refine RoomMgr.advance_invariant (I := fun m outs => Inv t m accepted (sent ++ sentFrames outs)) heq hstart ?_ ?_
  · intro m₁ m₂ pre out h₁ hout
    rw [sentFrames_append, ← List.append_assoc]
    exact h₁.emit hout
  · intro m₁ accMs h₁
    exact h₁.modify rfl rfl rfl

theorem Inv.pushCmd {t : Nat} {m : RoomMgr} {accepted : List Cmd} {sent : List (Nat × List Cmd)}
    (h : Inv t m accepted sent) (cmd : Cmd) : Inv t (m.pushCmd t cmd) (accepted ++ [cmd]) sent := by
  obtain ⟨hown, hkeeps, ⟨f, hroom⟩, -, hpend⟩ := h.owned.pushCmd (r := t) cmd
  exact h.push hown hkeeps (by rw [hroom]) (by rw [hroom]) hpend

theorem Inv.repaired {t : Nat} {m : RoomMgr} {accepted : List Cmd} {sent : List (Nat × List Cmd)}
    (h : Inv t m accepted sent) (pb : Pb) (players : Heap Player) (kcp : KCPServer) (r p : Nat) (body : Bytes) :
    Inv t (m.getFramesData pb players kcp r p body).1 accepted sent := by
  obtain ⟨hown, hkeeps, hrooms⟩ := h.owned.getFramesData (r := r) pb players kcp p body
  exact h.keep hown (hkeeps.mono fun _ _ => trivial) (by rw [hrooms]) (by rw [hrooms]) (by rw [hrooms])

theorem inv_call {pb : Pb} {t : Nat} {g g' : GameNode} {accepted : List Cmd} {sent : List (Nat × List Cmd)} {c : RoomCall}
    {outs : List Out} (h : Inv t g.rm accepted sent) (hlasts : Lasts t (.call t c))
    (heq : g.call pb t c = .ok (g', outs)) :
    Inv t g'.rm (accepted ++ g.accepts pb t c) (sent ++ sentFrames outs) := by
  cases c with
  | init roomid => exact absurd rfl hlasts
  | finnal => exact absurd rfl hlasts
  | updateDelta delta =>
    cases heq
    simp only [GameNode.accepts, sentFrames, List.filterMap_nil, List.append_nil]
    exact h.modify (f := (·.updateDelta delta)) rfl rfl rfl
  | enterP p pconn =>
    cases heq
    simp only [GameNode.accepts, sentFrames, List.filterMap_nil, List.append_nil, RoomMgr.enterP, RoomMgr.svrFrameCmd]
    rw [RoomMgr.modify_self]
    exact (h.modify rfl rfl rfl).pushCmd _
  | leaveP p =>
    cases heq
    simp only [GameNode.accepts, sentFrames, List.filterMap_nil, List.append_nil]
    exact h.pushCmd _
  | frameCmd pid body =>
    cases heq
    simp only [GameNode.accepts, sentFrames, List.filterMap_nil, List.append_nil, RoomMgr.frameCmd_eq]
    by_cases hp : ((g.rm.rooms t).getP pid).isSome
    · rw [if_pos hp, if_pos hp]
      exact h.pushCmd _
    · rw [if_neg hp, if_neg hp, List.append_nil]
      exact h
  | getFramesData p body =>
    obtain ⟨rfl, rfl⟩ : g' = { g with rm := (g.rm.getFramesData pb g.pm.players g.kcp t p body).1 } ∧
        outs = (g.rm.getFramesData pb g.pm.players g.kcp t p body).2 := by
      cases heq
      exact ⟨rfl, rfl⟩
    have hsent : sentFrames (g.rm.getFramesData pb g.pm.players g.kcp t p body).2 = [] := by
      simp only [RoomMgr.getFramesData, sentFrames, List.filterMap_eq_nil_iff]
      intro out hout
      split at hout
      · cases hout
      · obtain ⟨c, -, rfl⟩ := List.mem_map.mp hout
        rfl
    simp only [hsent, GameNode.accepts, List.append_nil]
    exact h.repaired pb g.pm.players g.kcp t p body
  | getCacheFrames p beginid =>
    cases heq
    simpa [GameNode.accepts, sentFrames, RoomMgr.getCacheFrames] using h
  | setOver force =>
    cases heq
    simp only [GameNode.accepts, sentFrames, List.filterMap_nil, List.append_nil]
    exact h.modify (f := (·.setOver force)) rfl rfl rfl
  | setReady =>
    cases heq
    simp only [GameNode.accepts, sentFrames, List.filterMap_nil, List.append_nil]
    exact h.modify (f := (·.setReady)) rfl rfl rfl
  | update ms =>
    obtain ⟨⟨g₁, ret, outs₁⟩, hup, heq⟩ := bind_eq_ok.mp heq
    cases heq
    simp only [GameNode.accepts, List.append_nil]
    cases GameNode.updated_of_updateRoom hup with
    | gate hgate =>
      rw [sentFrames_rawOver, GameNode.rawOver_rm, List.append_nil]
      exact h.modify rfl rfl rfl
    | idle hgate hidle => simpa [sentFrames] using h
    | first hgate hrun hsize hms =>
      simp only [sentFrames, List.filterMap_nil, List.append_nil]
      exact h.modify (f := ({ · with lastMs := ms, accMs := 0 })) rfl rfl rfl
    | tick hgate hrun hsize hms hadv hend => exact inv_advance h hadv
    | finish hgate hrun hsize hms hadv hend =>
      rw [sentFrames_append, sentFrames_rawOver, List.append_nil, GameNode.rawOver_rm]
      exact (inv_advance h hadv).modify rfl rfl rfl

/-! ## Other rooms -/

/-- What the methods of other rooms leave: the room, its frames and their commands. -/
structure Apart (t : Nat) (m m' : RoomMgr) : Prop where
  owned : m'.Owned
  keeps : RoomMgr.Keeps (·.1 = t) m m'
  room : m'.rooms t = m.rooms t

theorem Apart.trans {t : Nat} {m m' m'' : RoomMgr} (h : Apart t m m') (h' : Apart t m' m'') : Apart t m m'' :=
  ⟨h'.owned, h.keeps.trans h'.keeps, h'.room.trans h.room⟩

theorem Inv.apart {t : Nat} {m m' : RoomMgr} {accepted : List Cmd} {sent : List (Nat × List Cmd)}
    (h : Inv t m accepted sent) (h' : Apart t m m') : Inv t m' accepted sent :=
  h.keep h'.owned h'.keeps (by rw [h'.room]) (by rw [h'.room]) (by rw [h'.room])

section Apart
variable {t r : Nat} {m m' : RoomMgr} (hr : t ≠ r)
include hr

theorem apart_modify {f : Room → Room} (hown : (m.modify r f).Owned) : Apart t m (m.modify r f) := by
  refine ⟨hown, ?_, RoomMgr.modify_of_ne m hr f⟩
  rintro ⟨q, k⟩ g hq hx
  obtain rfl : q = t := hq
  refine ⟨?_, .refl _ _⟩
  unfold RoomMgr.Holds at hx ⊢
  rwa [RoomMgr.modify_of_ne m hr]

theorem apart_pushCmd (h : m.Owned) (cmd : Cmd) : Apart t m (m.pushCmd r cmd) := by
  obtain ⟨hown, hkeeps, -, hother, -⟩ := h.pushCmd (r := r) cmd
  refine ⟨hown, hkeeps.mono fun x hx => ?_, hother t hr⟩
  rintro rfl
  exact hr hx.symm

theorem apart_advance {ms : Nat} {outs : List Out} (h : m.Owned) (heq : m.advance r ms = .ok (m', outs)) :
    Apart t m m' := by
  have hstart : Apart t m m := ⟨h, .refl _ _, rfl⟩
  refine RoomMgr.advance_invariant (I := fun m' (_ : List Out) => Apart t m m') heq hstart ?_ ?_
  · intro m₁ m₂ pre out h₁ hout
    obtain ⟨hown, hkeeps, hother, -⟩ := h₁.owned.emitFrame hout
    refine h₁.trans ⟨hown, hkeeps.mono fun x hx => ⟨?_, ?_⟩, hother t hr⟩ <;>
    · rintro rfl
      exact hr hx.symm
  · intro m₁ accMs h₁
    exact h₁.trans (apart_modify hr (h₁.owned.modify rfl))

theorem apart_call {pb : Pb} {g g' : GameNode} {c : RoomCall} {outs : List Out} (h : g.rm.Owned)
    (heq : g.call pb r c = .ok (g', outs)) : Apart t g.rm g'.rm := by
  cases c with
  | init roomid => cases heq; exact apart_modify hr (h.init roomid)
  | updateDelta delta => cases heq; exact apart_modify hr (h.modify (f := (·.updateDelta delta)) rfl)
  | setOver force => cases heq; exact apart_modify hr (h.modify (f := (·.setOver force)) rfl)
  | setReady => cases heq; exact apart_modify hr (h.modify (f := (·.setReady)) rfl)
  | enterP p pconn =>
    cases heq
    have hmod := apart_modify hr (h.modify (r := r) (f := (·.enter g.pm.players p pconn)) rfl)
    exact hmod.trans (apart_pushCmd hr hmod.owned _)
  | leaveP p => cases heq; exact apart_pushCmd hr h _
  | frameCmd pid body =>
    cases heq
    rw [RoomMgr.frameCmd_eq]
    split
    · exact apart_pushCmd hr h _
    · exact ⟨h, .refl _ _, rfl⟩
  | getFramesData p body =>
    cases heq
    obtain ⟨hown, hkeeps, hrooms⟩ := h.getFramesData (r := r) pb g.pm.players g.kcp p body
    exact ⟨hown, hkeeps.mono fun _ _ => trivial, congrFun (congrArg Heap.at' hrooms) t⟩
  | getCacheFrames p beginid => cases heq; exact ⟨h, .refl _ _, rfl⟩
  | finnal =>
    cases heq
    obtain ⟨hown, hkeeps, hother⟩ := h.finnal (r := r)
    refine ⟨hown, hkeeps.mono fun x hx => ?_, hother t hr⟩
    rw [hx]
    exact hr
  | update ms =>
    obtain ⟨⟨g₁, ret, outs₁⟩, hup, heq⟩ := bind_eq_ok.mp heq
    cases heq
    cases GameNode.updated_of_updateRoom hup with
    | gate hgate =>
      rw [GameNode.rawOver_rm]
      exact apart_modify hr (h.modify rfl)
    | idle hgate hidle => exact ⟨h, .refl _ _, rfl⟩
    | first hgate hrun hsize hms =>
      exact apart_modify hr (h.modify (f := ({ · with lastMs := ms, accMs := 0 })) rfl)
    | tick hgate hrun hsize hms hadv hend => exact apart_advance hr h hadv
    | finish hgate hrun hsize hms hadv hend =>
      rw [GameNode.rawOver_rm]
      have hadv := apart_advance hr h hadv
      exact hadv.trans (apart_modify hr (hadv.owned.modify rfl))

end Apart

/-! ## The law -/

theorem owned_new : GameNode.new.rm.Owned := by
  refine owned_withPool _ fun x f hx => ?_
  obtain ⟨q, k⟩ := x
  cases k with
  | none => cases hx
  | some k => cases Std.TreeMap.getElem?_emptyc.symm.trans hx

/-- Ownership holds in every state that calls reach. -/
theorem owned_reach {pb : Pb} {g : GameNode} (h : Reach (GameNode.logStep pb) (fun _ _ => True) .new g) : g.rm.Owned := by
  refine h.invariant (I := fun g => g.rm.Owned) owned_new ?_
  rintro g (⟨r, c⟩ | ⟨kcp, pm⟩) g' hown - heq
  · obtain ⟨⟨g₁, outs⟩, hcall, heq⟩ := bind_eq_ok.mp heq
    cases heq
    exact (apart_call (t := r + 1) (r := r) (by omega) hown hcall).owned
  · cases heq
    exact hown

theorem inv_start {g : GameNode} (h : g.rm.Owned) (t : Nat) (roomid : Int) :
    Inv t (start g t roomid).node.rm [] [] := by
  have hroom : (start g t roomid).node.rm.rooms t = (g.room t).init roomid := RoomMgr.modify_self ..
  refine ⟨h.init roomid, ?_, by decide, fun k => ?_, fun k hk => absurd hk (by simp), ?_⟩
  · rw [hroom]
    rfl
  · rw [hroom]
    change (∅ : Std.TreeMap Int Nat)[k]?.map _ = _
    simp
  · rw [RoomMgr.pending, hroom]
    rfl

theorem inv_step {pb : Pb} {t : Nat} {w w' : LogWorld} {o : LogOp} (h : Inv t w.node.rm w.accepted w.sent)
    (hlasts : Lasts t o) (heq : w.step pb t o = .ok w') : Inv t w'.node.rm w'.accepted w'.sent := by
  cases stepped heq with
  | own hcall => exact inv_call h hlasts hcall
  | other hr hcall => exact h.apart (apart_call hr h.owned hcall)
  | others kcp pm => exact h

/-- The invariant read off the maps. -/
theorem Inv.toFrameLog {t : Nat} {w : LogWorld} (h : Inv t w.node.rm w.accepted w.sent) : FrameLog t w := by
  have hentry : ∀ (k : Nat) f, (w.node.room t).allOperMap[(k : Int)]? = some f →
      w.sent[k]? = some (w.node.rm.msgs.frameData f) := by
    intro k f hf
    have := h.entry k
    rw [hf, if_pos (by omega), Int.toNat_natCast] at this
    exact this.symm
  have hfound : ∀ k, (hk : k < w.sent.length) → ∃ f, (w.node.room t).allOperMap[(k : Int)]? = some f := by
    intro k hk
    have := h.entry k
    rw [if_pos (by omega), Int.toNat_natCast, List.getElem?_eq_getElem hk] at this
    obtain ⟨f, hf, -⟩ := Option.map_eq_some_iff.mp this
    exact ⟨f, hf⟩
  have hid : (w.node.room t).frameId = w.sent.length := h.frameId
  refine ⟨fun k => ⟨fun hk => ?_, fun hk => ?_⟩, fun k f hf => ?_, ?_⟩
  · obtain ⟨f, hf⟩ := mem_iff_exists.mp hk
    have := h.entry k
    rw [hf] at this
    split at this
    · next h0 =>
      obtain ⟨hlt, -⟩ := List.getElem?_eq_some_iff.mp this.symm
      omega
    · cases this
  · obtain ⟨f, hf⟩ := hfound k.toNat (by omega)
    rw [Int.toNat_of_nonneg hk.1] at hf
    exact mem_iff_exists.mpr ⟨f, hf⟩
  · have hsent := hentry k f hf
    obtain ⟨hlt, heq⟩ := List.getElem?_eq_some_iff.mp hsent
    have hframeid : (w.node.rm.msgs.frames f).frameid = k := by
      rw [← h.ids k hlt, heq]
      rfl
    refine ⟨hframeid, ?_⟩
    rw [hsent, frameData, hframeid]
  · have hlen : (w.node.room t).frameId.toNat = w.sent.length := by omega
    rw [← h.log, hlen, List.flatMap_def]
    congr 2
    refine List.ext_getElem (by simp) fun k hk hk' => ?_
    rw [List.length_map] at hk'
    obtain ⟨f, hf⟩ := hfound k hk'
    obtain ⟨hlt, heq⟩ := List.getElem?_eq_some_iff.mp (hentry k f hf)
    rw [List.getElem_map, List.getElem_map, List.getElem_range, recorded, hf, heq]
    rfl

theorem inv_reach {pb : Pb} {g : GameNode} (hg : Reach (GameNode.logStep pb) (fun _ _ => True) .new g) {t : Nat}
    {roomid : Int} {w : LogWorld} (h : Reach (step pb t) (fun _ o => Lasts t o) (start g t roomid) w) :
    Inv t w.node.rm w.accepted w.sent := by
  refine h.invariant (I := fun w => Inv t w.node.rm w.accepted w.sent) (inv_start (owned_reach hg) t roomid) ?_
  intro w o w' hw hlasts hs
  exact inv_step hw hlasts hs

/-- The broadcast frames are numbered from 0 on. -/
theorem Inv.map_fst {t : Nat} {m : RoomMgr} {accepted : List Cmd} {sent : List (Nat × List Cmd)}
    (h : Inv t m accepted sent) : sent.map Prod.fst = List.range sent.length := by
  apply List.ext_getElem (by simp)
  intro k hk hk'
  rw [List.getElem_map, List.getElem_range]
  exact h.ids k (by simpa using hk)

/-- What has been broadcast stays broadcast. -/
theorem prefix_sent {pb : Pb} {t : Nat} {P : LogWorld → LogOp → Prop} {w w' : LogWorld} (h : Reach (step pb t) P w w') :
    w.sent <+: w'.sent := by
  refine h.invariant (I := fun w' => w.sent <+: w'.sent) (List.prefix_refl _) ?_
  intro u o u' hpre _ heq
  cases stepped heq with
  | own hcall => exact hpre.trans (List.prefix_append _ _)
  | other hr hcall => exact hpre
  | others kcp pm => exact hpre

/-- **Every accepted command is in the log once, in order.** In every state that follows the initialisation of a room,
whatever has happened before and whatever else happens, the room's recorded frames are those it has broadcast, under
their ids, and the commands of the recorded frames and of the pending one are the accepted commands. -/
theorem frameLog {pb : Pb} {g : GameNode} (hg : Reach (GameNode.logStep pb) (fun _ _ => True) .new g) {t : Nat}
    {roomid : Int} {w : LogWorld} (h : Reach (step pb t) (fun _ o => Plays t o) (start g t roomid) w) : FrameLog t w :=
  (inv_reach hg (h.mono fun _ _ hplays => hplays.lasts)).toFrameLog

/-- A room with one player that runs for `ms` milliseconds. -/
theorem exists_ticks (pb : Pb) {g : GameNode} (hown : g.rm.Owned) (ms : Nat) (hms : ms < 2 ^ 32) : ∃ w : LogWorld,
    Reach (step pb 0) (fun _ o => Plays 0 o) (start g 0 1) w ∧ (w.node.room 0).frameId = (ms / 66 : Nat) ∧
      (w.node.room 0).frameTick = 66 ∧ w.node.pm = g.pm ∧
      (w.node.room 0).ridPMap = (((g.room 0).init 1).enter g.pm.players 0 none).ridPMap ∧
      w.accepted = [(((g.room 0).init 1).enter g.pm.players 0 none).svrCmd g.pm.players 0 1] := by
  set R := ((g.room 0).init 1).enter g.pm.players 0 none
  set cmd := R.svrCmd g.pm.players 0 1
  -- the player enters, the room is set ready and sees the clock at 5 ms
  set m₁ := (g.rm.modify 0 (·.init 1)).modify 0 (·.enter g.pm.players 0 none) with hm₁
  have hroom₁ : m₁.rooms 0 = R := by rw [hm₁, RoomMgr.modify_self, RoomMgr.modify_self]
  have hown₁ : m₁.Owned := (hown.init 1).modify rfl
  obtain ⟨hown₂, -, ⟨f, hroom₂⟩, -⟩ := hown₁.pushCmd (r := 0) cmd
  set g₂ : GameNode := { g with rm := m₁.pushCmd 0 cmd }
  set g₃ := g₂.modifyRoom 0 (·.setReady) with hg₃
  set g₄ := g₃.modifyRoom 0 ({ · with lastMs := 5, accMs := 0 }) with hg₄
  have hroom₃ : g₃.room 0 = { R with pt2001 := some f, brun := true } := by
    rw [hg₃, GameNode.room, GameNode.modifyRoom, RoomMgr.modify_self, hroom₂, hroom₁]
    rfl
  have hrun₃ : (g₃.room 0).Running := by
    rw [hroom₃]
    exact ⟨rfl, rfl, Room.size_ridPMap_enter _ g.pm.players 0 none, rfl, show 0 < FRAME_TICK_MS by decide⟩
  have hroom₄ : g₄.room 0 = { g₃.room 0 with lastMs := 5, accMs := 0 } := RoomMgr.modify_self ..
  have hrun₄ : (g₄.room 0).Running := by
    rw [hroom₄]
    exact hrun₃.timed 5 0
  have hown₃ : g₃.rm.Owned := RoomMgr.Owned.modify (f := (·.setReady)) hown₂ rfl
  have hslot (R : Room) : ({ R with lastMs := 5, accMs := 0 } : Room).slot = R.slot := rfl
  have hown₄ : g₄.rm.Owned := hown₃.modify (hslot _)
  have htick : (g₄.room 0).frameTick = 66 := by rw [hroom₄, hroom₃]; rfl
  have hid : (g₄.room 0).frameId = 0 := by rw [hroom₄, hroom₃]; rfl
  have hsum : (g₄.room 0).accMs + between (g₄.room 0).lastMs (ms + 5) = ms := by
    rw [hroom₄]
    simp only [between, uint32]
    omega
  have hfirst := @GameNode.updateRoom_first _ _ 5 hrun₃ (by rw [hroom₃]; rfl)
  obtain ⟨g₅, outs, hnext, -, htick₅, -, hid₅, -, hrids₅, hpm₅⟩ := @GameNode.updateRoom_next _ _ (ms + 5) hown₄ hrun₄
    (by rw [hroom₄]; exact Nat.succ_ne_zero 4) (by omega) (by rw [hsum, hid, htick]; omega)
  have henter : (start g 0 1).step pb 0 (.call 0 (.enterP 0 none)) = .ok ⟨g₂, [cmd], []⟩ := rfl
  have h₁ := Reach.refl.step (P := fun _ o => Plays 0 o) (o := LogOp.call 0 (.enterP 0 none)) trivial henter
  have h₂ := h₁.step (o := LogOp.call 0 .setReady) trivial (step_own rfl)
  have h₃ := h₂.step (o := LogOp.call 0 (.update 5)) trivial (step_own (GameNode.call_update pb hfirst))
  have h₄ := h₃.step (o := LogOp.call 0 (.update (ms + 5))) trivial (step_own (GameNode.call_update pb hnext))
  refine ⟨_, h₄, ?_, htick₅.trans htick, hpm₅, ?_, rfl⟩
  · show (g₅.room 0).frameId = _
    rw [hid₅, hsum, hid, htick, zero_add]
  · show (g₅.room 0).ridPMap = _
    rw [hrids₅, hroom₄, hroom₃]

theorem exists_tick (pb : Pb) {g : GameNode} (hown : g.rm.Owned) : ∃ w : LogWorld,
    Reach (step pb 0) (fun _ o => Plays 0 o) (start g 0 1) w ∧ (w.node.room 0).frameId = 1 ∧ w.accepted.length = 1 := by
  obtain ⟨w, hw, hid, -, -, -, hacc⟩ := exists_ticks pb hown 95 (by decide)
  exact ⟨w, hw, hid, congrArg List.length hacc⟩

theorem frameLog_tick : ∃ w : LogWorld, (w.node.room 0).frameId = 1 ∧ w.accepted.length = 1 ∧ FrameLog 0 w := by
  obtain ⟨w, hw, hid, hlen⟩ := exists_tick ⟨fun _ => .clear, fun _ => [], fun _ => 0, fun _ => 0⟩ owned_new
  exact ⟨w, hid, hlen, frameLog .refl hw⟩

end LogWorld

end KcpServer
