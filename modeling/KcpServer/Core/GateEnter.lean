import KcpServer.Core.FrameLog
import KcpServer.Core.Register

/-!
# Gate's `EnterP`

The handler reads a rid of 64 bits and passes it to `GetP`, whose parameter is a pid: it is cut down to an `int` and
looked up among the pids. `enterP_byRid_iff` : what `EnterP` enters is the player that is registered under the rid, into
the room with the id, and nothing where either is missing, exactly if there is no such room or both lookups give the
same.
-/

namespace KcpServer
open Lib

namespace GameNode

/-! ## The calls that a body makes -/

/-- A body `rid,pid,roomid,camp` whose three ids are not 0. -/
structure EnterBody (body : Bytes) (rid : Nat) (roomid : Int) : Prop where
  tokens : ∃ a b c d, strtok 44 body = [a, b, c, d] ∧ atoull a = rid ∧ atoi b ≠ 0 ∧ atoi c = roomid
  rid_ne : rid ≠ 0
  roomid_ne : roomid ≠ 0

/-- `EnterP`, and the calls of `roomObj::EnterP` that it makes, as rooms and players. -/
def enterPCalls (g : GameNode) (body : Bytes) : Except Fault (GameNode × List (Nat × Nat)) := do
  let ptks := strtok 44 body
  let rid := (ptks[0]?.map atoull).getD 0
  let pid := (ptks[1]?.map atoi).getD 0
  let roomid := (ptks[2]?.map atoi).getD 0
  assert (rid ≠ 0)
  assert (pid ≠ 0)
  assert (roomid ≠ 0)
  match g.rm.getRoom roomid with
  | none => return (g, [])
  | some r =>
    match g.pm.getP (int32 rid) with
    | none => return (g, [])
    | some p => return ({ g with rm := g.rm.enterP g.pm.players r p none }, [(r, p)])

/-- The calls that are to be made: the registered player, if there is one, enters the room, if there is one. -/
def byRid (g : GameNode) (rid : Nat) (roomid : Int) : List (Nat × Nat) :=
  match g.rm.getRoom roomid, g.pm.getPByRid rid with
  | some r, some p => [(r, p)]
  | _, _ => []

/-- What a call of `roomObj::EnterP` does: the player's rid is in the room's map and one enter command is appended; the
other rooms, in the states that a node can reach their pending commands as well, are left alone. -/
structure EnteredBy (g g' : GameNode) (r p : Nat) : Prop where
  kcp : g'.kcp = g.kcp
  pm : g'.pm = g.pm
  idMap : g'.rm.idMap = g.rm.idMap
  ridPMap : (g'.room r).ridPMap = (g.room r).ridPMap.insert (g.pm.players p).rid p
  others : ∀ q ≠ r, g'.room q = g.room q
  pending : g.rm.Owned → g'.rm.pending r =
    g.rm.pending r ++ [((g.room r).enter g.pm.players p none).svrCmd g.pm.players p 1]
  apart : g.rm.Owned → ∀ q ≠ r, LogWorld.Apart q g.rm g'.rm

/-- What a list of calls does. -/
inductive Performs : GameNode → List (Nat × Nat) → GameNode → Prop
  | nil (g : GameNode) : Performs g [] g
  | cons {g g₁ g' : GameNode} {r p : Nat} {cs : List (Nat × Nat)} :
      EnteredBy g g₁ r p → Performs g₁ cs g' → Performs g ((r, p) :: cs) g'

section Calls
variable {g : GameNode} {body : Bytes} {rid r p : Nat} {roomid : Int}

theorem enterPCalls_fst (g : GameNode) (body : Bytes) : Prod.fst <$> g.enterPCalls body = g.enterP body := by
  unfold enterPCalls enterP
  simp only [map_bind]
  congr 1
  funext _
  congr 1
  funext _
  congr 1
  funext _
  cases g.rm.getRoom (((strtok 44 body)[2]?.map atoi).getD 0) with
  | none => rfl
  | some r => cases g.pm.getP (int32 (((strtok 44 body)[0]?.map atoull).getD 0)) <;> rfl

theorem enteredBy_enterP (g : GameNode) (r p : Nat) :
    EnteredBy g { g with rm := g.rm.enterP g.pm.players r p none } r p := by
  have hentered := g.rm.entered_enterP g.pm.players r p none
  refine ⟨rfl, rfl, hentered.idMap, (g.rm.same_enterP g.pm.players r p none).ridPMap, hentered.others, ?_, ?_⟩
  · intro hown
    have hmod : (g.rm.modify r (·.enter g.pm.players p none)).Owned := hown.modify rfl
    have hpend : (g.rm.modify r (·.enter g.pm.players p none)).pending r = g.rm.pending r := by
      unfold RoomMgr.pending
      rw [RoomMgr.modify_self]
      rfl
    obtain ⟨-, -, -, -, hpush⟩ := hmod.pushCmd (r := r)
      (((g.room r).enter g.pm.players p none).svrCmd g.pm.players p 1)
    rw [hpend] at hpush
    show ((g.rm.modify r _).pushCmd r (((g.rm.modify r _).rooms r).svrCmd g.pm.players p 1)).pending r = _
    rw [RoomMgr.modify_self]
    exact hpush
  · intro hown q hq
    have hmod : (g.rm.modify r (·.enter g.pm.players p none)).Owned := hown.modify rfl
    exact (LogWorld.apart_modify hq hmod).trans (LogWorld.apart_pushCmd hq hmod _)

theorem enterPCalls_of_body (h : EnterBody body rid roomid) : ∃ g' calls, g.enterPCalls body = .ok (g', calls) ∧
    Performs g calls g' ∧
      calls = match g.rm.getRoom roomid, g.pm.getP (int32 rid) with
        | some r, some p => [(r, p)]
        | _, _ => [] := by
  obtain ⟨⟨a, b, c, d, htokens, rfl, hpid, rfl⟩, hrid, hroomid⟩ := h
  unfold enterPCalls
  rw [htokens]
  dsimp only [List.getElem?_cons_zero, List.getElem?_cons_succ, Option.map_some, Option.getD_some]
  rw [decide_eq_true hrid, decide_eq_true hpid, decide_eq_true hroomid, assert_true, ok_bind, ok_bind, ok_bind]
  cases g.rm.getRoom (atoi c) with
  | none => exact ⟨g, [], rfl, .nil g, rfl⟩
  | some r =>
    cases g.pm.getP (int32 (atoull a)) with
    | none => exact ⟨g, [], rfl, .nil g, rfl⟩
    | some p => exact ⟨_, [(r, p)], rfl, .cons (enteredBy_enterP g r p) (.nil _), rfl⟩

end Calls

/-- **`EnterP` enters the player that is registered under the rid** exactly if there is no room to enter, or the pids and
the rids lead to the same player. -/
theorem enterP_byRid_iff (g : GameNode) {body : Bytes} {rid : Nat} {roomid : Int} (h : EnterBody body rid roomid) :
    ∃ g' calls, g.enterP body = .ok g' ∧ g.enterPCalls body = .ok (g', calls) ∧ Performs g calls g' ∧
      (calls = g.byRid rid roomid ↔
        g.rm.getRoom roomid = none ∨ g.pm.getP (int32 rid) = g.pm.getPByRid rid) := by
  obtain ⟨g', calls, heq, hperforms, hcalls⟩ := enterPCalls_of_body (g := g) h
  have hfst := g.enterPCalls_fst body
  rw [heq] at hfst
  refine ⟨g', calls, hfst.symm, heq, hperforms, ?_⟩
  rw [hcalls, byRid]
  cases g.rm.getRoom roomid with
  | none => simp
  | some r =>
    cases g.pm.getP (int32 rid) with
    | none =>
      cases g.pm.getPByRid rid <;> simp
    | some p =>
      cases g.pm.getPByRid rid <;> simp

/-- A player with pid 9 and rid 9 in room 5: `9,9,5,1` enters it. -/
theorem enterP_byRid_same : ∃ g g' calls, Reach (step ridParser) Env .new g ∧
    g.enterPCalls [57, 44, 57, 44, 53, 44, 49] = .ok (g', calls) ∧ calls = g.byRid 9 5 ∧ calls ≠ [] := by
  obtain ⟨g, hg, hroom, hplayer, hsame⟩ := exists_run (P := Env) [.newRoom 5 [57, 124, 57, 124, 49, 124, 49]]
    (fun g => (g.rm.getRoom 5).isSome ∧ (g.pm.getPByRid 9).isSome ∧ g.pm.getP 9 = g.pm.getPByRid 9) (by decide +kernel)
  have hbody : EnterBody [57, 44, 57, 44, 53, 44, 49] 9 5 :=
    ⟨⟨[57], [57], [53], [49], rfl, rfl, by decide, rfl⟩, by decide, by decide⟩
  obtain ⟨g', calls, -, hcalls, -, hiff⟩ := enterP_byRid_iff g hbody
  have hright : calls = g.byRid 9 5 := hiff.mpr (.inr hsame)
  refine ⟨g, g', calls, hg, hcalls, hright, ?_⟩
  obtain ⟨r, hr⟩ := Option.isSome_iff_exists.mp hroom
  obtain ⟨p, hp⟩ := Option.isSome_iff_exists.mp hplayer
  rw [hright, byRid, hr, hp]
  exact List.cons_ne_nil _ _

/-- Players with pids 9 and 1 and rids 1 and 9 in room 5: `9,1,5,1` enters the player whose rid is 1. -/
theorem not_enterP_byRid : ∃ g g' r p, Reach (step ridParser) Env .new g ∧
    EnterBody [57, 44, 49, 44, 53, 44, 49] 9 5 ∧ g.enterPCalls [57, 44, 49, 44, 53, 44, 49] = .ok (g', [(r, p)]) ∧
      (g.pm.players p).rid = 1 ∧ [(r, p)] ≠ g.byRid 9 5 := by
  obtain ⟨g, hg, hroom, hplayer, hdiff⟩ := exists_run (P := Env)
    [.newRoom 5 [57, 44, 49, 124, 49, 44, 57, 124, 49, 124, 49, 44, 49]]
    (fun g => (g.rm.getRoom 5).isSome ∧ (g.pm.getP 9).map (fun p => (g.pm.players p).rid) = some 1 ∧
      g.pm.getP 9 ≠ g.pm.getPByRid 9) (by decide +kernel)
  have hbody : EnterBody [57, 44, 49, 44, 53, 44, 49] 9 5 :=
    ⟨⟨[57], [49], [53], [49], rfl, rfl, by decide, rfl⟩, by decide, by decide⟩
  obtain ⟨g', calls, hcalls, -, heq⟩ := enterPCalls_of_body (g := g) hbody
  obtain ⟨r, hr⟩ := Option.isSome_iff_exists.mp hroom
  obtain ⟨p, hp, hrid⟩ := Option.map_eq_some_iff.mp hplayer
  have hp' : g.pm.getP (int32 (9 : Nat)) = some p := hp
  rw [hr, hp'] at heq
  subst heq
  refine ⟨g, g', r, p, hg, hbody, hcalls, hrid, fun h => hdiff ?_⟩
  rw [hp]
  rw [byRid, hr] at h
  cases hq : g.pm.getPByRid 9 with
  | none =>
    rw [hq] at h
    cases h
  | some q =>
    rw [hq] at h
    cases h
    rfl

end GameNode

end KcpServer
