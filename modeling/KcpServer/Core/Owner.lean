import KcpServer.Core.Register

/-!
# Who owns a player object

Rooms point to player objects, and the objects go back to a pool when a room is finished. `Owning` says that no object is
in use twice. `RawOver` looks its players up by their rids in `playerMgr`, where a later `NewRoom` may have put another
object, and the `EnterP` of gate looks a player up by its rid among the pids; `Keeps` is the condition under which neither
hits a player of another room, and `owning` says that then, in every run, also within a pass of `Update`, every object has
one owner.
-/

namespace KcpServer
open Lib

def Room.refs (R : Room) : List Nat := R.ridPMap.values ++ R.pidPMap.values

def GameNode.live (g : GameNode) : List Nat := g.rm.idMap.values

namespace Room
variable {R R' : Room} {p q : Nat}

theorem mem_refs : p ∈ R.refs ↔ (∃ rid : Nat, R.ridPMap[rid]? = some p) ∨ ∃ pid : Int, R.pidPMap[pid]? = some p := by
  rw [refs, List.mem_append, mem_values, mem_values]

theorem Same.refs_eq (h : Same R R') : R'.refs = R.refs := by rw [refs, refs, h.ridPMap, h.pidPMap]

theorem mem_refs_enter {players : Heap Player} {pconn : Option Nat} (h : q ∈ (R.enter players p pconn).refs) :
    q = p ∨ q ∈ R.refs := by
  rw [mem_refs] at h ⊢
  rcases h with ⟨rid, h⟩ | ⟨pid, h⟩
  · rcases insert_eq_some.mp h with ⟨-, rfl⟩ | ⟨-, h⟩
    · exact Or.inl rfl
    · exact Or.inr (Or.inl ⟨rid, h⟩)
  · rcases insert_eq_some.mp h with ⟨-, rfl⟩ | ⟨-, h⟩
    · exact Or.inl rfl
    · exact Or.inr (Or.inr ⟨pid, h⟩)

theorem refs_init (roomid : Int) : (new.init roomid).refs = [] := by
  rw [List.eq_nil_iff_forall_not_mem]
  intro p hp
  rcases mem_refs.mp hp with ⟨rid, h⟩ | ⟨pid, h⟩
  · exact nomatch Std.TreeMap.getElem?_emptyc.symm.trans h
  · exact nomatch Std.TreeMap.getElem?_emptyc.symm.trans h

end Room

/-! ## The invariant -/

/-- The players of the rooms in `live` are not in the pool, and no two of these rooms share one. -/
structure Owners (m : PlayerMgr) (rooms : Nat → Room) (live : Nat → Prop) : Prop where
  indexed : m.Indexed
  used : ∀ r, live r → ∀ p ∈ (rooms r).refs, p ∉ m.pool ∧ p < m.players.next
  unshared : ∀ r q, live r → live q → ∀ p ∈ (rooms r).refs, p ∈ (rooms q).refs → r = q

namespace Owners
variable {m : PlayerMgr} {rooms rooms' : Nat → Room} {live live' : Nat → Prop} {r p : Nat}

theorem mono (h : Owners m rooms live) (hlive : ∀ r, live' r → live r ∧ (rooms' r).refs = (rooms r).refs ∨
    (rooms' r).refs = []) : Owners m rooms' live' := by
  have hold : ∀ r, live' r → ∀ p ∈ (rooms' r).refs, live r ∧ p ∈ (rooms r).refs := by
    intro r hr p hp
    rcases hlive r hr with ⟨hr, heq⟩ | hnil
    · exact ⟨hr, heq ▸ hp⟩
    · rw [hnil] at hp
      cases hp
  refine ⟨h.indexed, fun r hr p hp => ?_, fun r q hr hq p hp hpq => ?_⟩
  · obtain ⟨hr, hp⟩ := hold r hr p hp
    exact h.used r hr p hp
  · obtain ⟨hr, hp⟩ := hold r hr p hp
    obtain ⟨hq, hpq⟩ := hold q hq p hpq
    exact h.unshared r q hr hq p hp hpq

theorem of_players {m' : PlayerMgr} (h : Owners m rooms live) (hi : m'.Indexed) (hpool : m'.pool = m.pool)
    (hnext : m'.players.next = m.players.next) : Owners m' rooms live := by
  refine ⟨hi, fun r hr p hp => ?_, h.unshared⟩
  rw [hpool, hnext]
  exact h.used r hr p hp

theorem enterP {rm : RoomMgr} {players : Heap Player} {pconn : Option Nat} (h : Owners m rm.rooms live)
    (hp : p ∉ m.pool) (hlt : p < m.players.next) (hother : ∀ q, live q → p ∈ (rm.rooms q).refs → q = r) :
    Owners m (rm.enterP players r p pconn).rooms live := by
  have hold : ∀ q, live q → ∀ p' ∈ ((rm.enterP players r p pconn).rooms q).refs,
      p' ∈ (rm.rooms q).refs ∨ q = r ∧ p' = p := by
    intro q hq p' hp'
    by_cases hqr : q = r
    · subst hqr
      rw [(rm.same_enterP players q p pconn).refs_eq] at hp'
      exact (Room.mem_refs_enter hp').symm.imp_right fun h => ⟨rfl, h⟩
    · exact Or.inl ((RoomMgr.entered_enterP rm players r p pconn).others q hqr ▸ hp')
  refine ⟨h.indexed, fun q hq p' hp' => ?_, fun q q' hq hq' p' hp' hp'' => ?_⟩
  · rcases hold q hq p' hp' with hp' | ⟨-, rfl⟩
    · exact h.used q hq p' hp'
    · exact ⟨hp, hlt⟩
  · rcases hold q hq p' hp' with h₁ | ⟨rfl, rfl⟩
    · rcases hold q' hq' p' hp'' with h₂ | ⟨rfl, rfl⟩
      · exact h.unshared q q' hq hq' p' h₁ h₂
      · exact hother q hq h₁
    · rcases hold q' hq' p' hp'' with h₂ | ⟨rfl, -⟩
      · exact (hother q' hq' h₂).symm
      · rfl

theorem pop (h : Owners m rooms live) {players : Heap Player} {pool : List Nat}
    (hpop : Lib.pop m.players m.pool .new = (p, players, pool)) (P : Player) :
    Owners ⟨players.set p P, m.ridPMap.insert P.rid p, m.pidPMap.insert P.pid p, pool⟩ rooms live ∧ p ∉ pool ∧
      p < players.next ∧ ∀ q, live q → p ∉ (rooms q).refs := by
  obtain ⟨-, hlt, hnot, horigin, hle, hsub, -, -⟩ := h.indexed.free.pop _ hpop
  refine ⟨⟨h.indexed.pop hpop P, fun r hr q hq => ?_, h.unshared⟩, hnot, hlt, fun q hq hp => ?_⟩
  · obtain ⟨hpool, hqlt⟩ := h.used r hr q hq
    exact ⟨fun hin => hpool (hsub q hin), lt_of_lt_of_le hqlt hle⟩
  · obtain ⟨hpool, hqlt⟩ := h.used q hq p hp
    rcases horigin with hin | hnew
    · exact hpool hin
    · omega

theorem removeP (h : Owners m rooms live) (kcp : KCPServer) {rid : Nat} (hp : m.ridPMap[rid]? = some p)
    (hnot : ∀ q, live q → p ∉ (rooms q).refs) : Owners (m.removeP kcp rid).1 rooms live := by
  refine ⟨h.indexed.removeP kcp rid, fun r hr q hq => ?_, h.unshared⟩
  obtain ⟨hpool, hlt⟩ := h.used r hr q hq
  rw [PlayerMgr.removeP_of_some hp]
  refine ⟨fun hin => ?_, hlt⟩
  rcases List.mem_append.mp hin with hin | hin
  · exact hpool hin
  · exact hnot r hr (List.mem_singleton.mp hin ▸ hq)

end Owners

namespace GameNode
variable {pb : Pb} {g g' : GameNode} {o : GameOp}

abbrev Owned (g : GameNode) : Prop := Owners g.pm g.rm.rooms (· ∈ g.live)

theorem mem_live {r : Nat} : r ∈ g.live ↔ ∃ k : Int, g.rm.idMap[k]? = some r := mem_values

theorem owned_removes {rids : List Nat} (h : g.Owned) (hrooms : SameRooms g.rm.rooms g'.rm.rooms)
    (hlive : ∀ q ∈ g'.live, q ∈ g.live) (hrem : Removes g rids g')
    (hnot : ∀ rid ∈ rids, ∀ p, g.pm.ridPMap[rid]? = some p → ∀ q ∈ g'.live, p ∉ (g.room q).refs) : g'.Owned := by
  have hold : Owners g.pm g.rm.rooms (· ∈ g'.live) := h.mono fun q hq => Or.inl ⟨hlive q hq, rfl⟩
  have hpm := removePs_invariant (g := g) rids
    (I := fun pm _ => Owners pm g.rm.rooms (· ∈ g'.live) ∧
      ∀ (rid p : Nat), pm.ridPMap[rid]? = some p → g.pm.ridPMap[rid]? = some p) ⟨hold, fun _ _ hp => hp⟩ ?_
  · have howners : Owners g'.pm g.rm.rooms (· ∈ g'.live) := by
      rw [hrem.pm]
      exact hpm.1
    exact howners.mono fun q hq => Or.inl ⟨hq, (hrooms q).1.refs_eq⟩
  · rintro pm kcp ⟨hI, hsub⟩ rid hrid p hp
    refine ⟨hI.removeP kcp hp (hnot rid hrid p (hsub rid p hp)), fun rid' p' hp' => ?_⟩
    rw [PlayerMgr.removeP_of_some hp] at hp'
    exact hsub rid' p' (erase_eq_some.mp hp').2

/-- The enter loop of `NewRoom` takes every player out of the pool. -/
theorem owners_enterNews {live : Nat → Prop} {r : Nat} (h : Owners g.pm g.rm.rooms live) (es : List (Int × Nat × Int)) :
    Owners (g.enterNews r es).pm (g.enterNews r es).rm.rooms live := by
  induction es generalizing g with
  | nil => exact h
  | cons e es ih =>
    refine ih (g := g.enterNew r e.1 e.2.1 e.2.2) ?_
    obtain ⟨p, players, pool, hpop, heq⟩ := g.enterNew_eq r e.1 e.2.1 e.2.2
    rw [heq]
    obtain ⟨hpopped, hnot, hlt, hother⟩ := h.pop hpop ⟨e.1, 0, e.2.1, (g.room r).roomid, false, e.2.2⟩
    refine hpopped.enterP hnot hlt fun q hq hp => absurd hp (hother q hq)

/-! ## The condition -/

/-- The steps that keep the owners of the players apart: the player that gate's `EnterP` finds is in no other registered
room, and no room that a pass finishes has a rid whose player belongs to a registered room that is not finished before
it. -/
def Keeps (g : GameNode) : GameOp → Prop
  | .enterP body =>
    ∀ r ∈ g.rm.idMap[((strtok 44 body)[2]?.map atoi).getD 0]?,
      ∀ p ∈ g.pm.pidPMap[int32 (((strtok 44 body)[0]?.map atoull).getD 0 : Nat)]?,
        ∀ q ∈ g.live, p ∈ (g.room q).refs → q = r
  | .update _ =>
    ∀ e ∈ g.rm.idMap.toList, (g.room e.2).finishing = true →
      ∀ rid ∈ (g.room e.2).ridPMap.keys, ∀ p ∈ g.pm.ridPMap[rid]?,
        ∀ e' ∈ g.rm.idMap.toList, ((g.room e'.2).finishing = true → e.1 < e'.1) → p ∉ (g.room e'.2).refs
  | _ => True

instance (g : GameNode) (o : GameOp) : Decidable (g.Keeps o) :=
  match o with
  | .enterP _ => inferInstanceAs (Decidable (∀ r ∈ _, ∀ p ∈ _, ∀ q ∈ _, p ∈ _ → q = r))
  | .update _ => inferInstanceAs (Decidable (∀ e ∈ _, _ → ∀ rid ∈ _, ∀ p ∈ _, ∀ e' ∈ _, _ → p ∉ _))
  | .createConn _ _ _ _ | .scanTimeout _ | .delTimeout | .kcp _ | .newRoom _ _ | .overRoom _ _ | .offlineP _ | .leaveP _
  | .allPReady _ | .api2003 _ _ => isTrue trivial

/-! ## A pass and part of a pass -/

/-- A part of the loop does what the loop does. -/
theorem updateRooms_prefix {ms : Nat} {es es' : List (Int × Nat)} {outs : List Out} (hhost : g.rm.Hosting)
    (hes : g.rm.idMap.toList = es ++ es') (heq : g.updateRooms ms es = .ok (g', outs)) : UpdatedRooms g es g' outs := by
  have hnodup := hhost.nodup_rooms
  rw [hes, List.map_append] at hnodup
  exact updateRooms_spec hhost.clock (List.nodup_append.mp hnodup).1 heq

theorem UpdatedRooms.live {es : List (Int × Nat)} {outs : List Out} (h : UpdatedRooms g es g' outs) :
    ∀ q ∈ g'.live, q ∈ g.live := by
  intro q hq
  obtain ⟨k, hk⟩ := mem_live.mp hq
  exact mem_live.mpr ⟨k, (h.idMap.mp hk).1⟩

theorem Passed.live {outs : List Out} (h : Passed g g' outs) : ∀ q ∈ g'.live, q ∈ g.live := by
  intro q hq
  obtain ⟨k, hk⟩ := mem_live.mp hq
  exact mem_live.mpr ⟨k, (h.idMap.mp hk).1⟩

variable {Q : Nat → Nat → Prop}

/-- What holds between the players that finishing rooms remove and the rooms that are not finished before them, holds
between the players that a part of the loop removes and the rooms that it leaves. -/
theorem removed_updateRooms {es es' : List (Int × Nat)} {outs : List Out}
    (hcond : ∀ e ∈ g.rm.idMap.toList, (g.room e.2).finishing = true → ∀ rid ∈ (g.room e.2).ridPMap.keys,
      ∀ p ∈ g.pm.ridPMap[rid]?, ∀ e' ∈ g.rm.idMap.toList, ((g.room e'.2).finishing = true → e.1 < e'.1) → Q p e'.2)
    (hes : g.rm.idMap.toList = es ++ es') (hup : UpdatedRooms g es g' outs) :
    ∀ rid ∈ es.flatMap fun e => (g.room e.2).finishedRids, ∀ p, g.pm.ridPMap[rid]? = some p → ∀ q ∈ g'.live, Q p q := by
  have hsorted := Std.TreeMap.ordered_keys_toList (t := g.rm.idMap)
  rw [hes] at hsorted
  intro rid hrid p hp q hq
  obtain ⟨e, he, hrid⟩ := List.mem_flatMap.mp hrid
  obtain ⟨hfin, hrid⟩ := Room.mem_finishedRids.mp hrid
  obtain ⟨k, hk⟩ := mem_live.mp hq
  obtain ⟨hk, hnot⟩ := hup.idMap.mp hk
  have hmem : (k, q) ∈ g.rm.idMap.toList := Std.TreeMap.mem_toList_iff_getElem?_eq_some.mpr hk
  refine hcond e (hes ▸ List.mem_append_left _ he) hfin rid hrid p hp (k, q) hmem fun hqfin => ?_
  -- a finishing room that is left is one that the loop has still to do
  have hlater : (k, q) ∈ es' := by
    refine (List.mem_append.mp (hes ▸ hmem)).resolve_left fun hin => hnot ?_
    exact List.mem_map.mpr ⟨(k, q), List.mem_filter.mpr ⟨hin, hqfin⟩, rfl⟩
  exact compare_lt_iff_lt.mp ((List.pairwise_append.mp hsorted).2.2 e he (k, q) hlater)

theorem removed_passed {outs : List Out}
    (hcond : ∀ e ∈ g.rm.idMap.toList, (g.room e.2).finishing = true → ∀ rid ∈ (g.room e.2).ridPMap.keys,
      ∀ p ∈ g.pm.ridPMap[rid]?, ∀ e' ∈ g.rm.idMap.toList, ((g.room e'.2).finishing = true → e.1 < e'.1) → Q p e'.2)
    (hpass : Passed g g' outs) : ∀ rid ∈ g.rm.idMap.toList.flatMap fun e => (g.room e.2).finishedRids,
      ∀ p, g.pm.ridPMap[rid]? = some p → ∀ q ∈ g'.live, Q p q := by
  intro rid hrid p hp q hq
  obtain ⟨e, he, hrid⟩ := List.mem_flatMap.mp hrid
  obtain ⟨hfin, hrid⟩ := Room.mem_finishedRids.mp hrid
  obtain ⟨k, hk⟩ := mem_live.mp hq
  obtain ⟨hk, hstay⟩ := hpass.idMap.mp hk
  refine hcond e he hfin rid hrid p hp (k, q) (Std.TreeMap.mem_toList_iff_getElem?_eq_some.mpr hk) fun hqfin => ?_
  rw [hstay] at hqfin
  cases hqfin

theorem owned_passed {ms : Nat} {outs : List Out} (h : g.Owned) (hkeep : g.Keeps (.update ms))
    (hpass : Passed g g' outs) : g'.Owned :=
  owned_removes h hpass.rooms hpass.live hpass.removes (removed_passed hkeep hpass)

/-! ## Every run -/

theorem owned_new : GameNode.new.Owned := by
  refine ⟨PlayerMgr.indexed_new, fun r hr => ?_, fun r q hr => ?_⟩
  · obtain ⟨k, hk⟩ := mem_live.mp hr
    exact nomatch Std.TreeMap.getElem?_emptyc.symm.trans hk
  · obtain ⟨k, hk⟩ := mem_live.mp hr
    exact nomatch Std.TreeMap.getElem?_emptyc.symm.trans hk

theorem owned_quiet (h : g.Owned) (hq : Quiet g g') : g'.Owned := by
  unfold Owned live
  rw [hq.pm, hq.rm.idMap]
  exact h.mono fun r hr => Or.inl ⟨hr, (hq.rm.rooms r).1.refs_eq⟩

theorem owned_enterP {r p : Nat} (h : g.Owned) (hp : p ∉ g.pm.pool) (hlt : p < g.pm.players.next)
    (hother : ∀ q ∈ g.live, p ∈ (g.room q).refs → q = r) (players : Heap Player) (pconn : Option Nat) :
    ({ g with rm := g.rm.enterP players r p pconn } : GameNode).Owned := by
  unfold Owned live
  dsimp only
  rw [(RoomMgr.entered_enterP g.rm players r p pconn).idMap]
  exact h.enterP hp hlt hother

theorem owned_register {obj : KcpCall} {r p pconn : Nat} {pm : PlayerMgr} {kcp : KCPServer} (h : g.Owned)
    (hroom : g.rm.idMap[obj.roomid]? = some r) (hrid : (g.room r).ridPMap[pb.rid2004 obj.body]? = some p)
    (hset : (g.pm.updatePlayer p obj.pid).setSessid g.kcp p obj.sessid obj.pid = .ok (pm, kcp, pconn)) :
    ({ kcp, pm, rm := g.rm.enterP pm.players r p (some pconn) } : GameNode).Owned := by
  have hr : r ∈ g.live := mem_live.mpr ⟨_, hroom⟩
  have hp : p ∈ (g.room r).refs := Room.mem_refs.mpr (Or.inl ⟨_, hrid⟩)
  obtain ⟨hpool, hlt⟩ := h.used r hr p hp
  obtain ⟨-, rfl, -⟩ := PlayerMgr.setSessid_eq_ok.mp hset
  have hpid : ((g.pm.updatePlayer p obj.pid).players p).pid = obj.pid := by
    simp [PlayerMgr.updatePlayer, PlayerMgr.modify, PlayerMgr.appendP]
  have hindexed := (h.indexed.updatePlayer hpool hlt obj.pid).modify (p := p)
    (f := ({ · with sessid := obj.sessid, pid := obj.pid, off := false })) rfl hpid.symm
  exact owned_enterP (g := { g with kcp, pm := _ }) (h.of_players hindexed rfl rfl) hpool hlt
    (fun q hq hpq => h.unshared q r hq hr p hpq hp) _ _

/-- `NewRoom` brings no other room into play. -/
theorem live_newRoom {pid : Nat} {g₁ g₂ : GameNode} (hopen : Quiet (g.openRoom pid) g₁)
    (henter : g₁.rm.Entered g.rm.popRoom.1 g₂.rm) {q : Nat}
    (hq : q ∈ ({ g₂ with rm := g₂.rm.appendR g.rm.popRoom.1 } : GameNode).live) :
    q = g.rm.popRoom.1 ∨ q ∈ g.live := by
  obtain ⟨k, hk⟩ := mem_live.mp hq
  dsimp only at hk
  rw [idMap_newRoom hopen henter] at hk
  rcases insert_eq_some.mp hk with ⟨-, rfl⟩ | ⟨-, hk⟩
  · exact Or.inl rfl
  · exact Or.inr (mem_live.mpr ⟨k, hk⟩)

theorem owned_newRoom {pid : Nat} {g₁ : GameNode} (hhost : g.rm.Hosting) (h : g.Owned)
    (hopen : Quiet (g.openRoom pid) g₁) (es : List (Int × Nat × Int)) :
    let g₂ := g₁.enterNews g.rm.popRoom.1 es
    ({ g₂ with rm := g₂.rm.appendR g.rm.popRoom.1 } : GameNode).Owned := by
  have ho := opened hhost hopen
  have hfilled : Owners g₁.pm g₁.rm.rooms fun q => q = g.rm.popRoom.1 ∨ q ∈ g.live := by
    rw [ho.pm]
    refine h.mono fun q hq => ?_
    by_cases hqr : q = g.rm.popRoom.1
    · rw [hqr]
      exact Or.inr (ho.init.refs_eq.trans (Room.refs_init _))
    · exact Or.inl ⟨hq.resolve_left hqr, (ho.same q hqr).refs_eq⟩
  refine (owners_enterNews hfilled es).mono fun q hq => Or.inl ⟨?_, rfl⟩
  exact live_newRoom hopen (entered_enterNews g₁ g.rm.popRoom.1 es) hq

/-- A step that meets the condition keeps the players' owners apart. -/
theorem owned_stepped (hhost : g.rm.Hosting) (h : g.Owned) (hkeep : g.Keeps o) (hs : Stepped pb g o g') :
    g'.Owned := by
  cases hs with
  | createConn clifd buf msgs ms => exact h
  | scanTimeout ms => exact h
  | delTimeout => exact h
  | quiet hq => exact owned_quiet h hq
  | register hmsg hroom hrid hset => exact owned_register h hroom hrid hset
  | newRoom hbody hlen hopen henter =>
    subst henter
    exact owned_newRoom hhost h hopen _
  | badRoom hopen =>
    have ho := opened hhost hopen
    unfold Owned live
    dsimp only [RoomMgr.pushRoom]
    rw [ho.pm, ho.idMap]
    refine h.mono fun q hq => Or.inl ⟨hq, (ho.same q ?_).refs_eq⟩
    obtain ⟨k, hk⟩ := mem_live.mp hq
    rintro rfl
    exact ho.fresh k hk
  | @offline pid p g' hp hq =>
    have hoff : (g.pm.offline g.kcp p).1.Indexed := h.indexed.modify (f := ({ · with off := true })) rfl rfl
    have howned : Owners (g.pm.offline g.kcp p).1 g.rm.rooms (· ∈ g.live) := h.of_players hoff rfl rfl
    exact owned_quiet howned hq
  | enter hroom hp =>
    obtain ⟨-, hpool, hlt⟩ := h.indexed.pid hp
    exact owned_enterP h hpool hlt (fun q hq hpq => hkeep _ hroom _ hp q hq hpq) _ _
  | update hpass => exact owned_passed h hkeep hpass

/-- No player object is in use twice: none that a registered room points to is in the pool, none is in the pool twice,
and no two registered rooms point to one. -/
structure Owning (g : GameNode) : Prop where
  used : ∀ r ∈ g.live, ∀ p ∈ (g.room r).refs, p ∉ g.pm.pool
  nodup : g.pm.pool.Nodup
  unshared : ∀ r ∈ g.live, ∀ q ∈ g.live, ∀ p ∈ (g.room r).refs, p ∈ (g.room q).refs → r = q

theorem Owners.toOwning (h : g.Owned) : g.Owning :=
  ⟨fun r hr p hp => (h.used r hr p hp).1, h.indexed.free.nodup, fun r hr q hq p hp hpq => h.unshared r q hr hq p hp hpq⟩

/-- A state within a pass of `Update`: some of the rooms have had their turn. -/
def WithinPass (g : GameNode) (ms : Nat) (g' : GameNode) : Prop :=
  ∃ es es' outs, g.rm.idMap.toList = es ++ es' ∧
    ({ g with rm := { g.rm with lastMs := ms } } : GameNode).updateRooms ms es = .ok (g', outs)

theorem WithinPass.updatedRooms {ms : Nat} (hhost : g.rm.Hosting) (h : g.WithinPass ms g') :
    ∃ es es' outs, g.rm.idMap.toList = es ++ es' ∧
      UpdatedRooms { g with rm := { g.rm with lastMs := ms } } es g' outs := by
  obtain ⟨es, es', outs, hes, heq⟩ := h
  exact ⟨es, es', outs, hes, updateRooms_prefix (g := { g with rm := { g.rm with lastMs := ms } })
    ⟨hhost.free, hhost.idMap, hhost.que, hhost.clock⟩ hes heq⟩

/-- **One owner for every player.** In every run whose steps keep the players of different rooms apart no player object is
in use twice, in no state that is reached and in no state within a pass of `Update`. -/
theorem owning (pb : Pb) (g : GameNode) (h : Reach (step pb) Keeps .new g) :
    g.Owning ∧ ∀ ms g', g.Keeps (.update ms) → g.WithinPass ms g' → g'.Owning := by
  have hhost := hosting_of_reach h
  have howned : g.Owned := h.invariant_of (J := Owned) (fun _ ht => hosting_of_reach ht) owned_new
    fun _ _ _ hh hs hk heq => owned_stepped hh hs hk (stepped hh heq)
  refine ⟨Owners.toOwning howned, fun ms g' hkeep hpass => ?_⟩
  obtain ⟨es, es', outs, hes, hup⟩ := hpass.updatedRooms hhost
  exact Owners.toOwning (owned_removes (g := { g with rm := { g.rm with lastMs := ms } }) howned hup.rooms hup.live hup.removes
    (removed_updateRooms hkeep hes hup))

/-! ## Two rooms, one rid -/

/-- A `NewRoom` for room `k` with one player, of pid `k`; `k` and `rid` are digits. -/
def digitRoom (k rid : UInt8) : GameOp := .newRoom k.toNat [48 + k, 124, 48 + rid, 124, 49, 124, 49]

/-- Rooms 1 and 2 with players of rids `rid` and `rid'`; gate ends room 1, and the next pass finishes it. -/
def finishFirst (rid rid' : UInt8) : List GameOp := [digitRoom 1 rid, digitRoom 2 rid', .overRoom 1 1, .update 5]

/-- A player of the room that stays goes to the pool: it has the rid of a player of the room that is finished. -/
theorem not_owning : ∃ pb g, Reach (step pb) Env .new g ∧ ¬ g.Owning := by
  obtain ⟨g, hg, hlive, hrefs, hpool⟩ := exists_run (P := Env) (finishFirst 7 7)
    (fun g => 1 ∈ g.live ∧ 1 ∈ (g.room 1).refs ∧ 1 ∈ g.pm.pool) (by decide +kernel)
  exact ⟨ridParser, g, hg, fun h => h.used 1 hlive 1 hrefs hpool⟩

/-- With two rids, the player of the room that is finished goes to the pool. -/
theorem owning_finishFirst : ∃ g : GameNode, g.live = [1] ∧ (g.room 1).refs = [1, 1] ∧ g.pm.pool = [0] ∧
    (g.Owning ∧ ∀ ms g', g.Keeps (.update ms) → g.WithinPass ms g' → g'.Owning) := by
  obtain ⟨g, hg, hlive, hrefs, hpool⟩ := exists_run (P := Keeps) (finishFirst 7 8)
    (fun g => g.live = [1] ∧ (g.room 1).refs = [1, 1] ∧ g.pm.pool = [0]) (by decide +kernel)
  exact ⟨g, hlive, hrefs, hpool, owning ridParser g hg⟩

end GameNode

end KcpServer
