import KcpServer.Core.RoomLedger

/-!
# The indices of the players

A player is found by its rid and by its pid in `playerMgr`, and by both in its room. The pid is not fixed: a message 2004
gives its player the pid of the session's first message, which the client chooses. `playerMgr` moves its entry; the room
keeps the old one beside the new one, and an entry of somebody else under the new pid is overwritten. `Keeping` is the
condition under which the indices agree, and `players_coherent_iff` says that they then do in every run.
-/

namespace KcpServer
open Lib

namespace PlayerMgr
variable {m : PlayerMgr} {p q : Nat}

/-- `playerMgr::AppendP` of a pid and a rid, with a new player object. -/
def appendNew (m : PlayerMgr) (pid : Int) (rid : Nat) (roomid : Int) : PlayerMgr :=
  let (p, m) := m.popPlayer
  (m.modify p (·.init pid rid roomid)).appendP p

theorem appendNew_eq (m : PlayerMgr) (pid : Int) (rid : Nat) (roomid : Int) :
    ∃ p players pool, pop m.players m.pool .new = (p, players, pool) ∧ m.appendNew pid rid roomid =
      ⟨players.set p (Player.new.init pid rid roomid), m.ridPMap.insert rid p, m.pidPMap.insert pid p, pool⟩ := by
  obtain ⟨p, players, pool, hpop⟩ : ∃ p players pool, pop m.players m.pool Player.new = (p, players, pool) := ⟨_, _, _, rfl⟩
  refine ⟨p, players, pool, hpop, ?_⟩
  simp only [appendNew, popPlayer, hpop, modify, appendP, Heap.set_self, Player.init]

/-- The player is found under both its keys. -/
structure Found (m : PlayerMgr) (p : Nat) : Prop where
  pid : m.pidPMap[(m.players p).pid]? = some p
  rid : m.ridPMap[(m.players p).rid]? = some p

/-- A player object that is in use and is not found. -/
structure Lost (m : PlayerMgr) (p : Nat) : Prop where
  lt : p < m.players.next
  used : p ∉ m.pool
  notFound : ¬ m.Found p

/-- The pids and the rids of new players are not in use and not repeated. -/
structure Fresh (m : PlayerMgr) (es : List (Int × Nat × Int)) : Prop where
  pids : (es.map (·.1)).Nodup
  rids : (es.map (·.2.1)).Nodup
  unused : ∀ e ∈ es, m.pidPMap[e.1]? = none ∧ m.ridPMap[e.2.1]? = none

section Lost
variable {players : Heap Player} {pool : List Nat} (h : m.Indexed)
  (hpop : pop m.players m.pool .new = (p, players, pool)) (P : Player)
include h hpop

/-- A lost player stays lost when another one is taken and indexed. -/
theorem Lost.pop (hq : m.Lost q) :
    Lost ⟨players.set p P, m.ridPMap.insert P.rid p, m.pidPMap.insert P.pid p, pool⟩ q := by
  obtain ⟨hqp, heq, hused, hlt⟩ := h.pop_old hpop P hq.used hq.lt
  refine ⟨hlt, hused, fun hfound => hq.notFound ⟨?_, ?_⟩⟩
  · have hpid : (m.pidPMap.insert P.pid p)[(players.set p P q).pid]? = some q := hfound.pid
    rw [heq] at hpid
    exact ((insert_eq_some.mp hpid).resolve_left fun hin => hqp hin.2).2
  · have hrid : (m.ridPMap.insert P.rid p)[(players.set p P q).rid]? = some q := hfound.rid
    rw [heq] at hrid
    exact ((insert_eq_some.mp hrid).resolve_left fun hin => hqp hin.2).2

/-- A new player with a key in use makes somebody else lost. -/
theorem lost_pop (hused : ¬ (m.pidPMap[P.pid]? = none ∧ m.ridPMap[P.rid]? = none)) :
    ∃ q, Lost ⟨players.set p P, m.ridPMap.insert P.rid p, m.pidPMap.insert P.pid p, pool⟩ q := by
  rw [not_and_or] at hused
  rcases hused with hpid | hrid
  · obtain ⟨q, hq⟩ := Option.ne_none_iff_exists'.mp hpid
    obtain ⟨hkey, hpool, hlt⟩ := h.pid hq
    obtain ⟨hqp, heq, hused, hlt⟩ := h.pop_old hpop P hpool hlt
    refine ⟨q, hlt, hused, fun hfound => hqp ?_⟩
    have hpid : (m.pidPMap.insert P.pid p)[(players.set p P q).pid]? = some q := hfound.pid
    rw [heq, hkey, Std.TreeMap.getElem?_insert_self] at hpid
    exact (Option.some.inj hpid).symm
  · obtain ⟨q, hq⟩ := Option.ne_none_iff_exists'.mp hrid
    obtain ⟨hkey, hpool, hlt⟩ := h.rid hq
    obtain ⟨hqp, heq, hused, hlt⟩ := h.pop_old hpop P hpool hlt
    refine ⟨q, hlt, hused, fun hfound => hqp ?_⟩
    have hrid : (m.ridPMap.insert P.rid p)[(players.set p P q).rid]? = some q := hfound.rid
    rw [heq, hkey, Std.TreeMap.getElem?_insert_self] at hrid
    exact (Option.some.inj hrid).symm

end Lost

end PlayerMgr

/-! ## The invariant -/

/-- Every player object that is not in the pool is found under its keys, and the rooms in `live` have their players under
the keys that these have now. -/
structure Keyed (m : PlayerMgr) (rooms : Nat → Room) (live : Nat → Prop) : Prop where
  found : ∀ p < m.players.next, p ∉ m.pool → m.Found p
  rids : ∀ r, live r → ∀ (rid : Nat) p, (rooms r).ridPMap[rid]? = some p → (m.players p).rid = rid
  pids : ∀ r, live r → ∀ (pid : Int) p, (rooms r).pidPMap[pid]? = some p → (m.players p).pid = pid
  both : ∀ r, live r → ∀ (rid : Nat) p, (rooms r).ridPMap[rid]? = some p →
    (rooms r).pidPMap[(m.players p).pid]? = some p

namespace Keyed
variable {m m' : PlayerMgr} {rooms rooms' : Nat → Room} {live live' : Nat → Prop} {r p : Nat}

theorem mono (h : Keyed m rooms live) (hlive : ∀ r, live' r →
    (live r ∧ (rooms' r).ridPMap = (rooms r).ridPMap ∧ (rooms' r).pidPMap = (rooms r).pidPMap) ∨ (rooms' r).refs = []) :
    Keyed m rooms' live' := by
  have hnone : ∀ {r p : Nat}, (rooms' r).refs = [] → ¬ ((∃ rid : Nat, (rooms' r).ridPMap[rid]? = some p) ∨
      ∃ pid : Int, (rooms' r).pidPMap[pid]? = some p) := by
    intro r p hnil hp
    have hmem := Room.mem_refs.mpr hp
    rw [hnil] at hmem
    cases hmem
  refine ⟨h.found, fun r hr rid p hp => ?_, fun r hr pid p hp => ?_, fun r hr rid p hp => ?_⟩
  · rcases hlive r hr with ⟨hr, hrid, -⟩ | hnil
    · exact h.rids r hr rid p (hrid ▸ hp)
    · exact absurd (Or.inl ⟨rid, hp⟩) (hnone hnil)
  · rcases hlive r hr with ⟨hr, -, hpid⟩ | hnil
    · exact h.pids r hr pid p (hpid ▸ hp)
    · exact absurd (Or.inr ⟨pid, hp⟩) (hnone hnil)
  · rcases hlive r hr with ⟨hr, hrid, hpid⟩ | hnil
    · rw [hpid]
      exact h.both r hr rid p (hrid ▸ hp)
    · exact absurd (Or.inl ⟨rid, hp⟩) (hnone hnil)

theorem of_keys (h : Keyed m rooms live) (hpid : ∀ k : Int, m'.pidPMap[k]? = m.pidPMap[k]?)
    (hrid : ∀ k : Nat, m'.ridPMap[k]? = m.ridPMap[k]?) (hpool : m'.pool = m.pool)
    (hnext : m'.players.next = m.players.next)
    (hkeys : ∀ p, (m'.players p).pid = (m.players p).pid ∧ (m'.players p).rid = (m.players p).rid) :
    Keyed m' rooms live := by
  refine ⟨fun p hlt hp => ?_, fun r hr rid p hp => ?_, fun r hr pid p hp => ?_, fun r hr rid p hp => ?_⟩
  · rw [hnext] at hlt
    rw [hpool] at hp
    obtain ⟨h₁, h₂⟩ := h.found p hlt hp
    exact ⟨by rw [(hkeys p).1, hpid]; exact h₁, by rw [(hkeys p).2, hrid]; exact h₂⟩
  · rw [(hkeys p).2]
    exact h.rids r hr rid p hp
  · rw [(hkeys p).1]
    exact h.pids r hr pid p hp
  · rw [(hkeys p).1]
    exact h.both r hr rid p hp

theorem modify (h : Keyed m rooms live) {f : Player → Player} (hrid : (f (m.players p)).rid = (m.players p).rid)
    (hpid : (f (m.players p)).pid = (m.players p).pid) : Keyed (m.modify p f) rooms live := by
  refine h.of_keys (fun _ => rfl) (fun _ => rfl) rfl rfl fun q => ?_
  by_cases hq : q = p
  · subst hq
    simp only [PlayerMgr.modify, Heap.set_self]
    exact ⟨hpid, hrid⟩
  · simp only [PlayerMgr.modify, Heap.set_of_ne _ hq, and_self]

/-- Two players that are found do not have one pid. -/
theorem pid_inj {q : Nat} (hp : m.Found p) (hq : m.Found q) (heq : (m.players p).pid = (m.players q).pid) : p = q := by
  have hpid := hp.pid
  rw [heq, hq.pid] at hpid
  exact (Option.some.inj hpid).symm

theorem enterP {rm : RoomMgr} {players : Heap Player} {pconn : Option Nat} (h : Keyed m rm.rooms live)
    (ho : Owners m rm.rooms live) (hp : m.Found p) (hpid : (players p).pid = (m.players p).pid)
    (hrid : (players p).rid = (m.players p).rid) : Keyed m (rm.enterP players r p pconn).rooms live := by
  have hsame := rm.same_enterP players r p pconn
  have hother : ∀ q ≠ r, (rm.enterP players r p pconn).rooms q = rm.rooms q :=
    (RoomMgr.entered_enterP rm players r p pconn).others
  have hridMap : ((rm.enterP players r p pconn).rooms r).ridPMap = (rm.rooms r).ridPMap.insert (players p).rid p :=
    hsame.ridPMap
  have hpidMap : ((rm.enterP players r p pconn).rooms r).pidPMap = (rm.rooms r).pidPMap.insert (players p).pid p :=
    hsame.pidPMap
  refine ⟨h.found, fun q hq rid p' hp' => ?_, fun q hq pid p' hp' => ?_, fun q hq rid p' hp' => ?_⟩
  · by_cases hqr : q = r
    · subst hqr
      rw [hridMap] at hp'
      rcases insert_eq_some.mp hp' with ⟨rfl, rfl⟩ | ⟨-, hp'⟩
      · exact hrid.symm
      · exact h.rids q hq rid p' hp'
    · rw [hother q hqr] at hp'
      exact h.rids q hq rid p' hp'
  · by_cases hqr : q = r
    · subst hqr
      rw [hpidMap] at hp'
      rcases insert_eq_some.mp hp' with ⟨rfl, rfl⟩ | ⟨-, hp'⟩
      · exact hpid.symm
      · exact h.pids q hq pid p' hp'
    · rw [hother q hqr] at hp'
      exact h.pids q hq pid p' hp'
  · by_cases hqr : q = r
    · subst hqr
      rw [hridMap] at hp'
      rw [hpidMap, hpid]
      rcases insert_eq_some.mp hp' with ⟨-, rfl⟩ | ⟨-, hp'⟩
      · exact insert_eq_some.mpr (Or.inl ⟨rfl, rfl⟩)
      · obtain ⟨hpool, hlt⟩ := ho.used q hq p' (Room.mem_refs.mpr (Or.inl ⟨rid, hp'⟩))
        by_cases hkey : (m.players p').pid = (m.players p).pid
        · exact insert_eq_some.mpr (Or.inl ⟨hkey, pid_inj (h.found p' hlt hpool) hp hkey⟩)
        · exact insert_eq_some.mpr (Or.inr ⟨hkey, h.both q hq rid p' hp'⟩)
    · rw [hother q hqr] at hp' ⊢
      exact h.both q hq rid p' hp'

theorem pop (h : Keyed m rooms live) (ho : Owners m rooms live) {players : Heap Player} {pool : List Nat}
    (hpop : Lib.pop m.players m.pool .new = (p, players, pool)) {P : Player} (hpid : m.pidPMap[P.pid]? = none)
    (hrid : m.ridPMap[P.rid]? = none) :
    Keyed ⟨players.set p P, m.ridPMap.insert P.rid p, m.pidPMap.insert P.pid p, pool⟩ rooms live := by
  obtain ⟨-, -, -, -, -, -, hsame, hnext⟩ := ho.indexed.free.pop _ hpop
  obtain ⟨-, -, -, hfresh⟩ := ho.pop hpop P
  have hold : ∀ {r q : Nat}, live r → q ∈ (rooms r).refs → players.set p P q = m.players q := by
    intro r q hr hq
    have hqp : q ≠ p := fun hqp => hfresh r hr (hqp ▸ hq)
    rw [Heap.set_of_ne _ hqp, hsame q (ho.used r hr q hq).2]
  refine ⟨fun q hlt hq => ?_, fun r hr rid q hq => ?_, fun r hr pid q hq => ?_, fun r hr rid q hq => ?_⟩
  · by_cases hqp : q = p
    · subst hqp
      exact ⟨by simp, by simp⟩
    · have hqlt : q < m.players.next := (hnext q hlt).resolve_right hqp
      have hnot : q ∉ m.pool := fun hin => hq ((mem_of_pop hpop hin).resolve_left hqp)
      obtain ⟨h₁, h₂⟩ := h.found q hqlt hnot
      have heq : players.set p P q = m.players q := by rw [Heap.set_of_ne _ hqp, hsame q hqlt]
      refine ⟨?_, ?_⟩
      · show (m.pidPMap.insert P.pid p)[(players.set p P q).pid]? = some q
        rw [heq]
        apply insert_of_entry h₁
        rw [hpid]
        exact nofun
      · show (m.ridPMap.insert P.rid p)[(players.set p P q).rid]? = some q
        rw [heq]
        apply insert_of_entry h₂
        rw [hrid]
        exact nofun
  · show (players.set p P q).rid = rid
    rw [hold hr (Room.mem_refs.mpr (Or.inl ⟨rid, hq⟩))]
    exact h.rids r hr rid q hq
  · show (players.set p P q).pid = pid
    rw [hold hr (Room.mem_refs.mpr (Or.inr ⟨pid, hq⟩))]
    exact h.pids r hr pid q hq
  · show (rooms r).pidPMap[(players.set p P q).pid]? = some q
    rw [hold hr (Room.mem_refs.mpr (Or.inl ⟨rid, hq⟩))]
    exact h.both r hr rid q hq

/-- A player gets another pid that is not in use, or its own: in the first case no room may have it. -/
theorem updatePlayer (h : Keyed m rooms live) (hlt : p < m.players.next) (hp : p ∉ m.pool) {pid : Int}
    (hcond : (m.players p).pid = pid ∨ m.pidPMap[pid]? = none ∧ ∀ r, live r → p ∉ (rooms r).pidPMap.values) :
    Keyed (m.updatePlayer p pid) rooms live := by
  have hself : (m.updatePlayer p pid).players p = { m.players p with pid } := by
    simp [PlayerMgr.updatePlayer, PlayerMgr.modify, PlayerMgr.appendP]
  have hother : ∀ {q : Nat}, q ≠ p → (m.updatePlayer p pid).players q = m.players q := by
    intro q hq
    simp [PlayerMgr.updatePlayer, PlayerMgr.modify, PlayerMgr.appendP, Heap.set_of_ne _ hq]
  have hpidMap : (m.updatePlayer p pid).pidPMap = (m.pidPMap.erase (m.players p).pid).insert pid p := by
    simp [PlayerMgr.updatePlayer, PlayerMgr.modify, PlayerMgr.appendP]
  have hridMap : (m.updatePlayer p pid).ridPMap = m.ridPMap.insert (m.players p).rid p := by
    simp [PlayerMgr.updatePlayer, PlayerMgr.modify, PlayerMgr.appendP]
  obtain ⟨hfoundPid, hfoundRid⟩ := h.found p hlt hp
  refine ⟨fun q hqlt hq => ?_, fun r hr rid q hq => ?_, fun r hr k q hq => ?_, fun r hr rid q hq => ?_⟩
  · by_cases hqp : q = p
    · subst hqp
      exact ⟨by rw [hself, hpidMap]; simp, by rw [hself, hridMap]; simp⟩
    · obtain ⟨h₁, h₂⟩ := h.found q hqlt hq
      have hold : m.pidPMap[(m.players p).pid]? ≠ some q := fun hin => hqp (Option.some.inj (hin.symm.trans hfoundPid))
      have hnew : m.pidPMap[pid]? ≠ some q := by
        rcases hcond with hcur | ⟨hnone, -⟩
        · exact hcur ▸ hold
        · rw [hnone]
          intro hin
          cases hin
      constructor
      · rw [hother hqp, hpidMap]
        apply insert_of_entry (erase_of_entry h₁ hold)
        exact fun hin => hnew (erase_eq_some.mp hin).2
      · rw [hother hqp, hridMap]
        apply insert_of_entry h₂
        exact fun hin => hqp (Option.some.inj (hin.symm.trans hfoundRid))
  · have hold := h.rids r hr rid q hq
    by_cases hqp : q = p
    · subst hqp
      rw [hself]
      exact hold
    · rw [hother hqp]
      exact hold
  · have hold := h.pids r hr k q hq
    by_cases hqp : q = p
    · subst hqp
      rw [hself]
      rcases hcond with hcur | ⟨-, hnot⟩
      · exact hcur.symm.trans hold
      · exact absurd (mem_values.mpr ⟨k, hq⟩) (hnot r hr)
    · rw [hother hqp]
      exact hold
  · have hold := h.both r hr rid q hq
    by_cases hqp : q = p
    · subst hqp
      rcases hcond with hcur | ⟨-, hnot⟩
      · rw [hself]
        exact hcur ▸ hold
      · exact absurd (mem_values.mpr ⟨_, hold⟩) (hnot r hr)
    · rw [hother hqp]
      exact hold

theorem removeP (h : Keyed m rooms live) (hi : m.Indexed) (kcp : KCPServer) {rid : Nat}
    (hp : m.ridPMap[rid]? = some p) : Keyed (m.removeP kcp rid).1 rooms live := by
  obtain ⟨hrid, hpool, hlt⟩ := hi.rid hp
  obtain ⟨hfoundPid, -⟩ := h.found p hlt hpool
  have hkeys := h.modify (p := p) (f := ({ · with off := true })) rfl rfl
  rw [PlayerMgr.removeP_of_some hp]
  refine ⟨fun q hqlt hq => ?_, hkeys.rids, hkeys.pids, hkeys.both⟩
  rw [List.mem_append, List.mem_singleton, not_or] at hq
  obtain ⟨h₁, h₂⟩ := h.found q hqlt hq.1
  have heq : (m.players.set p { m.players p with off := true }) q = m.players q := Heap.set_of_ne _ hq.2 _
  refine ⟨?_, ?_⟩
  · show (m.pidPMap.erase (m.players p).pid)[((m.players.set p { m.players p with off := true }) q).pid]? = some q
    rw [heq]
    apply erase_of_entry h₁
    exact fun hin => hq.2 (Option.some.inj (hin.symm.trans hfoundPid))
  · show (m.ridPMap.erase rid)[((m.players.set p { m.players p with off := true }) q).rid]? = some q
    rw [heq]
    apply erase_of_entry h₂
    exact fun hin => hq.2 (Option.some.inj (hin.symm.trans hp))

end Keyed

namespace GameNode
variable {pb : Pb} {g g' : GameNode} {o : GameOp}

abbrev Keyed (g : GameNode) : Prop := KcpServer.Keyed g.pm g.rm.rooms (· ∈ g.live)

/-! ## The steps of a node -/

theorem keyed_quiet (h : g.Keyed) (hq : Quiet g g') : g'.Keyed := by
  unfold Keyed live
  rw [hq.pm, hq.rm.idMap]
  exact h.mono fun r hr => Or.inl ⟨hr, (hq.rm.rooms r).1.ridPMap, (hq.rm.rooms r).1.pidPMap⟩

theorem keyed_enterP {players : Heap Player} {r p : Nat} {pconn : Option Nat} (ho : g.Owned) (h : g.Keyed)
    (hp : g.pm.Found p) (hpid : (players p).pid = (g.pm.players p).pid) (hrid : (players p).rid = (g.pm.players p).rid) :
    ({ g with rm := g.rm.enterP players r p pconn } : GameNode).Keyed := by
  unfold Keyed live
  dsimp only
  rw [(RoomMgr.entered_enterP g.rm players r p pconn).idMap]
  exact h.enterP ho hp hpid hrid

theorem keyed_register {obj : KcpCall} {r p pconn : Nat} {pm : PlayerMgr} {kcp : KCPServer} (ho : g.Owned) (h : g.Keyed)
    (hroom : g.rm.idMap[obj.roomid]? = some r) (hrid : (g.room r).ridPMap[pb.rid2004 obj.body]? = some p)
    (hpid : (g.pm.players p).pid = obj.pid)
    (hset : (g.pm.updatePlayer p obj.pid).setSessid g.kcp p obj.sessid obj.pid = .ok (pm, kcp, pconn)) :
    ({ kcp, pm, rm := g.rm.enterP pm.players r p (some pconn) } : GameNode).Keyed := by
  obtain ⟨hpool, hlt⟩ := ho.used r (mem_live.mpr ⟨_, hroom⟩) p (Room.mem_refs.mpr (Or.inl ⟨_, hrid⟩))
  obtain ⟨-, rfl, -⟩ := PlayerMgr.setSessid_eq_ok.mp hset
  have hupdated := h.updatePlayer hlt hpool (Or.inl hpid)
  have hself : ((g.pm.updatePlayer p obj.pid).players p).pid = obj.pid := by
    simp [PlayerMgr.updatePlayer, PlayerMgr.modify, PlayerMgr.appendP]
  have hset := hupdated.modify (p := p) (f := ({ · with sessid := obj.sessid, pid := obj.pid, off := false })) rfl
    hself.symm
  have hindexed := (ho.indexed.updatePlayer hpool hlt obj.pid).modify (p := p)
    (f := ({ · with sessid := obj.sessid, pid := obj.pid, off := false })) rfl hself.symm
  exact keyed_enterP (g := { g with kcp, pm := _ }) (ho.of_players hindexed rfl rfl) hset (hset.found p hlt hpool) rfl rfl

theorem keyed_removes {rids : List Nat} (hi : g.pm.Indexed) (h : g.Keyed) (hrooms : SameRooms g.rm.rooms g'.rm.rooms)
    (hlive : ∀ q ∈ g'.live, q ∈ g.live) (hrem : Removes g rids g') : g'.Keyed := by
  have hpm := removePs_invariant (g := g) rids
    (I := fun pm _ => pm.Indexed ∧ KcpServer.Keyed pm g.rm.rooms (· ∈ g.live)) ⟨hi, h⟩
    fun pm kcp hI rid _ p hp => ⟨hI.1.removeP kcp rid, hI.2.removeP hI.1 kcp hp⟩
  unfold Keyed
  rw [hrem.pm]
  exact hpm.2.mono fun r hr => Or.inl ⟨hlive r hr, (hrooms r).1.ridPMap, (hrooms r).1.pidPMap⟩

/-- A room that is finished removes its own players. -/
theorem keeps_update (hhost : g.rm.Hosting) (ho : g.Owned) (h : g.Keyed) (ms : Nat) : g.Keeps (.update ms) := by
  rintro ⟨k, r⟩ he hfin rid hrid p hp ⟨k', r'⟩ he' hfirst hmem
  have hk := Std.TreeMap.mem_toList_iff_getElem?_eq_some.mp he
  have hk' := Std.TreeMap.mem_toList_iff_getElem?_eq_some.mp he'
  have hr : r ∈ g.live := mem_live.mpr ⟨k, hk⟩
  obtain ⟨q, hq⟩ := mem_iff_exists.mp (Std.TreeMap.mem_keys.mp hrid)
  have href : q ∈ (g.room r).refs := Room.mem_refs.mpr (Or.inl ⟨rid, hq⟩)
  obtain ⟨hpool, hlt⟩ := ho.used r hr q href
  -- the rid is that of the room's own player
  have hown := (h.found q hlt hpool).rid
  rw [h.rids r hr rid q hq] at hown
  obtain rfl : q = p := Option.some.inj (hown.symm.trans hp)
  obtain rfl : r = r' := ho.unshared r r' hr (mem_live.mpr ⟨k', hk'⟩) q href hmem
  obtain rfl : k = k' := hhost.inj hk hk'
  exact lt_irrefl _ (hfirst hfin)

/-! ## `NewRoom` -/

theorem fresh_enterNew {r : Nat} {pid : Int} {rid : Nat} {camp : Int} {es : List (Int × Nat × Int)}
    (hpid : g.pm.pidPMap[pid]? = none) (hrid : g.pm.ridPMap[rid]? = none) :
    (g.enterNew r pid rid camp).pm.Fresh es ↔ g.pm.Fresh ((pid, rid, camp) :: es) := by
  obtain ⟨p, players, pool, -, heq⟩ := g.enterNew_eq r pid rid camp
  have hkeys : ∀ e : Int × Nat × Int, ((g.enterNew r pid rid camp).pm.pidPMap[e.1]? = none ∧
      (g.enterNew r pid rid camp).pm.ridPMap[e.2.1]? = none) ↔
      (e.1 ≠ pid ∧ g.pm.pidPMap[e.1]? = none) ∧ (e.2.1 ≠ rid ∧ g.pm.ridPMap[e.2.1]? = none) := by
    intro e
    rw [heq]
    exact and_congr insert_eq_none insert_eq_none
  constructor
  · rintro ⟨hpids, hrids, hunused⟩
    refine ⟨List.nodup_cons.mpr ⟨fun hin => ?_, hpids⟩, List.nodup_cons.mpr ⟨fun hin => ?_, hrids⟩, fun e he => ?_⟩
    · obtain ⟨e, he, hkey⟩ := List.mem_map.mp hin
      exact ((hkeys e).mp (hunused e he)).1.1 hkey
    · obtain ⟨e, he, hkey⟩ := List.mem_map.mp hin
      exact ((hkeys e).mp (hunused e he)).2.1 hkey
    · rcases List.mem_cons.mp he with rfl | he
      · exact ⟨hpid, hrid⟩
      · obtain ⟨⟨-, h₁⟩, -, h₂⟩ := (hkeys e).mp (hunused e he)
        exact ⟨h₁, h₂⟩
  · rintro ⟨hpids, hrids, hunused⟩
    obtain ⟨hpidNot, hpids⟩ := List.nodup_cons.mp hpids
    obtain ⟨hridNot, hrids⟩ := List.nodup_cons.mp hrids
    refine ⟨hpids, hrids, fun e he => (hkeys e).mpr ?_⟩
    obtain ⟨h₁, h₂⟩ := hunused e (List.mem_cons_of_mem _ he)
    exact ⟨⟨fun hkey => hpidNot (List.mem_map.mpr ⟨e, he, hkey⟩), h₁⟩,
      ⟨fun hkey => hridNot (List.mem_map.mpr ⟨e, he, hkey⟩), h₂⟩⟩

theorem keyed_enterNews {live : Nat → Prop} {r : Nat} {es : List (Int × Nat × Int)}
    (ho : Owners g.pm g.rm.rooms live) (h : KcpServer.Keyed g.pm g.rm.rooms live) (hfresh : g.pm.Fresh es) :
    KcpServer.Keyed (g.enterNews r es).pm (g.enterNews r es).rm.rooms live := by
  induction es generalizing g with
  | nil => exact h
  | cons e es ih =>
    obtain ⟨pid, rid, camp⟩ := e
    obtain ⟨hpid, hrid⟩ := hfresh.unused _ List.mem_cons_self
    have howners : Owners (g.enterNew r pid rid camp).pm (g.enterNew r pid rid camp).rm.rooms live :=
      owners_enterNews ho [(pid, rid, camp)]
    obtain ⟨p, players, pool, hpop, heq⟩ := g.enterNew_eq r pid rid camp
    refine ih (g := g.enterNew r pid rid camp) howners ?_ ((fresh_enterNew hpid hrid).mpr hfresh)
    rw [heq]
    obtain ⟨hOwners, hnot, hlt, -⟩ := ho.pop hpop ⟨pid, 0, rid, (g.room r).roomid, false, camp⟩
    have hKeyed := h.pop ho hpop (P := ⟨pid, 0, rid, (g.room r).roomid, false, camp⟩) hpid hrid
    exact hKeyed.enterP hOwners (hKeyed.found p hlt hnot) rfl rfl

theorem indexed_enterNew (h : g.pm.Indexed) (r : Nat) (pid : Int) (rid : Nat) (camp : Int) :
    (g.enterNew r pid rid camp).pm.Indexed := by
  obtain ⟨p, players, pool, hpop, heq⟩ := g.enterNew_eq r pid rid camp
  rw [heq]
  exact h.pop hpop ⟨pid, 0, rid, (g.room r).roomid, false, camp⟩

theorem lost_enterNews_of_lost {r q : Nat} {es : List (Int × Nat × Int)} (h : g.pm.Indexed) (hq : g.pm.Lost q) :
    (g.enterNews r es).pm.Lost q := by
  induction es generalizing g with
  | nil => exact hq
  | cons e es ih =>
    obtain ⟨pid, rid, camp⟩ := e
    refine ih (g := g.enterNew r pid rid camp) (indexed_enterNew h r pid rid camp) ?_
    obtain ⟨p, players, pool, hpop, heq⟩ := g.enterNew_eq r pid rid camp
    rw [heq]
    exact hq.pop h hpop ⟨pid, 0, rid, (g.room r).roomid, false, camp⟩

/-- On keys that are in use or repeated, the loop makes somebody lost. -/
theorem lost_enterNews {r : Nat} {es : List (Int × Nat × Int)} (h : g.pm.Indexed) (hfresh : ¬ g.pm.Fresh es) :
    ∃ q, (g.enterNews r es).pm.Lost q := by
  induction es generalizing g with
  | nil => exact absurd ⟨List.nodup_nil, List.nodup_nil, fun e he => nomatch he⟩ hfresh
  | cons e es ih =>
    obtain ⟨pid, rid, camp⟩ := e
    have hindexed := indexed_enterNew h r pid rid camp
    by_cases hunused : g.pm.pidPMap[pid]? = none ∧ g.pm.ridPMap[rid]? = none
    · refine ih (g := g.enterNew r pid rid camp) hindexed fun hrest => hfresh ?_
      exact (fresh_enterNew hunused.1 hunused.2).mp hrest
    · obtain ⟨p, players, pool, hpop, heq⟩ := g.enterNew_eq r pid rid camp
      obtain ⟨q, hq⟩ := PlayerMgr.lost_pop h hpop ⟨pid, 0, rid, (g.room r).roomid, false, camp⟩ hunused
      refine ⟨q, lost_enterNews_of_lost (g := g.enterNew r pid rid camp) hindexed ?_⟩
      rw [heq]
      exact hq

theorem keyed_newRoom {pid : Nat} {g₁ : GameNode} (hhost : g.rm.Hosting) (ho : g.Owned) (h : g.Keyed)
    (hopen : Quiet (g.openRoom pid) g₁) {es : List (Int × Nat × Int)} (hfresh : g.pm.Fresh es) :
    let g₂ := g₁.enterNews g.rm.popRoom.1 es
    ({ g₂ with rm := g₂.rm.appendR g.rm.popRoom.1 } : GameNode).Keyed := by
  have hopened := opened hhost hopen
  have hroom : ∀ q, (q = g.rm.popRoom.1 ∨ q ∈ g.live) →
      q ∈ g.live ∧ (g.room q).Same (g₁.room q) ∨ (g₁.room q).refs = [] := by
    intro q hq
    by_cases hqr : q = g.rm.popRoom.1
    · rw [hqr]
      exact Or.inr (hopened.init.refs_eq.trans (Room.refs_init _))
    · exact Or.inl ⟨hq.resolve_left hqr, hopened.same q hqr⟩
  have hOwners : Owners g₁.pm g₁.rm.rooms fun q => q = g.rm.popRoom.1 ∨ q ∈ g.live := by
    rw [hopened.pm]
    exact ho.mono fun q hq => (hroom q hq).imp_left fun hs => ⟨hs.1, hs.2.refs_eq⟩
  have hKeyed : KcpServer.Keyed g₁.pm g₁.rm.rooms fun q => q = g.rm.popRoom.1 ∨ q ∈ g.live := by
    rw [hopened.pm]
    exact h.mono fun q hq => (hroom q hq).imp_left fun hs => ⟨hs.1, hs.2.ridPMap, hs.2.pidPMap⟩
  rw [← hopened.pm] at hfresh
  refine (keyed_enterNews hOwners hKeyed hfresh).mono fun q hq => Or.inl ⟨?_, rfl, rfl⟩
  exact live_newRoom hopen (entered_enterNews g₁ g.rm.popRoom.1 es) hq

theorem fresh_entries {m : PlayerMgr} {b : NewRoomBody}
    (hlen : b.pidvec.length = b.ridvec.length ∧ b.ridvec.length = b.campvec.length) :
    m.Fresh (b.pidvec.zip (b.ridvec.zip b.campvec)) ↔ b.pidvec.Nodup ∧ b.ridvec.Nodup ∧
      (∀ pid ∈ b.pidvec, m.pidPMap[pid]? = none) ∧ ∀ rid ∈ b.ridvec, m.ridPMap[rid]? = none := by
  have hzip : (b.ridvec.zip b.campvec).length = b.ridvec.length := by
    rw [List.length_zip]
    omega
  have hpids : (b.pidvec.zip (b.ridvec.zip b.campvec)).map (·.1) = b.pidvec := List.map_fst_zip (by omega)
  have hrids : (b.pidvec.zip (b.ridvec.zip b.campvec)).map (·.2.1) = b.ridvec := by
    show (b.pidvec.zip (b.ridvec.zip b.campvec)).map (Prod.fst ∘ Prod.snd) = b.ridvec
    rw [← List.map_map, List.map_snd_zip (by omega)]
    exact List.map_fst_zip (by omega)
  constructor
  · rintro ⟨h₁, h₂, hunused⟩
    rw [hpids] at h₁
    rw [hrids] at h₂
    refine ⟨h₁, h₂, fun pid hpid => ?_, fun rid hrid => ?_⟩
    · rw [← hpids] at hpid
      obtain ⟨e, he, rfl⟩ := List.mem_map.mp hpid
      exact (hunused e he).1
    · rw [← hrids] at hrid
      obtain ⟨e, he, rfl⟩ := List.mem_map.mp hrid
      exact (hunused e he).2
  · rintro ⟨h₁, h₂, hpidNone, hridNone⟩
    refine ⟨by rw [hpids]; exact h₁, by rw [hrids]; exact h₂, fun e he => ⟨?_, ?_⟩⟩
    · exact hpidNone e.1 (hpids ▸ List.mem_map_of_mem he)
    · exact hridNone e.2.1 (hrids ▸ List.mem_map_of_mem he)

end GameNode

/-! ## Every run -/

/-- A step of a node, or a call of `AppendP`, `UpdatePlayer` or `RemoveP` by anybody else. -/
inductive PlayerOp
  | node (o : GameOp)
  | appendP (pid : Int) (rid : Nat) (roomid : Int)
  | updatePlayer (p : Nat) (pid : Int)
  | removeP (rid : Nat)

namespace GameNode
variable {pb : Pb} {g g' : GameNode} {o : PlayerOp}

def playerStep (pb : Pb) (g : GameNode) : PlayerOp → Except Fault GameNode
  | .node o => g.step pb o
  | .appendP pid rid roomid => .ok { g with pm := g.pm.appendNew pid rid roomid }
  | .updatePlayer p pid => .ok { g with pm := g.pm.updatePlayer p pid }
  | .removeP rid => .ok { g with pm := (g.pm.removeP g.kcp rid).1, kcp := (g.pm.removeP g.kcp rid).2 }

/-- The steps that keep the indices: new players have pids and rids that are not in use, a message 2004 comes under the
pid that its player has, and gate's `EnterP` finds a player that is in no other registered room. A player that is given
another pid by `UpdatePlayer` or removed by `RemoveP` otherwise is in no registered room. -/
def Keeping (pb : Pb) (g : GameNode) : PlayerOp → Prop
  | .node (.newRoom _ body) =>
    ∀ b ∈ accepted body, b.pidvec.Nodup ∧ b.ridvec.Nodup ∧ (∀ pid ∈ b.pidvec, g.pm.pidPMap[pid]? = none) ∧
      ∀ rid ∈ b.ridvec, g.pm.ridPMap[rid]? = none
  | .node (.kcp obj) =>
    obj.msgid = 2004 → ∀ r ∈ g.rm.idMap[obj.roomid]?, ∀ p ∈ (g.room r).ridPMap[pb.rid2004 obj.body]?,
      (g.pm.players p).pid = obj.pid
  | .node (.enterP body) => g.Keeps (.enterP body)
  | .node _ => True
  | .appendP pid rid _ => g.pm.pidPMap[pid]? = none ∧ g.pm.ridPMap[rid]? = none
  | .updatePlayer p pid =>
    (p < g.pm.players.next ∧ p ∉ g.pm.pool) ∧
      ((g.pm.players p).pid = pid ∨ g.pm.pidPMap[pid]? = none ∧ ∀ r ∈ g.live, p ∉ (g.room r).pidPMap.values)
  | .removeP rid => ∀ p ∈ g.pm.ridPMap[rid]?, ∀ r ∈ g.live, p ∉ (g.room r).refs

instance (pb : Pb) (g : GameNode) (o : PlayerOp) : Decidable (g.Keeping pb o) :=
  match o with
  | .node (.newRoom _ _) => inferInstanceAs (Decidable (∀ b ∈ _, _ ∧ _ ∧ (∀ pid ∈ _, _ = _) ∧ ∀ rid ∈ _, _ = _))
  | .node (.kcp _) => inferInstanceAs (Decidable (_ = _ → ∀ r ∈ _, ∀ p ∈ _, _ = _))
  | .node (.enterP body) => inferInstanceAs (Decidable (g.Keeps (.enterP body)))
  | .node (.createConn _ _ _ _) | .node (.scanTimeout _) | .node .delTimeout | .node (.overRoom _ _)
  | .node (.offlineP _) | .node (.leaveP _) | .node (.allPReady _) | .node (.api2003 _ _) | .node (.update _) =>
    isTrue trivial
  | .appendP _ _ _ => inferInstanceAs (Decidable (_ = _ ∧ _ = _))
  | .updatePlayer _ _ => inferInstanceAs (Decidable ((_ < _ ∧ _ ∉ _) ∧ (_ = _ ∨ _ = _ ∧ ∀ r ∈ _, _ ∉ _)))
  | .removeP _ => inferInstanceAs (Decidable (∀ p ∈ _, ∀ r ∈ _, p ∉ _))

/-- The players of a node are indexed under the keys they have. -/
structure Coherent (g : GameNode) : Prop where
  same : ∀ p, (∃ pid, g.pm.getP pid = some p) ↔ ∃ rid, g.pm.getPByRid rid = some p
  getP : ∀ {pid p}, g.pm.getP pid = some p → (g.pm.players p).pid = pid ∧ g.pm.getPByRid (g.pm.players p).rid = some p
  getPByRid : ∀ {rid p}, g.pm.getPByRid rid = some p →
    (g.pm.players p).rid = rid ∧ g.pm.getP (g.pm.players p).pid = some p
  reachable : ∀ p < g.pm.players.next, p ∉ g.pm.pool →
    g.pm.getP (g.pm.players p).pid = some p ∧ g.pm.getPByRid (g.pm.players p).rid = some p
  room : ∀ {k r}, g.rm.getRoom k = some r → ∀ {pid p}, (g.room r).getP pid = some p → (g.pm.players p).pid = pid

structure Indexing (g : GameNode) : Prop where
  hosting : g.rm.Hosting
  owned : g.Owned
  keyed : g.Keyed

theorem Indexing.coherent (h : g.Indexing) : g.Coherent := by
  have hpid : ∀ {pid : Int} {p}, g.pm.pidPMap[pid]? = some p → (g.pm.players p).pid = pid ∧ g.pm.Found p := by
    intro pid p hp
    obtain ⟨hkey, hpool, hlt⟩ := h.owned.indexed.pid hp
    exact ⟨hkey, h.keyed.found p hlt hpool⟩
  have hrid : ∀ {rid : Nat} {p}, g.pm.ridPMap[rid]? = some p → (g.pm.players p).rid = rid ∧ g.pm.Found p := by
    intro rid p hp
    obtain ⟨hkey, hpool, hlt⟩ := h.owned.indexed.rid hp
    exact ⟨hkey, h.keyed.found p hlt hpool⟩
  refine ⟨fun p => ⟨?_, ?_⟩, fun hp => ⟨(hpid hp).1, (hpid hp).2.rid⟩, fun hp => ⟨(hrid hp).1, (hrid hp).2.pid⟩,
    fun p hlt hp => ⟨(h.keyed.found p hlt hp).pid, (h.keyed.found p hlt hp).rid⟩,
    fun hk pid p hp => h.keyed.pids _ (mem_live.mpr ⟨_, hk⟩) pid p hp⟩
  · rintro ⟨pid, hp⟩
    exact ⟨_, (hpid hp).2.rid⟩
  · rintro ⟨rid, hp⟩
    exact ⟨_, (hrid hp).2.pid⟩

theorem indexing_new : GameNode.new.Indexing := by
  refine ⟨hosting_new, owned_new, fun p hlt => absurd hlt (Nat.not_lt_zero p), fun r hr => ?_, fun r hr => ?_,
    fun r hr => ?_⟩
  · obtain ⟨k, hk⟩ := mem_live.mp hr
    exact nomatch Std.TreeMap.getElem?_emptyc.symm.trans hk
  · obtain ⟨k, hk⟩ := mem_live.mp hr
    exact nomatch Std.TreeMap.getElem?_emptyc.symm.trans hk
  · obtain ⟨k, hk⟩ := mem_live.mp hr
    exact nomatch Std.TreeMap.getElem?_emptyc.symm.trans hk

theorem keyed_stepped {o : GameOp} (h : g.Indexing) (hkeep : g.Keeping pb (.node o)) (heq : g.step pb o = .ok g') :
    g'.Keyed := by
  obtain ⟨hhost, ho, hk⟩ := h
  cases stepped hhost heq with
  | createConn clifd buf msgs ms => exact hk
  | scanTimeout ms => exact hk
  | delTimeout => exact hk
  | quiet hq => exact keyed_quiet hk hq
  | register hmsg hroom hrid hset => exact keyed_register ho hk hroom hrid (hkeep hmsg _ hroom _ hrid) hset
  | @newRoom pid body b g₁ hbody hlen hopen g₂ henter =>
    subst henter
    have hb : b ∈ accepted body := by
      rw [accepted_of_parse hbody, if_pos hlen]
      rfl
    exact keyed_newRoom hhost ho hk hopen ((fresh_entries hlen).mpr (hkeep b hb))
  | badRoom hopen =>
    have hopened := opened hhost hopen
    unfold Keyed live
    dsimp only [RoomMgr.pushRoom]
    rw [hopened.pm, hopened.idMap]
    refine hk.mono fun q hq => Or.inl ⟨hq, ?_⟩
    obtain ⟨k, hkq⟩ := mem_live.mp hq
    have hsame := hopened.same q fun hqr => hopened.fresh k (hqr ▸ hkq)
    exact ⟨hsame.ridPMap, hsame.pidPMap⟩
  | @offline pid p g' hp hq =>
    have hoff : KcpServer.Keyed (g.pm.offline g.kcp p).1 g.rm.rooms (· ∈ g.live) :=
      hk.modify (f := ({ · with off := true })) rfl rfl
    exact keyed_quiet hoff hq
  | enter hroom hp =>
    obtain ⟨-, hpool, hlt⟩ := ho.indexed.pid hp
    exact keyed_enterP ho hk (hk.found _ hlt hpool) rfl rfl
  | update hpass => exact keyed_removes ho.indexed hk hpass.rooms hpass.live hpass.removes

/-- Who owns the players does not depend on the condition on their keys. -/
theorem owned_playerStep (h : g.Indexing) (hkeep : g.Keeping pb o) (heq : g.playerStep pb o = .ok g') : g'.Owned := by
  obtain ⟨hhost, ho, hk⟩ := h
  cases o with
  | node o =>
    refine owned_stepped hhost ho ?_ (stepped hhost heq)
    cases o with
    | enterP body => exact hkeep
    | update ms => exact keeps_update hhost ho hk ms
    | _ => trivial
  | appendP pid rid roomid =>
    cases heq
    obtain ⟨p, players, pool, hpop, heq⟩ := g.pm.appendNew_eq pid rid roomid
    show Owners (g.pm.appendNew pid rid roomid) g.rm.rooms (· ∈ g.live)
    rw [heq]
    exact (ho.pop hpop (Player.new.init pid rid roomid)).1
  | updatePlayer p pid =>
    cases heq
    exact ho.of_players (ho.indexed.updatePlayer hkeep.1.2 hkeep.1.1 pid) rfl rfl
  | removeP rid =>
    cases heq
    show Owners (g.pm.removeP g.kcp rid).1 g.rm.rooms (· ∈ g.live)
    cases hp : g.pm.ridPMap[rid]? with
    | none => rw [PlayerMgr.removeP_of_none hp]; exact ho
    | some p => exact ho.removeP g.kcp hp fun q hq => hkeep p hp q hq

theorem indexing_playerStep (h : g.Indexing) (hkeep : g.Keeping pb o) (heq : g.playerStep pb o = .ok g') :
    g'.Indexing := by
  have howned := owned_playerStep h hkeep heq
  cases o with
  | node o => exact ⟨hosting_stepped h.hosting (stepped h.hosting heq), howned, keyed_stepped h hkeep heq⟩
  | appendP pid rid roomid =>
    cases heq
    refine ⟨h.hosting, howned, ?_⟩
    obtain ⟨p, players, pool, hpop, heq⟩ := g.pm.appendNew_eq pid rid roomid
    show KcpServer.Keyed (g.pm.appendNew pid rid roomid) g.rm.rooms (· ∈ g.live)
    rw [heq]
    exact h.keyed.pop h.owned hpop (P := Player.new.init pid rid roomid) hkeep.1 hkeep.2
  | updatePlayer p pid =>
    cases heq
    exact ⟨h.hosting, howned, h.keyed.updatePlayer hkeep.1.1 hkeep.1.2 hkeep.2⟩
  | removeP rid =>
    cases heq
    refine ⟨h.hosting, howned, ?_⟩
    show KcpServer.Keyed (g.pm.removeP g.kcp rid).1 g.rm.rooms (· ∈ g.live)
    cases hp : g.pm.ridPMap[rid]? with
    | none => rw [PlayerMgr.removeP_of_none hp]; exact h.keyed
    | some p => exact h.keyed.removeP h.owned.indexed g.kcp hp

/-! ## The condition is exact -/

theorem Coherent.not_lost (h : g.Coherent) (p : Nat) : ¬ g.pm.Lost p := by
  intro hlost
  obtain ⟨hpid, hrid⟩ := h.reachable p hlost.lt hlost.used
  exact hlost.notFound ⟨hpid, hrid⟩

/-- The steps whose condition shows at once: a player that `EnterP` puts in a second room, or that `RemoveP` takes from
under a room, is found under its old keys until its object is used again. `UpdatePlayer` is called for a player. -/
def Shows (g : GameNode) : PlayerOp → Prop
  | .node (.enterP _) | .removeP _ => False
  | .updatePlayer p _ => p < g.pm.players.next ∧ p ∉ g.pm.pool
  | _ => True

theorem keeping_newRoom {pid : Nat} {body : Bytes} (h : g.Indexing) (heq : g.newRoom pid body = .ok g')
    (hc : g'.Coherent) : g.Keeping pb (.node (.newRoom pid body)) := by
  intro b hb
  obtain ⟨b', g₁, hbody, -, hopen, hcases⟩ := newRoom_eq_ok heq
  rw [accepted_of_parse hbody] at hb
  rcases hcases with ⟨hlen, rfl⟩ | ⟨hlen, rfl⟩
  · rw [if_pos hlen] at hb
    obtain rfl : b' = b := Option.some.inj hb
    rw [← fresh_entries hlen]
    by_contra hfresh
    have hpm := (opened h.hosting hopen).pm
    have hindexed : g₁.pm.Indexed := by
      rw [hpm]
      exact h.owned.indexed
    rw [← hpm] at hfresh
    obtain ⟨q, hq⟩ := lost_enterNews (r := g.rm.popRoom.1) hindexed hfresh
    exact hc.not_lost q hq
  · rw [if_neg hlen] at hb
    cases hb

theorem keeping_register {obj : KcpCall} {outs : List Out} (h : g.Indexing)
    (heq : g.processKcp pb obj = .ok (g', outs)) (hc : g'.Coherent) : g.Keeping pb (.node (.kcp obj)) := by
  intro hmsg r hroom p hrid
  have hlive : r ∈ g.live := mem_live.mpr ⟨_, hroom⟩
  rw [processKcp_register hmsg hroom hrid] at heq
  obtain ⟨g₁, hreg, heq⟩ := bind_eq_ok.mp heq
  cases heq
  unfold register at hreg
  dsimp only at hreg
  split at hreg
  · cases hreg
  · next pm kcp c hset =>
    cases hreg
    obtain ⟨-, rfl, -⟩ := PlayerMgr.setSessid_eq_ok.mp hset
    set pm := (g.pm.updatePlayer p obj.pid).modify p ({ · with sessid := obj.sessid, pid := obj.pid, off := false })
    have hself : (pm.players p).pid = obj.pid := by simp [pm, PlayerMgr.modify]
    by_contra hne
    -- the room's entry under the old pid is still there
    have hold : ((g.rm.enterP pm.players r p (some c)).rooms r).pidPMap[(g.pm.players p).pid]? = some p := by
      rw [(g.rm.same_enterP pm.players r p (some c)).pidPMap]
      refine insert_eq_some.mpr (Or.inr ⟨?_, h.keyed.both r hlive _ p hrid⟩)
      rw [hself]
      exact hne
    have hget : (g.rm.enterP pm.players r p (some c)).idMap[obj.roomid]? = some r := by
      rw [(RoomMgr.entered_enterP g.rm pm.players r p (some c)).idMap]
      exact hroom
    exact hne ((hc.room hget hold).symm.trans hself)

theorem keeping_appendP {pid : Int} {rid : Nat} {roomid : Int} (h : g.Indexing)
    (hc : ({ g with pm := g.pm.appendNew pid rid roomid } : GameNode).Coherent) :
    g.Keeping pb (.appendP pid rid roomid) := by
  by_contra hused
  obtain ⟨p, players, pool, hpop, heq⟩ := g.pm.appendNew_eq pid rid roomid
  obtain ⟨q, hq⟩ := PlayerMgr.lost_pop h.owned.indexed hpop (Player.new.init pid rid roomid) hused
  refine hc.not_lost q ?_
  show (g.pm.appendNew pid rid roomid).Lost q
  rw [heq]
  exact hq

theorem keeping_updatePlayer {p : Nat} {pid : Int} (h : g.Indexing)
    (hp : p < g.pm.players.next ∧ p ∉ g.pm.pool)
    (hc : ({ g with pm := g.pm.updatePlayer p pid } : GameNode).Coherent) : g.Keeping pb (.updatePlayer p pid) := by
  refine ⟨hp, ?_⟩
  by_cases hcur : (g.pm.players p).pid = pid
  · exact Or.inl hcur
  have hself : ((g.pm.updatePlayer p pid).players p).pid = pid := by
    simp [PlayerMgr.updatePlayer, PlayerMgr.modify, PlayerMgr.appendP]
  refine Or.inr ⟨Option.eq_none_iff_forall_ne_some.mpr fun q hq => ?_, fun r hr hin => ?_⟩
  · -- whoever has the pid loses its entry
    obtain ⟨hkey, hpool, hlt⟩ := h.owned.indexed.pid hq
    have hqp : q ≠ p := by
      rintro rfl
      exact hcur hkey
    have hother : (g.pm.updatePlayer p pid).players q = g.pm.players q := by
      simp [PlayerMgr.updatePlayer, PlayerMgr.modify, PlayerMgr.appendP, Heap.set_of_ne _ hqp]
    have hfound : (g.pm.updatePlayer p pid).pidPMap[((g.pm.updatePlayer p pid).players q).pid]? = some q :=
      (hc.reachable q hlt hpool).1
    rw [hother, hkey] at hfound
    have hpid : (g.pm.updatePlayer p pid).pidPMap[pid]? = some p := by
      simp [PlayerMgr.updatePlayer, PlayerMgr.modify, PlayerMgr.appendP]
    rw [hpid] at hfound
    exact hqp (Option.some.inj hfound).symm
  · obtain ⟨k, hk⟩ := mem_live.mp hr
    obtain ⟨q, hq⟩ := mem_values.mp hin
    have hroom : ((g.pm.updatePlayer p pid).players p).pid = q := hc.room (k := k) hk hq
    rw [hself] at hroom
    exact hcur ((h.keyed.pids r hr q p hq).trans hroom.symm)

theorem keeping_of_coherent (h : g.Indexing) (hshows : g.Shows o) (heq : g.playerStep pb o = .ok g')
    (hc : g'.Coherent) : g.Keeping pb o := by
  cases o with
  | node o =>
    obtain ⟨⟨g₁, outs⟩, hexec, heq⟩ := bind_eq_ok.mp heq
    cases heq
    cases o with
    | kcp obj => exact keeping_register h hexec hc
    | newRoom pid body =>
      obtain ⟨g₂, hnew, heq⟩ := bind_eq_ok.mp hexec
      cases heq
      exact keeping_newRoom h hnew hc
    | enterP body => exact absurd hshows id
    | _ => trivial
  | appendP pid rid roomid =>
    cases heq
    exact keeping_appendP h hc
  | updatePlayer p pid =>
    cases heq
    exact keeping_updatePlayer h hshows hc
  | removeP rid => exact absurd hshows id

/-- **The players' indices agree, with the exact condition.** In every run whose steps meet the condition the players are
indexed under the keys they have, in `playerMgr` and in the registered rooms, and `FrameCmd` accepts a pid only while it
is a player's. The next step keeps it so if it meets the condition, and where the condition shows only then. -/
theorem players_coherent_iff (pb : Pb) (g : GameNode) (h : Reach (playerStep pb) (Keeping pb) .new g) : g.Coherent ∧
    (∀ k r, g.rm.getRoom k = some r → ∀ pid, (∀ p ∈ (g.room r).refs, (g.pm.players p).pid ≠ pid) →
      ∀ body, g.rm.frameCmd pb r pid body = g.rm) ∧
    ∀ o g', g.playerStep pb o = .ok g' →
      (g.Keeping pb o → g'.Coherent) ∧ (g.Shows o → g'.Coherent → g.Keeping pb o) := by
  have hi := h.invariant (I := Indexing) indexing_new fun _ _ _ hs hkeep heq => indexing_playerStep hs hkeep heq
  refine ⟨hi.coherent, fun k r hk pid hnot body => ?_, fun o g' heq => ⟨fun hkeep => ?_, fun hshows => ?_⟩⟩
  · rw [RoomMgr.frameCmd_eq, if_neg]
    intro hsome
    obtain ⟨p, hp⟩ := Option.isSome_iff_exists.mp hsome
    exact hnot p (Room.mem_refs.mpr (Or.inr ⟨pid, hp⟩)) (hi.coherent.room hk hp)
  · exact (indexing_playerStep hi hkeep heq).coherent
  · exact keeping_of_coherent hi hshows heq

/-! ## A registration under another pid -/

/-- A session, two rooms, and a registration of the session for the player of the first one, under `pid`. -/
def registerAs (pid : Int) : List GameOp :=
  [.createConn 5 [] [] 0, digitRoom 1 7, digitRoom 2 8, .kcp ⟨2004, [8, 7], pid, 1, 1⟩]

/-- The room still finds the player under the pid it had before. -/
theorem not_players_coherent : ∃ pb g, Reach (step pb) Env .new g ∧ ¬ g.Coherent := by
  obtain ⟨g, hg, hroom, hp, hpid⟩ := exists_run (P := Env) (registerAs 3)
    (fun g => g.rm.getRoom 1 = some 0 ∧ (g.room 0).getP 1 = some 0 ∧ (g.pm.players 0).pid = 3) (by decide +kernel)
  refine ⟨ridParser, g, hg, fun hc => ?_⟩
  have := hc.room hroom hp
  omega

/-- A registration under the player's own pid, and then a pass that finishes the room. -/
theorem players_coherent_finish : ∃ g : GameNode, g.live = [1] ∧ g.pm.pool = [0] ∧ (g.Coherent ∧
    (∀ k r, g.rm.getRoom k = some r → ∀ pid, (∀ p ∈ (g.room r).refs, (g.pm.players p).pid ≠ pid) →
      ∀ body, g.rm.frameCmd ridParser r pid body = g.rm) ∧
    ∀ o g', g.playerStep ridParser o = .ok g' →
      (g.Keeping ridParser o → g'.Coherent) ∧ (g.Shows o → g'.Coherent → g.Keeping ridParser o)) := by
  have hrun : (runIf (playerStep ridParser) (fun g o => decide (g.Keeping ridParser o)) .new
      ((registerAs 1 ++ [GameOp.overRoom 1 1, GameOp.update 5]).map PlayerOp.node)).any
        (fun g => decide (g.live = [1] ∧ g.pm.pool = [0])) = true := by decide +kernel
  obtain ⟨g, hg, hq⟩ := Reach.of_runIf_any (P := Keeping ridParser) (fun _ _ ho => of_decide_eq_true ho) hrun
  obtain ⟨hlive, hpool⟩ := of_decide_eq_true hq
  exact ⟨g, hlive, hpool, players_coherent_iff ridParser g hg⟩

end GameNode

end KcpServer
