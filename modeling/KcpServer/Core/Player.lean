import KcpServer.Kcp.Server

/-!
# `playerObj` and `playerMgr`

`playerObj`s are reused through a pool. A player is found by its rid and by its current pid; `Indexed` is what the
operations keep of these two maps and the pool.
-/

namespace KcpServer
open Lib

/-- `playerObj` -/
structure Player where
  pid : Int
  sessid : Int
  rid : Nat
  roomid : Int
  off : Bool
  camp : Int

namespace Player

/-- A `new playerObj`, whose constructor sets nothing; `init` does before anything is read. -/
def new : Player := ⟨0, 0, 0, 0, false, 0⟩

/-- `playerObj::init` -/
def init (_p : Player) (pid : Int) (rid : Nat) (roomid : Int) : Player where
  pid
  rid
  roomid
  sessid := 0
  off := false
  camp := 2

end Player

/-- `playerMgr`, with the objects. -/
structure PlayerMgr where
  players : Heap Player
  ridPMap : Std.TreeMap Nat Nat
  pidPMap : Std.TreeMap Int Nat
  pool : List Nat

namespace PlayerMgr

/-- `playerMgr::playerMgr`; `POOL_PLAYEROBJ` is 0. -/
def new : PlayerMgr := ⟨.replicate 0 .new, ∅, ∅, []⟩

/-- `playerMgr::popPlayer` -/
def popPlayer (m : PlayerMgr) : Nat × PlayerMgr :=
  let (p, players, pool) := pop m.players m.pool .new
  (p, { m with players, pool })

def taken (m : PlayerMgr) : Nat → List Nat
  | 0 => []
  | n + 1 => m.popPlayer.1 :: m.popPlayer.2.taken n

/-- `playerMgr::pushPlayer` -/
def pushPlayer (m : PlayerMgr) (p : Nat) : PlayerMgr := { m with pool := m.pool ++ [p] }

def modify (m : PlayerMgr) (p : Nat) (f : Player → Player) : PlayerMgr :=
  { m with players := m.players.set p (f (m.players p)) }

/-- `playerMgr::AppendP` -/
def appendP (m : PlayerMgr) (p : Nat) : PlayerMgr :=
  { m with
    ridPMap := m.ridPMap.insert (m.players p).rid p
    pidPMap := m.pidPMap.insert (m.players p).pid p }

/-- `playerMgr::UpdatePlayer` -/
def updatePlayer (m : PlayerMgr) (p : Nat) (pid : Int) : PlayerMgr :=
  let m := { m with pidPMap := m.pidPMap.erase (m.players p).pid }
  (m.modify p ({ · with pid })).appendP p

/-- `playerMgr::GetP` -/
def getP (m : PlayerMgr) (pid : Int) : Option Nat := m.pidPMap[pid]?

/-- `playerMgr::GetPByRid` -/
def getPByRid (m : PlayerMgr) (rid : Nat) : Option Nat := m.ridPMap[rid]?

/-- `playerObj::Offline` -/
def offline (m : PlayerMgr) (kcp : KCPServer) (p : Nat) : PlayerMgr × KCPServer :=
  (m.modify p ({ · with off := true }), kcp.closeConn (m.players p).sessid)

/-- `playerMgr::RemoveP` -/
def removeP (m : PlayerMgr) (kcp : KCPServer) (rid : Nat) : PlayerMgr × KCPServer :=
  match m.ridPMap[rid]? with
  | none => (m, kcp)
  | some p =>
    let (m, kcp) := m.offline kcp p
    let m := { m with ridPMap := m.ridPMap.erase rid, pidPMap := m.pidPMap.erase (m.players p).pid }
    (m.pushPlayer p, kcp)

/-- `playerObj::setSessid`; the connection it binds comes back through the reference. -/
def setSessid (m : PlayerMgr) (kcp : KCPServer) (p : Nat) (id pid : Int) : Except Fault (PlayerMgr × KCPServer × Nat) :=
  let kcp := if (m.players p).sessid ≠ 0 then kcp.rawCloseConn (m.players p).sessid else kcp
  let m := m.modify p ({ · with sessid := id, pid })
  match kcp.bindConn id with
  | (_, none) => .error .assertion
  | (kcp, some ref) => .ok (m.modify p ({ · with off := false }), kcp, ref)

/-! ## Removing a player -/

section Remove
variable {m : PlayerMgr} {kcp : KCPServer} {rid p : Nat}

theorem removeP_of_none (h : m.ridPMap[rid]? = none) : m.removeP kcp rid = (m, kcp) := by
  unfold removeP
  rw [h]

/-- A removed player's session is closed, and its object goes back to the pool. -/
theorem removeP_of_some (h : m.ridPMap[rid]? = some p) : m.removeP kcp rid =
    (⟨m.players.set p { m.players p with off := true }, m.ridPMap.erase rid, m.pidPMap.erase (m.players p).pid,
      m.pool ++ [p]⟩, kcp.closeConn (m.players p).sessid) := by
  unfold removeP
  rw [h]
  simp only [offline, modify, pushPlayer, Heap.set_self]

end Remove

/-! ## The indices -/

/-- Who is in a map has its key there and is not in the pool. -/
structure Indexed (m : PlayerMgr) : Prop where
  free : FreeList m.players m.pool
  rid : ∀ {k p : Nat}, m.ridPMap[k]? = some p → (m.players p).rid = k ∧ p ∉ m.pool ∧ p < m.players.next
  pid : ∀ {k : Int} {p : Nat}, m.pidPMap[k]? = some p → (m.players p).pid = k ∧ p ∉ m.pool ∧ p < m.players.next

theorem indexed_new : new.Indexed where
  free := FreeList.range _ _
  rid h := nomatch Std.TreeMap.getElem?_emptyc.symm.trans h
  pid h := nomatch Std.TreeMap.getElem?_emptyc.symm.trans h

section Indices
variable {m : PlayerMgr} {p : Nat}

theorem Indexed.modify (h : m.Indexed) {f : Player → Player} (hrid : (f (m.players p)).rid = (m.players p).rid)
    (hpid : (f (m.players p)).pid = (m.players p).pid) : (m.modify p f).Indexed := by
  have hkeys : ∀ q, ((m.modify p f).players q).rid = (m.players q).rid ∧
      ((m.modify p f).players q).pid = (m.players q).pid := by
    intro q
    by_cases hq : q = p
    · subst hq
      simp [PlayerMgr.modify, hrid, hpid]
    · simp [PlayerMgr.modify, Heap.set_of_ne _ hq]
  refine ⟨h.free.set _ _, fun {k q} hk => ?_, fun {k q} hk => ?_⟩
  · rw [(hkeys q).1]
    exact h.rid hk
  · rw [(hkeys q).2]
    exact h.pid hk

theorem Indexed.appendP (h : m.Indexed) (hp : p ∉ m.pool) (hlt : p < m.players.next) : (m.appendP p).Indexed := by
  refine ⟨h.free, fun {k q} hk => ?_, fun {k q} hk => ?_⟩
  · rcases insert_eq_some.mp hk with ⟨rfl, rfl⟩ | ⟨-, hk⟩
    · exact ⟨rfl, hp, hlt⟩
    · exact h.rid hk
  · rcases insert_eq_some.mp hk with ⟨rfl, rfl⟩ | ⟨-, hk⟩
    · exact ⟨rfl, hp, hlt⟩
    · exact h.pid hk

theorem Indexed.updatePlayer (h : m.Indexed) (hp : p ∉ m.pool) (hlt : p < m.players.next) (pid : Int) :
    (m.updatePlayer p pid).Indexed := by
  refine Indexed.appendP ?_ hp hlt
  refine ⟨h.free.set _ _, fun {k q} hk => ?_, fun {k q} hk => ?_⟩
  · obtain ⟨hrid, hq⟩ := h.rid hk
    refine ⟨?_, hq⟩
    by_cases hqp : q = p
    · subst hqp
      simpa [PlayerMgr.modify] using hrid
    · simpa [PlayerMgr.modify, Heap.set_of_ne _ hqp] using hrid
  · obtain ⟨hne, hk⟩ := erase_eq_some.mp hk
    obtain ⟨hpid, hq⟩ := h.pid hk
    refine ⟨?_, hq⟩
    have hqp : q ≠ p := by
      rintro rfl
      exact hne hpid.symm
    simpa [PlayerMgr.modify, Heap.set_of_ne _ hqp] using hpid

/-- A player object in use is not the one that is taken, and stays as it is. -/
theorem Indexed.pop_old (h : m.Indexed) {players : Heap Player} {pool : List Nat}
    (hpop : Lib.pop m.players m.pool .new = (p, players, pool)) (P : Player) {q : Nat} (hq : q ∉ m.pool)
    (hlt : q < m.players.next) : q ≠ p ∧ players.set p P q = m.players q ∧ q ∉ pool ∧ q < players.next := by
  obtain ⟨-, -, -, horigin, hle, hsub, hsame, -⟩ := h.free.pop _ hpop
  have hqp : q ≠ p := by
    rintro rfl
    rcases horigin with hin | hnew
    · exact hq hin
    · omega
  refine ⟨hqp, ?_, fun hin => hq (hsub q hin), lt_of_lt_of_le hlt hle⟩
  rw [Heap.set_of_ne _ hqp, hsame q hlt]

theorem Indexed.pop (h : m.Indexed) {players : Heap Player} {pool : List Nat}
    (hpop : Lib.pop m.players m.pool .new = (p, players, pool)) (P : Player) :
    (⟨players.set p P, m.ridPMap.insert P.rid p, m.pidPMap.insert P.pid p, pool⟩ : PlayerMgr).Indexed := by
  obtain ⟨hfree, hlt, hnot, -⟩ := h.free.pop _ hpop
  refine ⟨hfree.set _ _, fun {k q} hk => ?_, fun {k q} hk => ?_⟩
  · rcases insert_eq_some.mp hk with ⟨rfl, rfl⟩ | ⟨-, hk⟩
    · exact ⟨by simp, hnot, hlt⟩
    · obtain ⟨hrid, hq, hqlt⟩ := h.rid hk
      obtain ⟨-, heq, hq⟩ := h.pop_old hpop P hq hqlt
      exact ⟨by rw [heq]; exact hrid, hq⟩
  · rcases insert_eq_some.mp hk with ⟨rfl, rfl⟩ | ⟨-, hk⟩
    · exact ⟨by simp, hnot, hlt⟩
    · obtain ⟨hpid, hq, hqlt⟩ := h.pid hk
      obtain ⟨-, heq, hq⟩ := h.pop_old hpop P hq hqlt
      exact ⟨by rw [heq]; exact hpid, hq⟩

theorem Indexed.removeP (h : m.Indexed) (kcp : KCPServer) (rid : Nat) : (m.removeP kcp rid).1.Indexed := by
  cases hp : m.ridPMap[rid]? with
  | none => rw [removeP_of_none hp]; exact h
  | some p =>
    obtain ⟨hrid, hpool, hlt⟩ := h.rid hp
    have hkeys := h.modify (p := p) (f := ({ · with off := true })) rfl rfl
    rw [removeP_of_some hp]
    refine ⟨hkeys.free.push hpool hlt, fun {k q} hk => ?_, fun {k q} hk => ?_⟩
    · obtain ⟨hne, hk⟩ := erase_eq_some.mp hk
      obtain ⟨hqrid, hq, hqlt⟩ := hkeys.rid hk
      refine ⟨hqrid, fun hin => ?_, hqlt⟩
      rcases List.mem_append.mp hin with hin | hin
      · exact hq hin
      · rw [List.mem_singleton.mp hin] at hk
        exact hne ((h.rid hk).1.symm.trans hrid)
    · obtain ⟨hne, hk⟩ := erase_eq_some.mp hk
      obtain ⟨hqpid, hq, hqlt⟩ := hkeys.pid hk
      refine ⟨hqpid, fun hin => ?_, hqlt⟩
      rcases List.mem_append.mp hin with hin | hin
      · exact hq hin
      · rw [List.mem_singleton.mp hin] at hk
        exact hne (h.pid hk).1.symm

end Indices

end PlayerMgr

end KcpServer
