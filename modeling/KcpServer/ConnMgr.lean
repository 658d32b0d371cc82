import KcpServer.Conn
import KcpServer.Lib.Map

/-!
# `connmgr` and the event queue of `net`

`ConnObjMgr` owns the connections by session id and finds them by descriptor; `NetServer` queues what the epoll thread
and the connections report and applies it in `processQueue`.

Calls to the gate and closing of descriptors happen outside of the tables: `OnInit` and `OnClose` report to the gate with
a `RegConn` call, which is returned with the result.
-/

namespace KcpServer
open Lib

/-- `NET_OP_ST::paddr`, an array of 64 bytes. -/
structure PeerAddr extends CStr where
  length_le : toCStr.length ≤ 63

/-- The arguments of a `RegConn` call to the gate. -/
structure RegConn where
  pid : Int
  msgid : Nat
  body : Bytes

namespace ConnObj

/-- `connObj::OnInit`; `strcpy` leaves what the array held behind the string. -/
def onInit (c : ConnObj) (paddr : PeerAddr) (bnet : Bool) : ConnObj × List RegConn :=
  ({ c with remoteAddr := ⟨memcpy c.remoteAddr.bytes 0 (paddr.bytes ++ [0]), by
      have := c.remoteAddr.size
      have hle : paddr.bytes.length ≤ 63 := paddr.length_le
      rw [length_memcpy (by rw [List.length_append, List.length_singleton]; omega)]
      exact this⟩ },
    if bnet then [⟨c.pid, 1, paddr.bytes⟩] else [])

/-- `connObj::OnClose` -/
def onClose (c : ConnObj) (btimeOut : Bool) : ConnObj × List RegConn :=
  ({ c with bclose := true }, [⟨c.pid, if btimeOut then 3 else 2, []⟩])

end ConnObj

/-- `connObjMgr`, with `connRpcObj::m_inst` as the session id of the connection it points to. -/
structure ConnObjMgr where
  connMap : Std.TreeMap Int ConnObj
  connFdMap : Std.TreeMap Int Int
  connPidGameMap : Std.TreeMap Int Bytes
  writeFdMap : Std.TreeMap Int Int
  maxSessid : Int
  inst : Option Int

namespace ConnObjMgr

/-- `connObjMgr::connObjMgr` -/
def new : ConnObjMgr := ⟨∅, ∅, ∅, ∅, 1, none⟩

/-- The body of the loop of `connObjMgr::CreateConnBatch`: one connection. -/
def createConn (g : ConnObjMgr) (bNet : Bool) (fd : Int) (paddr : PeerAddr) :
    Except Fault (ConnObjMgr × List RegConn) :=
  -- `maxSessid++`
  if g.maxSessid ≥ 2 ^ 31 - 1 then
    .error .overflow
  else
    let pid := g.maxSessid
    let c := if bNet then (ConnObj.new .net fd).setPid pid else ((ConnObj.new .rpc fd).setPid pid).setRpc
    let (c, regs) := c.onInit paddr bNet
    return ({ g with
      connMap := g.connMap.insert pid c
      connFdMap := g.connFdMap.insert fd pid
      maxSessid := g.maxSessid + 1
      inst := if bNet then g.inst else some pid }, regs)

/-- `connObjMgr::CreateConnBatch` -/
def createConnBatch (g : ConnObjMgr) (bNet : Bool) : List (Int × PeerAddr) → Except Fault (ConnObjMgr × List RegConn)
  | [] => return (g, [])
  | (fd, paddr) :: plist => do
    let (g, regs) ← g.createConn bNet fd paddr
    let (g, regs') ← createConnBatch g bNet plist
    return (g, regs ++ regs')

/-- `connObjMgr::rawGetConnByPid`, `connObjMgr::GetConnByPid` -/
def rawGetConnByPid (g : ConnObjMgr) (pid : Int) : Option ConnObj := g.connMap[pid]?

/-- `connObjMgr::GetConn` -/
def getConn (g : ConnObjMgr) (fd : Int) : Option ConnObj := g.connFdMap[fd]?.bind g.rawGetConnByPid

/-- `connObjMgr::DelConn` -/
def delConn (g : ConnObjMgr) (fd : Int) (btimeOut : Bool) : ConnObjMgr × List RegConn :=
  match g.connFdMap[fd]? with
  | none => (g, [])
  | some pid =>
    match g.rawGetConnByPid pid with
    | none => (g, [])
    | some p =>
      let (p, regs) := p.onClose btimeOut
      ({ g with
        connFdMap := g.connFdMap.erase fd
        writeFdMap := g.writeFdMap.erase p.fd
        connMap := g.connMap.erase p.pid
        connPidGameMap := g.connPidGameMap.erase p.pid
        inst := if p.rpc then none else g.inst }, regs)

/-- `connObjMgr::AddWriteConn` -/
def addWriteConn (g : ConnObjMgr) (fd : Int) (p : ConnObj) : ConnObjMgr :=
  { g with writeFdMap := g.writeFdMap.insert fd p.pid }

/-- What a `send` does to the object at `pid` and to the tables: the descriptors to be closed, and the bytes written. -/
def sendAt (g : ConnObjMgr) (pid : Int) (p : ConnObj) (buf : Option Bytes) (ws : List WriteRes) :
    Except Fault (ConnObjMgr × List Int × Bytes) := do
  let out ← p.send buf ws
  let g := { g with connMap := g.connMap.insert pid out.conn }
  match out.result with
  | .done => return (g, [], out.bytes)
  | .addWrite => return (g.addWriteConn out.conn.fd out.conn, [], out.bytes)
  | .quit => return (g, [out.conn.fd], out.bytes)

/-- `connObjMgr::SendMsg` -/
def sendMsg (g : ConnObjMgr) (pid : Int) (pmem : Bytes) (ws : List WriteRes) : Except Fault (ConnObjMgr × List Int) :=
  match g.rawGetConnByPid pid with
  | none => return (g, [])
  | some p => do
    let (g, quits, _) ← g.sendAt pid p (some pmem) ws
    return (g, quits)

/-- The loop of `connObjMgr::SendMsgAll` over the entries of `m_connFdMap`; `ws` are the answers of `write` for each
session. -/
def sendMsgAllLoop (pmem : Bytes) (ws : Int → List WriteRes) :
    List (Int × Int) → ConnObjMgr → Except Fault (ConnObjMgr × List Int)
  | [], g => return (g, [])
  | (fd, pid) :: es, g =>
    match g.rawGetConnByPid pid with
    | none => sendMsgAllLoop pmem ws es { g with connFdMap := g.connFdMap.erase fd }
    | some p => do
      let (g, quits, _) ← g.sendAt pid p (some pmem) (ws pid)
      let (g, quits') ← sendMsgAllLoop pmem ws es g
      return (g, quits ++ quits')

/-- `connObjMgr::SendMsgAll` -/
def sendMsgAll (g : ConnObjMgr) (pmem : Bytes) (ws : Int → List WriteRes) : Except Fault (ConnObjMgr × List Int) :=
  sendMsgAllLoop pmem ws g.connFdMap.toList g

/-- The loop of `connObjMgr::processAllWrite` over the entries of `m_writeFdMap`. The map changes while it is walked
through, but only at the entry that the walk stands at: a connection's `AddWriteConn` writes the entry of its own
descriptor, the one it was found under. -/
def processAllWriteLoop (ws : Int → List WriteRes) :
    List (Int × Int) → ConnObjMgr → Except Fault (ConnObjMgr × List Int)
  | [], g => return (g, [])
  | (fd, pid) :: es, g =>
    match g.rawGetConnByPid pid with
    | none => processAllWriteLoop ws es { g with writeFdMap := g.writeFdMap.erase fd }
    | some p => do
      let (g, quits, _) ← g.sendAt pid p none (ws pid)
      -- `send` returns 0 whatever happened
      let (g, quits') ← processAllWriteLoop ws es { g with writeFdMap := g.writeFdMap.erase fd }
      return (g, quits ++ quits')

/-- `connObjMgr::processAllWrite` -/
def processAllWrite (g : ConnObjMgr) (ws : Int → List WriteRes) : Except Fault (ConnObjMgr × List Int) :=
  processAllWriteLoop ws g.writeFdMap.toList g

end ConnObjMgr

namespace ConnObjMgr

/-! ### The tables -/

def Live (g : ConnObjMgr) (fd : Int) : Prop := (g.getConn fd).isSome

/-- What the tables of a manager have in common, whatever happened to it. -/
structure Coherent (g : ConnObjMgr) : Prop where
  conn_of_fd : ∀ {fd pid}, g.connFdMap[fd]? = some pid → ∃ c : ConnObj, g.connMap[pid]? = some c ∧ c.fd = fd ∧ c.pid = pid
  pid_lt : ∀ {pid c}, g.connMap[pid]? = some c → pid < g.maxSessid
  maxSessid_lt : g.maxSessid < 2 ^ 31

theorem coherent_new : Coherent new := by
  refine ⟨fun h => ?_, fun h => ?_, by decide⟩ <;> simp [new] at h

theorem live_iff {g : ConnObjMgr} (hg : g.Coherent) {fd : Int} : g.Live fd ↔ ∃ pid, g.connFdMap[fd]? = some pid := by
  constructor
  · intro h
    obtain ⟨c, hc⟩ := Option.isSome_iff_exists.mp h
    obtain ⟨pid, hpid, -⟩ := Option.bind_eq_some_iff.mp hc
    exact ⟨pid, hpid⟩
  · rintro ⟨pid, hpid⟩
    obtain ⟨c, hc, -⟩ := hg.conn_of_fd hpid
    rw [Live, getConn, hpid, Option.bind_some, rawGetConnByPid, hc]
    rfl

/-- What creating a connection does to the tables, where the session ids have not run out. -/
theorem createConn_ok {g : ConnObjMgr} (h : g.maxSessid < 2 ^ 31 - 1) (bNet : Bool) (fd : Int) (paddr : PeerAddr) :
    ∃ g' regs c, g.createConn bNet fd paddr = .ok (g', regs) ∧
      (c.fd = fd ∧ c.pid = g.maxSessid ∧ c.bclose = false ∧ c.sendBufLen = 0) ∧
      g'.connMap = g.connMap.insert g.maxSessid c ∧ g'.connFdMap = g.connFdMap.insert fd g.maxSessid ∧
      g'.writeFdMap = g.writeFdMap ∧ g'.maxSessid = g.maxSessid + 1 := by
  unfold createConn
  rw [if_neg (by omega)]
  cases bNet <;> exact ⟨_, _, _, rfl, ⟨rfl, rfl, rfl, rfl⟩, rfl, rfl, rfl, rfl⟩

theorem maxSessid_lt_of_createConn {g : ConnObjMgr} {bNet : Bool} {fd : Int} {paddr : PeerAddr}
    {r : ConnObjMgr × List RegConn} (h : g.createConn bNet fd paddr = .ok r) : g.maxSessid < 2 ^ 31 - 1 := by
  by_contra hle
  rw [createConn, if_pos (by omega)] at h
  cases h

theorem coherent_createConn {g g' : ConnObjMgr} (hg : g.Coherent) {bNet : Bool} {fd : Int} {paddr : PeerAddr}
    {regs : List RegConn} (h : g.createConn bNet fd paddr = .ok (g', regs)) :
    g'.Coherent ∧ g'.maxSessid = g.maxSessid + 1 ∧ ∀ fd', g'.Live fd' ↔ fd' = fd ∨ g.Live fd' := by
  have hmax := maxSessid_lt_of_createConn h
  obtain ⟨g₁, regs₁, c, h', ⟨hfd, hpid, -⟩, hmap, hfdmap, -, hsess⟩ := createConn_ok hmax bNet fd paddr
  rw [h] at h'
  cases h'
  have hg' : g'.Coherent := by
    refine ⟨?_, ?_, by rw [hsess]; omega⟩
    · intro fd' pid hp
      rw [hfdmap, insert_eq_some] at hp
      rcases hp with ⟨rfl, rfl⟩ | ⟨-, hp⟩
      · exact ⟨c, by rw [hmap, insert_eq_some]; exact Or.inl ⟨rfl, rfl⟩, hfd, hpid⟩
      · obtain ⟨c', hc', hfd', hpid'⟩ := hg.conn_of_fd hp
        have hlt := hg.pid_lt hc'
        exact ⟨c', by rw [hmap, insert_eq_some]; exact Or.inr ⟨by omega, hc'⟩, hfd', hpid'⟩
    · intro pid c' hp
      rw [hmap, insert_eq_some] at hp
      rw [hsess]
      rcases hp with ⟨rfl, -⟩ | ⟨-, hp⟩
      · omega
      · have := hg.pid_lt hp
        omega
  refine ⟨hg', hsess, fun fd' => ?_⟩
  rw [live_iff hg', live_iff hg, hfdmap]
  simp only [insert_eq_some]
  by_cases heq : fd' = fd
  · simp [heq]
  · simp [heq]

theorem delConn_of_getConn_none {g : ConnObjMgr} {fd : Int} (hc : g.getConn fd = none) (btimeOut : Bool) :
    g.delConn fd btimeOut = (g, []) := by
  unfold delConn
  split
  · rfl
  · next pid hpid =>
    rw [getConn, hpid, Option.bind_some] at hc
    rw [hc]

theorem delConn_of_getConn {g : ConnObjMgr} {fd : Int} {c : ConnObj} (hc : g.getConn fd = some c) (btimeOut : Bool) :
    g.delConn fd btimeOut = ({ g with
      connFdMap := g.connFdMap.erase fd
      writeFdMap := g.writeFdMap.erase c.fd
      connMap := g.connMap.erase c.pid
      connPidGameMap := g.connPidGameMap.erase c.pid
      inst := if c.rpc then none else g.inst }, [⟨c.pid, if btimeOut then 3 else 2, []⟩]) := by
  obtain ⟨pid, hpid, hmap⟩ := Option.bind_eq_some_iff.mp hc
  rw [delConn, hpid]
  dsimp only
  rw [hmap]
  rfl

theorem delConn_none {g : ConnObjMgr} {fd : Int} (h : g.connFdMap[fd]? = none) (btimeOut : Bool) :
    g.delConn fd btimeOut = (g, []) := by
  rw [delConn, h]

theorem delConn_some {g : ConnObjMgr} {fd pid : Int} {p : ConnObj} (hpid : g.connFdMap[fd]? = some pid)
    (hp : g.connMap[pid]? = some p) (hppid : p.pid = pid) (btimeOut : Bool) :
    (g.delConn fd btimeOut).1.connFdMap = g.connFdMap.erase fd ∧
      (g.delConn fd btimeOut).1.connMap = g.connMap.erase pid ∧
      (g.delConn fd btimeOut).1.writeFdMap = g.writeFdMap.erase p.fd ∧
      (g.delConn fd btimeOut).1.maxSessid = g.maxSessid := by
  rw [delConn, hpid]
  dsimp only
  rw [rawGetConnByPid, hp, ← hppid]
  exact ⟨rfl, rfl, rfl, rfl⟩

theorem coherent_delConn {g : ConnObjMgr} (hg : g.Coherent) (fd : Int) (btimeOut : Bool) :
    (g.delConn fd btimeOut).1.Coherent ∧ (g.delConn fd btimeOut).1.maxSessid = g.maxSessid ∧
      ∀ fd', (g.delConn fd btimeOut).1.Live fd' ↔ fd' ≠ fd ∧ g.Live fd' := by
  cases hpid : g.connFdMap[fd]? with
  | none =>
    rw [delConn_none hpid]
    refine ⟨hg, rfl, fun fd' => ⟨fun h => ⟨?_, h⟩, fun h => h.2⟩⟩
    rintro rfl
    obtain ⟨pid, hp⟩ := (live_iff hg).mp h
    rw [hpid] at hp
    cases hp
  | some pid =>
    obtain ⟨p, hp, hfd, hppid⟩ := hg.conn_of_fd hpid
    obtain ⟨hfdmap, hmap, -, hsess⟩ := delConn_some hpid hp hppid btimeOut
    have hcoh : (g.delConn fd btimeOut).1.Coherent := by
      refine ⟨?_, ?_, by rw [hsess]; exact hg.maxSessid_lt⟩
      · intro fd' pid' hp'
        rw [hfdmap, erase_eq_some] at hp'
        obtain ⟨c', hc', hfd', hpid'⟩ := hg.conn_of_fd hp'.2
        refine ⟨c', ?_, hfd', hpid'⟩
        rw [hmap, erase_eq_some]
        refine ⟨?_, hc'⟩
        rintro rfl
        rw [hp] at hc'
        cases hc'
        exact hp'.1 (hfd'.symm.trans hfd)
      · intro pid' c' hp'
        rw [hmap, erase_eq_some] at hp'
        rw [hsess]
        exact hg.pid_lt hp'.2
    refine ⟨hcoh, hsess, fun fd' => ?_⟩
    rw [live_iff hcoh, live_iff hg, hfdmap]
    simp only [erase_eq_some]
    exact exists_and_left

end ConnObjMgr

/-! ## The event queue -/

inductive NetOp
  | newConn (fd : Int) (paddr : PeerAddr)
  | dataIn (fd : Int)
  | quitConn (fd : Int)

/-- `netServer::m_netQueue`, `m_readFdMap` and `m_bNet`, with the connection manager. -/
structure NetServer where
  netQueue : List NetOp
  readFdMap : Std.TreeMap Int Bool
  bNet : Bool
  mgr : ConnObjMgr

namespace NetServer

/-- The loop of `netServer::queueProcessFun` over `m_netQueue`, with `listNew`. -/
def drainQueue : List NetOp → NetServer → List (Int × PeerAddr) → NetServer × List (Int × PeerAddr) × List RegConn
  | [], s, listNew => ({ s with netQueue := [] }, listNew, [])
  | .newConn fd paddr :: q, s, listNew => drainQueue q s (listNew ++ [(fd, paddr)])
  | .dataIn fd :: q, s, listNew => drainQueue q { s with readFdMap := s.readFdMap.insert fd true } listNew
  | .quitConn fd :: q, s, listNew =>
    let (mgr, regs) := s.mgr.delConn fd false
    let (s, listNew, regs') := drainQueue q { s with mgr } listNew
    (s, listNew, regs ++ regs')

/-- The part of `netServer::queueProcessFun` that applies the queue. -/
def processQueue (s : NetServer) : Except Fault (NetServer × List RegConn) := do
  let (s, listNew, regs) := drainQueue s.netQueue s []
  let (mgr, regs') ← s.mgr.createConnBatch s.bNet listNew
  return ({ s with mgr }, regs ++ regs')

end NetServer

end KcpServer
