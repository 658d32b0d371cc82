import KcpServer.Core.Room
import KcpServer.Lib.CString
import KcpServer.Lib.Transition

/-!
# `rpcGameHandle`: what a game node does

The handlers of the RPCs from gate and net, `processKcp` for the messages of KCP sessions, and the steps of a node:
`GameOp`. Session events and the frame clock are steps as well, and the timeout of the epoll thread is two of them, the
scan and each deletion.
-/

namespace KcpServer
open Lib

/-! ## `NewRoom` -/

/-- What `rpcGameHandle::NewRoom` reads out of a body. -/
structure NewRoomBody where
  pidvec : List Int
  ridvec : List Nat
  campvec : List Int
  delta : Nat

/-- The parser of `rpcGameHandle::NewRoom`. The arrays have 16 elements and none is initialised. -/
def parseNewRoom (body : Bytes) : Except Fault NewRoomBody :=
  let svec := strtok 124 body
  if svec.length > 16 then
    .error .bounds
  else
    match svec with
    | pids :: rids :: delta :: camps :: _ =>
      let pidvec := (strtok 44 pids).map atoi
      let ridvec := (strtok 44 rids).map atoull
      let campvec := (strtok 44 camps).map atoi
      if pidvec.length > 16 ∨ ridvec.length > 16 ∨ campvec.length > 16 then
        .error .bounds
      else
        .ok ⟨pidvec, ridvec, campvec, uint32 (atoi delta)⟩
    | _ => .error .uninit

namespace GameNode

/-- One iteration of the enter loop of `NewRoom`. -/
def enterNew (g : GameNode) (r : Nat) (pid : Int) (rid : Nat) (camp : Int) : GameNode :=
  let (p, pm) := g.pm.popPlayer
  let pm := pm.modify p (·.init pid rid (g.room r).roomid)
  let pm := pm.appendP p
  let pm := pm.modify p ({ · with camp })
  { g with pm, rm := g.rm.enterP pm.players r p none }

/-- The enter loop of `NewRoom`. -/
def enterNews (g : GameNode) (r : Nat) : List (Int × Nat × Int) → GameNode
  | [] => g
  | (pid, rid, camp) :: es => (g.enterNew r pid rid camp).enterNews r es

/-- `rpcGameHandle::NewRoom` -/
def newRoom (g : GameNode) (pid : Nat) (body : Bytes) : Except Fault GameNode := do
  let (r, rm) := g.rm.popRoom
  let rm := rm.modify r (·.init (int32 pid))
  let b ← parseNewRoom body
  let rm := rm.modify r (·.updateDelta b.delta)
  if b.pidvec.length = b.ridvec.length ∧ b.ridvec.length = b.campvec.length then
    let g := { g with rm }.enterNews r (b.pidvec.zip (b.ridvec.zip b.campvec))
    return { g with rm := g.rm.appendR r }
  else
    return { g with rm := rm.pushRoom r }

/-! ## The other RPCs of gate -/

/-- `rpcGameHandle::OverRoom` -/
def overRoom (g : GameNode) (pid msgid : Nat) : GameNode :=
  match g.rm.getRoom (int32 pid) with
  | none => g
  | some r => g.modifyRoom r (·.setOver (msgid = 1))

/-- `rpcGameHandle::AllPReady` -/
def allPReady (g : GameNode) (pid : Nat) : GameNode :=
  match g.rm.getRoom (int32 pid) with
  | none => g
  | some r => g.modifyRoom r (·.setReady)

/-- `LeaveP` in the room that a player says it is in. -/
def leaveRoom (g : GameNode) (p : Nat) : GameNode :=
  match g.rm.getRoom (g.pm.players p).roomid with
  | none => g
  | some r => { g with rm := g.rm.leaveP g.pm.players r p }

/-- `rpcGameHandle::OfflineP` -/
def offlineP (g : GameNode) (pid : Nat) : GameNode :=
  match g.pm.getPByRid pid with
  | none => g
  | some p =>
    let (pm, kcp) := g.pm.offline g.kcp p
    { g with pm, kcp }.leaveRoom p

/-- `rpcGameHandle::LeaveP` -/
def leaveP (g : GameNode) (pid : Nat) : GameNode :=
  match g.pm.getP (int32 pid) with
  | none => g
  | some p => g.leaveRoom p

/-- `rpcGameHandle::EnterP`, whose player is looked up by `int(rid)` among the pids. -/
def enterP (g : GameNode) (body : Bytes) : Except Fault GameNode := do
  let ptks := strtok 44 body
  let rid := (ptks[0]?.map atoull).getD 0
  let pid := (ptks[1]?.map atoi).getD 0
  let roomid := (ptks[2]?.map atoi).getD 0
  assert (rid ≠ 0)
  assert (pid ≠ 0)
  assert (roomid ≠ 0)
  match g.rm.getRoom roomid with
  | none => return g
  | some r =>
    match g.pm.getP (int32 rid) with
    | none => return g
    | some p => return { g with rm := g.rm.enterP g.pm.players r p none }

/-- `rpcGameHandle::Api_2003` -/
def api2003 (pb : Pb) (g : GameNode) (pid : Nat) (body : Bytes) : List Out :=
  match g.pm.getP (int32 pid) with
  | none => []
  | some p =>
    match g.rm.getRoom (g.pm.players p).roomid with
    | none => [.comRet (g.pm.players p).pid 2003 1]
    | some r =>
      if (g.room r).isOver then
        [.comRet (g.pm.players p).pid 2003 2]
      else
        g.rm.getCacheFrames g.pm.players r p (pb.beginframeid2003 body)

/-! ## Messages of KCP sessions -/

/-- The registration of a player that is known to the room: message 2004 behind its lookups. -/
def register (g : GameNode) (r p : Nat) (sessid pid : Int) : Except Fault GameNode :=
  let pm := g.pm.updatePlayer p pid
  match pm.setSessid g.kcp p sessid pid with
  | .error e => .error e
  | .ok (pm, kcp, pconn) => .ok { kcp, pm, rm := g.rm.enterP pm.players r p (some pconn) }

/-- `rpcGameHandle::processKcp` -/
def processKcp (pb : Pb) (g : GameNode) (obj : KcpCall) : Except Fault (GameNode × List Out) :=
  match g.rm.getRoom obj.roomid with
  | none => .ok (g, [])
  | some r =>
    if obj.msgid = 2000 then
      .ok ({ g with rm := g.rm.frameCmd pb r obj.pid obj.body }, [])
    else if obj.msgid = 2004 then
      match (g.room r).getR (pb.rid2004 obj.body) with
      | none => .ok (g, [])
      | some p =>
        match g.register r p obj.sessid obj.pid with
        | .error e => .error e
        | .ok g => .ok (g, [])
    else if obj.msgid = 2002 then
      match (g.room r).getP obj.pid with
      | none => .ok (g, [])
      | some p =>
        let (rm, outs) := g.rm.getFramesData pb g.pm.players g.kcp r p obj.body
        .ok ({ g with rm }, outs)
    else
      .ok (g, [])

end GameNode

/-! ## Steps -/

/-- What happens to a game node. `kcp` is a message of any session, as `OnDealMsg` hands it over. -/
inductive GameOp
  | createConn (clifd : Int) (buf : Bytes) (msgs : List Bytes) (ms : Nat)
  | scanTimeout (ms : Nat)
  | delTimeout
  | kcp (obj : KcpCall)
  | newRoom (pid : Nat) (body : Bytes)
  | overRoom (pid msgid : Nat)
  | offlineP (pid : Nat)
  | enterP (body : Bytes)
  | leaveP (pid : Nat)
  | allPReady (pid : Nat)
  | api2003 (pid : Nat) (body : Bytes)
  | update (ms : Nat)

namespace GameNode

def exec (pb : Pb) (g : GameNode) : GameOp → Except Fault (GameNode × List Out)
  | .createConn clifd buf msgs ms => .ok ({ g with kcp := g.kcp.createConn clifd buf msgs ms }, [])
  | .scanTimeout ms => .ok ({ g with kcp := g.kcp.scanTimeout ms }, [])
  | .delTimeout => .ok ({ g with kcp := g.kcp.delTimeout }, [])
  | .kcp obj => g.processKcp pb obj
  | .newRoom pid body => (·, []) <$> g.newRoom pid body
  | .overRoom pid msgid => .ok (g.overRoom pid msgid, [])
  | .offlineP pid => .ok (g.offlineP pid, [])
  | .enterP body => (·, []) <$> g.enterP body
  | .leaveP pid => .ok (g.leaveP pid, [])
  | .allPReady pid => .ok (g.allPReady pid, [])
  | .api2003 pid body => .ok (g, g.api2003 pb pid body)
  | .update ms => g.update ms

def step (pb : Pb) (g : GameNode) (o : GameOp) : Except Fault GameNode := Prod.fst <$> g.exec pb o

/-- What the surroundings of a node do: a new session's descriptor is not that of an open one, and the epoll thread scans
for timeouts only when it has deleted those of the last scan. -/
def Env (g : GameNode) : GameOp → Prop
  | .createConn clifd _ _ _ => g.kcp.mapConn[clifd]? = none
  | .scanTimeout _ => g.kcp.delQue = []
  | _ => True

instance (g : GameNode) (o : GameOp) : Decidable (g.Env o) :=
  match o with
  | .createConn clifd _ _ _ => inferInstanceAs (Decidable (g.kcp.mapConn[clifd]? = none))
  | .scanTimeout _ => inferInstanceAs (Decidable (g.kcp.delQue = []))
  | .delTimeout | .kcp _ | .newRoom _ _ | .overRoom _ _ | .offlineP _ | .enterP _ | .leaveP _ | .allPReady _
  | .api2003 _ _ | .update _ => isTrue trivial

end GameNode

end KcpServer
