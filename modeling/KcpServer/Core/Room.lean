import KcpServer.Core.FramePool
import KcpServer.Core.Player

/-!
# `roomObj` and `roomMgr`

A room collects commands in a pending frame. Its clock gives the frame the next id, records it, broadcasts it and fetches
a new one. Players, sessions and messages are pointers into the heaps of `playerMgr`, `KCPServer` and the message pools;
`GameNode` puts the three managers together.

The contents of incoming protobuf messages are read by generated code, a parameter `Pb`.
-/

namespace KcpServer
open Lib

def FRAME_TICK_MS : Nat := 66

/-- `POOL_PT_2000_SIZE` and `POOL_PT_2001_SIZE` -/
def POOL_PT_SIZE : Nat := 1024

/-- What `ParseFromIstream` reads out of the bodies of incoming messages. -/
structure Pb where
  cmd2000 : Bytes → Cmd
  frameids2002 : Bytes → List Nat
  beginframeid2003 : Bytes → Nat
  rid2004 : Bytes → Nat

/-- What is sent. A frame is sent as its id and its commands. -/
inductive Out
  /-- `BroadcastKcp` of message 2001 by a room to `UDPConn`s -/
  | frame (room : Nat) (conns : List Nat) (data : Nat × List Cmd)
  /-- message 2002 to a `UDPConn` -/
  | repair (conn : Nat) (frames : List (Nat × List Cmd))
  /-- message 2003 to a player -/
  | cacheFrames (pid : Int) (frames : List (Nat × List Cmd))
  /-- message 1000 to a player -/
  | comRet (pid : Int) (ptid : Nat) (ret : Int)
  /-- message 213 to a player -/
  | matchOver (pid : Int) (overframeid : Nat)
  /-- `UpdateFrameData` to gate -/
  | updateFrameData (roomid : Int) (frametime : Nat) (frames : List (Nat × List Cmd))

/-- `roomObj` -/
structure Room where
  roomid : Int
  frameId : Int
  endFrameId : Nat
  brun : Bool
  startMs : Nat
  lastMs : Nat
  accMs : Nat
  frameTick : Nat
  gateOver : Bool
  pt2001 : Option Nat
  allOperMap : Std.TreeMap Int Nat
  ridPMap : Std.TreeMap Nat Nat
  pidPMap : Std.TreeMap Int Nat
  pidConn : Std.TreeMap Int Nat

namespace Room

/-- `roomObj::init`, which sets every field. -/
def init (_r : Room) (roomid : Int) : Room where
  roomid
  frameId := 0
  endFrameId := 2147483648
  brun := false
  startMs := 0
  lastMs := 0
  accMs := 0
  frameTick := FRAME_TICK_MS
  gateOver := false
  pt2001 := none
  allOperMap := ∅
  ridPMap := ∅
  pidPMap := ∅
  pidConn := ∅

@[simp] theorem init_roomid (r : Room) (roomid : Int) : (r.init roomid).roomid = roomid := rfl

/-- A `new roomObj`; nothing is read before `init`. -/
def new : Room :=
  { roomid := 0, frameId := 0, endFrameId := 0, brun := false, startMs := 0, lastMs := 0, accMs := 0, frameTick := 0,
    gateOver := false, pt2001 := none, allOperMap := ∅, ridPMap := ∅, pidPMap := ∅, pidConn := ∅ }

/-- `roomObj::UpdateDelta` -/
def updateDelta (r : Room) (delta : Nat) : Room := { r with frameTick := delta / 65536 }

/-- `roomObj::getP` -/
def getP (r : Room) (pid : Int) : Option Nat := r.pidPMap[pid]?

/-- `roomObj::getR` -/
def getR (r : Room) (rid : Nat) : Option Nat := r.ridPMap[rid]?

/-- `roomObj::IsOver` -/
def isOver (r : Room) : Bool := if r.startMs = 0 then false else !r.brun

/-- `roomObj::Over` -/
def setOver (r : Room) (force : Bool) : Room :=
  { r with endFrameId := uint32 r.frameId, gateOver := r.gateOver || force }

/-- `roomObj::SetReady` -/
def setReady (r : Room) : Room := { r with brun := true }

/-- `roomObj::GetPIdx` -/
def getPIdx (r : Room) (players : Heap Player) (p : Nat) : Nat :=
  (r.ridPMap.toList.filter fun e => ¬ (players e.2).camp > 1 ∧ (players p).rid ≥ e.1).length

/-- The command that `roomObj::SvrFrameCmd` makes. -/
def svrCmd (r : Room) (players : Heap Player) (p param : Nat) : Cmd :=
  let tp := 15
  let pidx := r.getPIdx players p
  ⟨tp % 256 + pidx % 256 * 256 + param % 65536 * 65536, 0⟩

/-- The maps of `roomObj::EnterP`. -/
def enter (r : Room) (players : Heap Player) (p : Nat) (pconn : Option Nat) : Room :=
  { r with
    ridPMap := r.ridPMap.insert (players p).rid p
    pidPMap := r.pidPMap.insert (players p).pid p
    pidConn := pconn.elim r.pidConn (r.pidConn.insert (players p).pid) }

/-- What an iteration of the loop of `roomObj::Update` does to the room: frame `f` is recorded under the current id, then
`f'` is pending under the next one. -/
def record (r : Room) (f f' : Nat) : Room :=
  { r with allOperMap := r.allOperMap.insert r.frameId f, pt2001 := some f', frameId := r.frameId + 1 }

end Room

/-- `roomMgr`, with the rooms and the messages. -/
structure RoomMgr where
  rooms : Heap Room
  idMap : Std.TreeMap Int Nat
  finnalRoomQue : List Nat
  poolRoom : List Nat
  lastMs : Nat
  msgs : FramePool

namespace RoomMgr

/-- A `roomMgr` with `n` messages of each class; `POOL_ROOMOBJ` is 0. -/
def withPool (n : Nat) : RoomMgr := ⟨.replicate 0 .new, ∅, [], [], 0, .withPool n⟩

/-- `roomMgr::roomMgr` -/
def new : RoomMgr := withPool POOL_PT_SIZE

def modify (m : RoomMgr) (r : Nat) (f : Room → Room) : RoomMgr := { m with rooms := m.rooms.set r (f (m.rooms r)) }

/-- `roomMgr::popRoom` -/
def popRoom (m : RoomMgr) : Nat × RoomMgr :=
  let (r, rooms, poolRoom) := pop m.rooms m.poolRoom .new
  (r, { m with rooms, poolRoom })

/-- `roomMgr::pushRoom` -/
def pushRoom (m : RoomMgr) (r : Nat) : RoomMgr := { m with poolRoom := m.poolRoom ++ [r] }

/-- `roomMgr::AppendR` -/
def appendR (m : RoomMgr) (r : Nat) : RoomMgr := { m with idMap := m.idMap.insert (m.rooms r).roomid r }

/-- `roomMgr::GetRoom` -/
def getRoom (m : RoomMgr) (roomid : Int) : Option Nat := m.idMap[roomid]?

/-! ## Commands -/

/-- `m_pt2001` of a room, fetched when it is null. -/
def fetchPending (m : RoomMgr) (r : Nat) : Nat × RoomMgr :=
  match (m.rooms r).pt2001 with
  | some f => (f, m)
  | none =>
    let (f, msgs) := m.msgs.fetchPt2001
    (f, { m with msgs }.modify r ({ · with pt2001 := some f }))

/-- What `SvrFrameCmd` and `FrameCmd` do with the command they make. -/
def pushCmd (m : RoomMgr) (r : Nat) (cmd : Cmd) : RoomMgr :=
  let (c, msgs) := m.msgs.fetchPt
  let m := { m with msgs := msgs.setCmd c cmd }
  let (f, m) := m.fetchPending r
  { m with msgs := m.msgs.addAllocated f c }

/-- `roomObj::SvrFrameCmd` -/
def svrFrameCmd (m : RoomMgr) (players : Heap Player) (r p param : Nat) : RoomMgr :=
  m.pushCmd r ((m.rooms r).svrCmd players p param)

/-- `roomObj::EnterP` -/
def enterP (m : RoomMgr) (players : Heap Player) (r p : Nat) (pconn : Option Nat) : RoomMgr :=
  (m.modify r (·.enter players p pconn)).svrFrameCmd players r p 1

/-- `roomObj::LeaveP` -/
def leaveP (m : RoomMgr) (players : Heap Player) (r p : Nat) : RoomMgr := m.svrFrameCmd players r p 0

/-- `roomObj::FrameCmd` -/
def frameCmd (pb : Pb) (m : RoomMgr) (r : Nat) (pid : Int) (body : Bytes) : RoomMgr :=
  match (m.rooms r).getP pid with
  | none => m
  | some _ => m.pushCmd r (pb.cmd2000 body)

theorem frameCmd_eq (pb : Pb) (m : RoomMgr) (r : Nat) (pid : Int) (body : Bytes) :
    m.frameCmd pb r pid body = if ((m.rooms r).getP pid).isSome then m.pushCmd r (pb.cmd2000 body) else m := by
  unfold frameCmd
  cases (m.rooms r).getP pid <;> rfl

/-! ## Recorded frames -/

/-- The frames that `roomObj::GetFramesData` finds. -/
def foundFrames (m : RoomMgr) (r : Nat) (frameids : List Nat) : List Nat :=
  frameids.filterMap fun fid => (m.rooms r).allOperMap[int32 fid]?

/-- `roomObj::GetFramesData`. The frames found are copied into the reply, and a copy of the reply's frames is recycled. -/
def getFramesData (pb : Pb) (m : RoomMgr) (players : Heap Player) (kcp : KCPServer) (r p : Nat) (body : Bytes) :
    RoomMgr × List Out :=
  let found := m.foundFrames r (pb.frameids2002 body)
  let out :=
    if (players p).sessid = 0 ∨ (players p).off then
      []
    else
      (kcp.rawGetConn (players p).sessid).toList.map fun c => Out.repair c (found.map m.msgs.frameData)
  let (copies, msgs) := FramePool.copyFrames found m.msgs
  ({ m with msgs := copies.reverse.foldl FramePool.recyclePt2001 msgs }, out)

/-- `roomObj::GetCacheFrames` -/
def getCacheFrames (m : RoomMgr) (players : Heap Player) (r p beginid : Nat) : List Out :=
  let frames := (m.rooms r).allOperMap.toList.filter fun e => ¬ uint32 e.1 < beginid
  [.cacheFrames (players p).pid (frames.map fun e => m.msgs.frameData e.2)]

/-- `roomObj::Finnal` -/
def finnal (m : RoomMgr) (r : Nat) : RoomMgr × Out :=
  let R := m.rooms r
  let out := Out.updateFrameData R.roomid R.frameTick (R.allOperMap.toList.map fun e => m.msgs.frameData e.2)
  let msgs := (R.allOperMap.toList.map Prod.snd).foldl FramePool.recyclePt2001 m.msgs
  ({ m with msgs }.modify r ({ · with allOperMap := ∅ }), out)

/-! ## The frame clock -/

/-- One iteration of the `while` loop of `roomObj::Update`, without the clock. -/
def emitFrame (m : RoomMgr) (r : Nat) : Except Fault (RoomMgr × Out) :=
  let (f, m) := m.fetchPending r
  let R := m.rooms r
  let msgs := m.msgs.setFrameid f (uint32 R.frameId)
  let out := Out.frame r R.pidConn.values (msgs.frameData f)
  let (f', msgs) := msgs.fetchPt2001
  if R.frameId = 2 ^ 31 - 1 then
    .error .overflow
  else
    .ok ({ m with msgs }.modify r (·.record f f'), out)

/-- The `while` loop of `roomObj::Update` from a value of `m_accMs` on: also the value it leaves. -/
def emitFrames (m : RoomMgr) (r : Nat) (accMs : Nat) : Except Fault (RoomMgr × Nat × List Out) :=
  if accMs < (m.rooms r).frameTick then
    .ok (m, accMs, [])
  else if (m.rooms r).frameTick = 0 then
    .error .diverge
  else
    match m.emitFrame r with
    | .error e => .error e
    | .ok (m', out) =>
      match emitFrames m' r (accMs - (m.rooms r).frameTick) with
      | .error e => .error e
      | .ok (m', accMs, outs) => .ok (m', accMs, out :: outs)
termination_by accMs

/-- What `roomObj::Update` does behind its early returns. -/
def advance (m : RoomMgr) (r ms : Nat) : Except Fault (RoomMgr × List Out) :=
  let accMs := uint32 ((m.rooms r).accMs + (ms - (m.rooms r).lastMs : Int))
  match m.emitFrames r accMs with
  | .error e => .error e
  | .ok (m, accMs, outs) => .ok (m.modify r ({ · with accMs, lastMs := ms }), outs)

/-! ## What the methods do to the rooms -/

section Rooms
variable {m m' : RoomMgr} {r : Nat}

@[simp] theorem modify_self (m : RoomMgr) (r : Nat) (f : Room → Room) : (m.modify r f).rooms r = f (m.rooms r) :=
  Heap.set_self ..

theorem modify_of_ne (m : RoomMgr) {r q : Nat} (hq : q ≠ r) (f : Room → Room) : (m.modify r f).rooms q = m.rooms q :=
  Heap.set_of_ne _ hq _

@[simp] theorem modify_msgs (m : RoomMgr) (r : Nat) (f : Room → Room) : (m.modify r f).msgs = m.msgs := rfl

theorem modify_modify (m : RoomMgr) (r : Nat) (f g : Room → Room) : (m.modify r f).modify r g = m.modify r (g ∘ f) := by
  simp only [modify, Heap.set_self, Heap.set_set, Function.comp_apply]

theorem fetchPending_eq {f : Nat} (heq : m.fetchPending r = (f, m')) :
    ∃ msgs, m' = { m with msgs }.modify r ({ · with pt2001 := some f }) := by
  unfold fetchPending at heq
  cases hpt : (m.rooms r).pt2001 with
  | some g =>
    rw [hpt] at heq
    cases heq
    refine ⟨m.msgs, ?_⟩
    rw [modify, ← hpt, Heap.set_at]
  | none =>
    rw [hpt] at heq
    cases heq
    exact ⟨_, rfl⟩

theorem pushCmd_eq (m : RoomMgr) (r : Nat) (cmd : Cmd) :
    ∃ msgs f, m.pushCmd r cmd = { m with msgs }.modify r ({ · with pt2001 := some f }) := by
  obtain ⟨c, msgs, hfetch⟩ : ∃ c msgs, m.msgs.fetchPt = (c, msgs) := ⟨_, _, rfl⟩
  obtain ⟨f, m₁, hpend⟩ : ∃ f m₁, { m with msgs := msgs.setCmd c cmd }.fetchPending r = (f, m₁) := ⟨_, _, rfl⟩
  obtain ⟨msgs', rfl⟩ := fetchPending_eq hpend
  simp only [pushCmd, hfetch, hpend]
  exact ⟨msgs'.addAllocated f c, f, rfl⟩

theorem emitFrame_eq {out : Out} (heq : m.emitFrame r = .ok (m', out)) :
    (m.rooms r).frameId ≠ 2 ^ 31 - 1 ∧ (∃ data, out = .frame r (m.rooms r).pidConn.values data) ∧
      ∃ msgs f f', m' = { m with msgs }.modify r (·.record f f') := by
  obtain ⟨f, m₁, hpend⟩ : ∃ f m₁, m.fetchPending r = (f, m₁) := ⟨_, _, rfl⟩
  obtain ⟨msgs, rfl⟩ := fetchPending_eq hpend
  obtain ⟨f', msgs', hfetch⟩ : ∃ f' msgs', (msgs.setFrameid f (uint32 (m.rooms r).frameId)).fetchPt2001 = (f', msgs') :=
    ⟨_, _, rfl⟩
  simp only [emitFrame, hpend, modify_self, modify_msgs, hfetch] at heq
  split at heq
  · cases heq
  · next hmax =>
    cases heq
    refine ⟨hmax, ⟨_, rfl⟩, msgs', f, f', ?_⟩
    exact modify_modify { m with msgs := msgs' } r ({ · with pt2001 := some f }) (·.record f f')

/-- What an iteration keeps, the loop keeps; `outs` are the frames sent so far. -/
theorem emitFrames_invariant {I : RoomMgr → List Out → Prop} {accMs accMs' : Nat} {outs : List Out}
    (pre : List Out) (heq : m.emitFrames r accMs = .ok (m', accMs', outs)) (h : I m pre)
    (hstep : ∀ m m' pre out, I m pre → m.emitFrame r = .ok (m', out) → I m' (pre ++ [out])) : I m' (pre ++ outs) := by
  induction accMs using Nat.strong_induction_on generalizing m pre outs with
  | _ accMs ih =>
    rw [emitFrames] at heq
    split at heq
    · cases heq
      simpa using h
    · next hlt =>
      split at heq
      · cases heq
      · next htick =>
        split at heq
        · cases heq
        · next m₁ out hemit =>
          split at heq
          · cases heq
          · next m₂ acc outs' hrest =>
            cases heq
            have := ih _ (by omega) _ hrest (hstep _ _ _ _ h hemit)
            simpa using this

/-- What an iteration keeps and the new time does not touch, `Update` keeps. -/
theorem advance_invariant {I : RoomMgr → List Out → Prop} {ms : Nat} {outs : List Out}
    (heq : m.advance r ms = .ok (m', outs)) (h : I m [])
    (hstep : ∀ m m' pre out, I m pre → m.emitFrame r = .ok (m', out) → I m' (pre ++ [out]))
    (htime : ∀ m accMs, I m outs → I (m.modify r ({ · with accMs, lastMs := ms })) outs) : I m' outs := by
  unfold advance at heq
  dsimp only at heq
  split at heq
  · cases heq
  · next m₁ accMs outs₁ hemit =>
    cases heq
    exact htime m₁ accMs (emitFrames_invariant [] hemit h hstep)

end Rooms

end RoomMgr

structure GameNode where
  kcp : KCPServer
  pm : PlayerMgr
  rm : RoomMgr

namespace GameNode

def new : GameNode := ⟨.new, .new, .new⟩

abbrev room (g : GameNode) (r : Nat) : Room := g.rm.rooms r

def modifyRoom (g : GameNode) (r : Nat) (f : Room → Room) : GameNode := { g with rm := g.rm.modify r f }

def removePs (g : GameNode) : List Nat → GameNode
  | [] => g
  | rid :: rids =>
    let (pm, kcp) := g.pm.removeP g.kcp rid
    { g with pm, kcp }.removePs rids

/-- `roomObj::RawOver` -/
def rawOver (g : GameNode) (r : Nat) : GameNode × List Out :=
  let R := g.room r
  let overframeid := uint32 (if R.frameId > 0 then R.frameId - 1 else R.frameId)
  let ps := R.ridPMap.values.filter fun p => (g.pm.players p).off = false
  let outs := ps.map fun p => Out.matchOver (g.pm.players p).pid overframeid
  ((g.modifyRoom r ({ · with brun := false })).removePs R.ridPMap.keys, outs)

/-- `roomObj::Update` -/
def updateRoom (g : GameNode) (r ms : Nat) : Except Fault (GameNode × Int × List Out) :=
  let R := g.room r
  if R.gateOver then
    let (g, outs) := g.rawOver r
    .ok (g, 1, outs)
  else if R.brun = false then
    .ok (g, 0, [])
  else if R.ridPMap.size = 0 then
    .ok (g, 0, [])
  else if R.lastMs = 0 then
    .ok (g.modifyRoom r ({ · with lastMs := ms, accMs := 0 }), 0, [])
  else do
    let (rm, outs) ← g.rm.advance r ms
    let g := { g with rm }
    let R := g.room r
    if uint32 R.frameId ≥ R.endFrameId ∧ R.endFrameId ≠ 2147483648 then
      let (g, outs') := g.rawOver r
      return (g, 1, outs ++ outs')
    else
      return (g, 0, outs)

/-- The loop of `roomMgr::Update` over the entries of `m_idMap`; an entry is erased only when it is its turn. -/
def updateRooms (g : GameNode) (ms : Nat) : List (Int × Nat) → Except Fault (GameNode × List Out)
  | [] => .ok (g, [])
  | (k, r) :: es => do
    let (g, ret, outs) ← g.updateRoom r ms
    let g := if ret = 1 then
        { g with rm := { g.rm with finnalRoomQue := g.rm.finnalRoomQue ++ [r], idMap := g.rm.idMap.erase k } }
      else
        g
    let (g, outs') ← g.updateRooms ms es
    return (g, outs ++ outs')

/-- The loop of `roomMgr::UpdateFinnal`. -/
def finnals (m : RoomMgr) : List Nat → RoomMgr × List Out
  | [] => (m, [])
  | r :: rs =>
    let (m, out) := m.finnal r
    let (m, outs) := finnals (m.pushRoom r) rs
    (m, out :: outs)

/-- `roomMgr::UpdateFinnal` -/
def updateFinnal (m : RoomMgr) : RoomMgr × List Out := finnals { m with finnalRoomQue := [] } m.finnalRoomQue

/-- `roomMgr::Update` -/
def update (g : GameNode) (ms : Nat) : Except Fault (GameNode × List Out) :=
  if uint32 (ms - g.rm.lastMs : Int) < 1 then
    .ok (g, [])
  else do
    let g := { g with rm := { g.rm with lastMs := ms } }
    let (g, outs) ← g.updateRooms ms g.rm.idMap.toList
    let (rm, outs') := updateFinnal g.rm
    return ({ g with rm }, outs ++ outs')

/-! ## What `Update` does -/

/-- The results of `roomObj::Update`, case by case. -/
inductive Updated (g : GameNode) (r ms : Nat) : GameNode → Int → List Out → Prop
  | gate (hgate : (g.room r).gateOver = true) : Updated g r ms (g.rawOver r).1 1 (g.rawOver r).2
  | idle (hgate : (g.room r).gateOver = false) (hidle : (g.room r).brun = false ∨ (g.room r).ridPMap.size = 0) :
      Updated g r ms g 0 []
  | first (hgate : (g.room r).gateOver = false) (hrun : (g.room r).brun = true) (hsize : (g.room r).ridPMap.size ≠ 0)
      (hms : (g.room r).lastMs = 0) : Updated g r ms (g.modifyRoom r ({ · with lastMs := ms, accMs := 0 })) 0 []
  | tick {rm : RoomMgr} {outs : List Out} (hgate : (g.room r).gateOver = false) (hrun : (g.room r).brun = true)
      (hsize : (g.room r).ridPMap.size ≠ 0) (hms : (g.room r).lastMs ≠ 0) (hadv : g.rm.advance r ms = .ok (rm, outs))
      (hend : uint32 (rm.rooms r).frameId < (rm.rooms r).endFrameId ∨ (rm.rooms r).endFrameId = 2147483648) :
      Updated g r ms { g with rm } 0 outs
  | finish {rm : RoomMgr} {outs : List Out} (hgate : (g.room r).gateOver = false) (hrun : (g.room r).brun = true)
      (hsize : (g.room r).ridPMap.size ≠ 0) (hms : (g.room r).lastMs ≠ 0) (hadv : g.rm.advance r ms = .ok (rm, outs))
      (hend : (rm.rooms r).endFrameId ≤ uint32 (rm.rooms r).frameId ∧ (rm.rooms r).endFrameId ≠ 2147483648) :
      Updated g r ms ({ g with rm }.rawOver r).1 1 (outs ++ ({ g with rm }.rawOver r).2)

theorem updated_of_updateRoom {g g' : GameNode} {r ms : Nat} {ret : Int} {outs : List Out}
    (heq : g.updateRoom r ms = .ok (g', ret, outs)) : Updated g r ms g' ret outs := by
  unfold updateRoom at heq
  dsimp only at heq
  split at heq
  · next hgate => cases heq; exact .gate hgate
  · next hgate =>
    have hgate : (g.room r).gateOver = false := by simpa using hgate
    split at heq
    · next hrun => cases heq; exact .idle hgate (Or.inl hrun)
    · next hrun =>
      have hrun : (g.room r).brun = true := by simpa using hrun
      split at heq
      · next hsize => cases heq; exact .idle hgate (Or.inr hsize)
      · next hsize =>
        split at heq
        · next hms => cases heq; exact .first hgate hrun hsize hms
        · next hms =>
          obtain ⟨⟨rm, outs₁⟩, hadv, heq⟩ := bind_eq_ok.mp heq
          dsimp only at heq
          split at heq
          · next hend => cases heq; exact .finish hgate hrun hsize hms hadv hend
          · next hend =>
            cases heq
            refine .tick hgate hrun hsize hms hadv ?_
            by_cases hmax : (rm.rooms r).endFrameId = 2147483648
            · exact Or.inr hmax
            · exact Or.inl (lt_of_not_ge fun hle => hend ⟨hle, hmax⟩)

theorem updateRoom_of_updated {g g' : GameNode} {r ms : Nat} {ret : Int} {outs : List Out}
    (h : Updated g r ms g' ret outs) : g.updateRoom r ms = .ok (g', ret, outs) := by
  unfold updateRoom
  dsimp only
  cases h with
  | gate hgate => rw [if_pos hgate]
  | idle hgate hidle =>
    rw [if_neg (by simp [hgate])]
    rcases hidle with hrun | hsize
    · rw [if_pos hrun]
    · rw [if_pos hsize, ite_self]
  | first hgate hrun hsize hms => rw [if_neg (by simp [hgate]), if_neg (by simp [hrun]), if_neg hsize, if_pos hms]
  | tick hgate hrun hsize hms hadv hend =>
    rw [if_neg (by simp [hgate]), if_neg (by simp [hrun]), if_neg hsize, if_neg hms, hadv, ok_bind]
    refine if_neg fun h => ?_
    rcases hend with hlt | hmax
    · exact absurd h.1 (not_le_of_gt hlt)
    · exact h.2 hmax
  | finish hgate hrun hsize hms hadv hend =>
    rw [if_neg (by simp [hgate]), if_neg (by simp [hrun]), if_neg hsize, if_neg hms, hadv, ok_bind]
    exact if_pos hend

theorem removePs_rm (g : GameNode) (rids : List Nat) : (g.removePs rids).rm = g.rm := by
  induction rids generalizing g with
  | nil => rfl
  | cons rid rids ih => exact ih _

@[simp] theorem rawOver_rm (g : GameNode) (r : Nat) :
    (g.rawOver r).1.rm = g.rm.modify r ({ · with brun := false }) := removePs_rm _ _

end GameNode

end KcpServer
