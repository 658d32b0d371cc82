import KcpServer.Core.Handle
import KcpServer.Core.Update

/-!
# The steps of a game node

`Stepped` lists what a step can do to players, sessions and the rooms' maps; `stepped` says that it does nothing else.
Most steps are `Quiet`: they change flags, frames and messages only. Every invariant of the node is proved against this
list.
-/

namespace KcpServer
open Lib

/-- A change that leaves open who is registered where. -/
structure RoomMgr.Quiet (m m' : RoomMgr) : Prop where
  rooms : SameRooms m.rooms m'.rooms
  next : m'.rooms.next = m.rooms.next
  idMap : m'.idMap = m.idMap
  que : m'.finnalRoomQue = m.finnalRoomQue
  poolRoom : m'.poolRoom = m.poolRoom

namespace RoomMgr
variable {m m' m'' : RoomMgr} {r : Nat}

theorem Quiet.refl (m : RoomMgr) : Quiet m m := ⟨.refl _, rfl, rfl, rfl, rfl⟩

theorem Quiet.trans (h : Quiet m m') (h' : Quiet m' m'') : Quiet m m'' :=
  ⟨h.rooms.trans h'.rooms, h'.next.trans h.next, h'.idMap.trans h.idMap, h'.que.trans h.que,
    h'.poolRoom.trans h.poolRoom⟩

theorem Quiet.hosting (h : Quiet m m') (hm : m.Hosting) : m'.Hosting := by
  refine ⟨?_, fun {k r} hk => ?_, h.que.trans hm.que, fun q => (h.rooms q).2 (hm.clock q)⟩
  · rw [h.poolRoom]
    exact ⟨hm.free.nodup, fun r hr => h.next ▸ hm.free.lt_next r hr⟩
  · rw [h.idMap] at hk
    rw [(h.rooms r).1.roomid, h.poolRoom, h.next]
    exact hm.idMap hk

theorem quiet_set {msgs : FramePool} {R : Room} (hsame : (m.rooms r).Same R) (hclock : (m.rooms r).Clock → R.Clock) :
    Quiet m { m with msgs, rooms := m.rooms.set r R } := ⟨sameRooms_set hsame hclock, rfl, rfl, rfl, rfl⟩

theorem quiet_modify {f : Room → Room} (hsame : (m.rooms r).Same (f (m.rooms r)))
    (hclock : (m.rooms r).Clock → (f (m.rooms r)).Clock) : Quiet m (m.modify r f) :=
  ⟨sameRooms_set hsame hclock, rfl, rfl, rfl, rfl⟩

theorem quiet_pushCmd (m : RoomMgr) (r : Nat) (cmd : Cmd) : Quiet m (m.pushCmd r cmd) := by
  obtain ⟨msgs, f, heq⟩ := m.pushCmd_eq r cmd
  rw [heq]
  exact quiet_set ⟨rfl, rfl, rfl, rfl⟩ fun hc => ⟨hc.1, hc.2, hc.3⟩

theorem quiet_frameCmd (pb : Pb) (m : RoomMgr) (r : Nat) (pid : Int) (body : Bytes) :
    Quiet m (m.frameCmd pb r pid body) := by
  rw [frameCmd_eq]
  split
  · exact quiet_pushCmd m r _
  · exact .refl m

theorem enterP_eq (m : RoomMgr) (players : Heap Player) (r p : Nat) (pconn : Option Nat) : ∃ msgs f,
    m.enterP players r p pconn =
      { m with msgs }.modify r fun R => { R.enter players p pconn with pt2001 := some f } := by
  obtain ⟨msgs, f, heq⟩ := (m.modify r (·.enter players p pconn)).pushCmd_eq r
    (((m.modify r (·.enter players p pconn)).rooms r).svrCmd players p 1)
  refine ⟨msgs, f, heq.trans ?_⟩
  exact modify_modify { m with msgs } r (·.enter players p pconn) ({ · with pt2001 := some f })

theorem same_enterP (m : RoomMgr) (players : Heap Player) (r p : Nat) (pconn : Option Nat) :
    ((m.rooms r).enter players p pconn).Same ((m.enterP players r p pconn).rooms r) := by
  obtain ⟨msgs, f, heq⟩ := m.enterP_eq players r p pconn
  rw [heq, modify_self]
  exact ⟨rfl, rfl, rfl, rfl⟩

theorem Hosting.modify (h : m.Hosting) {f : Room → Room} (hid : (f (m.rooms r)).roomid = (m.rooms r).roomid)
    (hclock : (f (m.rooms r)).Clock) : (m.modify r f).Hosting := by
  have hrooms : ∀ q, ((m.modify r f).rooms q).roomid = (m.rooms q).roomid ∧ ((m.modify r f).rooms q).Clock := by
    intro q
    by_cases hq : q = r
    · subst hq
      rw [modify_self]
      exact ⟨hid, hclock⟩
    · rw [modify_of_ne m hq]
      exact ⟨rfl, h.clock q⟩
  refine ⟨h.free.set _ _, fun {k q} hk => ?_, h.que, fun q => (hrooms q).2⟩
  rw [(hrooms q).1]
  exact h.idMap hk

/-- What a room does for the players that enter it. -/
structure Entered (r : Nat) (m m' : RoomMgr) : Prop where
  hosting : m.Hosting → m'.Hosting
  others : ∀ q ≠ r, m'.rooms q = m.rooms q
  roomid : (m'.rooms r).roomid = (m.rooms r).roomid
  next : m'.rooms.next = m.rooms.next
  idMap : m'.idMap = m.idMap
  poolRoom : m'.poolRoom = m.poolRoom

theorem Entered.refl (r : Nat) (m : RoomMgr) : Entered r m m := ⟨id, fun _ _ => rfl, rfl, rfl, rfl, rfl⟩

theorem Entered.trans (h : Entered r m m') (h' : Entered r m' m'') : Entered r m m'' :=
  ⟨fun hm => h'.hosting (h.hosting hm), fun q hq => (h'.others q hq).trans (h.others q hq), h'.roomid.trans h.roomid,
    h'.next.trans h.next, h'.idMap.trans h.idMap, h'.poolRoom.trans h.poolRoom⟩

theorem entered_enterP (m : RoomMgr) (players : Heap Player) (r p : Nat) (pconn : Option Nat) :
    Entered r m (m.enterP players r p pconn) := by
  obtain ⟨msgs, f, heq⟩ := m.enterP_eq players r p pconn
  rw [heq]
  refine ⟨fun h => ?_, fun q hq => modify_of_ne _ hq _, by rw [modify_self]; rfl, rfl, rfl, rfl⟩
  have hmsgs : ({ m with msgs } : RoomMgr).Hosting := ⟨h.free, h.idMap, h.que, h.clock⟩
  obtain ⟨h₁, h₂, h₃⟩ := h.clock r
  exact hmsgs.modify rfl ⟨h₁, h₂, h₃⟩

end RoomMgr

namespace GameNode

/-- A step that leaves players, sessions and the rooms' maps alone. -/
structure Quiet (g g' : GameNode) : Prop where
  kcp : g'.kcp = g.kcp
  pm : g'.pm = g.pm
  rm : g.rm.Quiet g'.rm

theorem Quiet.refl (g : GameNode) : Quiet g g := ⟨rfl, rfl, .refl _⟩

/-- A node whose `NewRoom` has popped and initialised a room object. -/
def openRoom (g : GameNode) (pid : Nat) : GameNode :=
  { g with rm := g.rm.popRoom.2.modify g.rm.popRoom.1 (·.init (int32 pid)) }

/-- What a step does. -/
inductive Stepped (pb : Pb) (g : GameNode) : GameOp → GameNode → Prop
  | createConn (clifd : Int) (buf : Bytes) (msgs : List Bytes) (ms : Nat) :
      Stepped pb g (.createConn clifd buf msgs ms) { g with kcp := g.kcp.createConn clifd buf msgs ms }
  | scanTimeout (ms : Nat) : Stepped pb g (.scanTimeout ms) { g with kcp := g.kcp.scanTimeout ms }
  | delTimeout : Stepped pb g .delTimeout { g with kcp := g.kcp.delTimeout }
  | quiet {o : GameOp} {g' : GameNode} (h : Quiet g g') : Stepped pb g o g'
  | register {obj : KcpCall} {r p pconn : Nat} {pm : PlayerMgr} {kcp : KCPServer} (hmsg : obj.msgid = 2004)
      (hroom : g.rm.idMap[obj.roomid]? = some r) (hrid : (g.room r).ridPMap[pb.rid2004 obj.body]? = some p)
      (hset : (g.pm.updatePlayer p obj.pid).setSessid g.kcp p obj.sessid obj.pid = .ok (pm, kcp, pconn)) :
      Stepped pb g (.kcp obj) { kcp, pm, rm := g.rm.enterP pm.players r p (some pconn) }
  | newRoom {pid : Nat} {body : Bytes} {b : NewRoomBody} {g₁ : GameNode} (hbody : parseNewRoom body = .ok b)
      (hlen : b.pidvec.length = b.ridvec.length ∧ b.ridvec.length = b.campvec.length)
      (hopen : Quiet (g.openRoom pid) g₁) {g₂ : GameNode}
      (henter : g₁.enterNews g.rm.popRoom.1 (b.pidvec.zip (b.ridvec.zip b.campvec)) = g₂) :
      Stepped pb g (.newRoom pid body) { g₂ with rm := g₂.rm.appendR g.rm.popRoom.1 }
  | badRoom {pid : Nat} {body : Bytes} {g₁ : GameNode} (hopen : Quiet (g.openRoom pid) g₁) :
      Stepped pb g (.newRoom pid body) { g₁ with rm := g₁.rm.pushRoom g.rm.popRoom.1 }
  | offline {pid p : Nat} {g' : GameNode} (hp : g.pm.ridPMap[pid]? = some p)
      (h : Quiet { g with pm := (g.pm.offline g.kcp p).1, kcp := (g.pm.offline g.kcp p).2 } g') :
      Stepped pb g (.offlineP pid) g'
  | enter {body : Bytes} {r p : Nat}
      (hroom : g.rm.idMap[(((strtok 44 body)[2]?.map atoi).getD 0)]? = some r)
      (hp : g.pm.pidPMap[int32 (((strtok 44 body)[0]?.map atoull).getD 0 : Nat)]? = some p) :
      Stepped pb g (.enterP body) { g with rm := g.rm.enterP g.pm.players r p none }
  | update {ms : Nat} {outs : List Out} {g' : GameNode} (h : Passed g g' outs) : Stepped pb g (.update ms) g'

variable {pb : Pb} {g g' : GameNode} {o : GameOp}

theorem quiet_rm {rm : RoomMgr} (h : g.rm.Quiet rm) : Quiet g { g with rm } := ⟨rfl, rfl, h⟩

theorem quiet_leaveRoom (g : GameNode) (p : Nat) : Quiet g (g.leaveRoom p) := by
  unfold leaveRoom
  split
  · exact .refl g
  · exact quiet_rm (RoomMgr.quiet_pushCmd _ _ _)

theorem stepped_kcp {obj : KcpCall} {outs : List Out} (heq : g.processKcp pb obj = .ok (g', outs)) :
    Stepped pb g (.kcp obj) g' := by
  unfold processKcp at heq
  split at heq
  · cases heq
    exact .quiet (.refl g)
  · next r hroom =>
    split at heq
    · cases heq
      exact .quiet (quiet_rm (RoomMgr.quiet_frameCmd ..))
    · split at heq
      · next hmsg =>
        split at heq
        · cases heq
          exact .quiet (.refl g)
        · next p hrid =>
          split at heq
          · cases heq
          · next g₁ hreg =>
            cases heq
            unfold register at hreg
            dsimp only at hreg
            split at hreg
            · cases hreg
            · next pm kcp pconn hset =>
              cases hreg
              exact .register hmsg hroom hrid hset
      · split at heq
        · split at heq
          · cases heq
            exact .quiet (.refl g)
          · cases heq
            exact .quiet (quiet_rm ⟨.refl _, rfl, rfl, rfl, rfl⟩)
        · cases heq
          exact .quiet (.refl g)

/-- `NewRoom` fills the room that it has popped and registers it, or puts it back. -/
theorem newRoom_eq_ok {pid : Nat} {body : Bytes} (heq : g.newRoom pid body = .ok g') :
    ∃ b g₁, parseNewRoom body = .ok b ∧
      g₁ = (g.openRoom pid).modifyRoom g.rm.popRoom.1 (·.updateDelta b.delta) ∧ Quiet (g.openRoom pid) g₁ ∧
      ((b.pidvec.length = b.ridvec.length ∧ b.ridvec.length = b.campvec.length) ∧
          g' = { g₁.enterNews g.rm.popRoom.1 (b.pidvec.zip (b.ridvec.zip b.campvec)) with
            rm := (g₁.enterNews g.rm.popRoom.1 (b.pidvec.zip (b.ridvec.zip b.campvec))).rm.appendR g.rm.popRoom.1 } ∨
        ¬ (b.pidvec.length = b.ridvec.length ∧ b.ridvec.length = b.campvec.length) ∧
          g' = { g₁ with rm := g₁.rm.pushRoom g.rm.popRoom.1 }) := by
  obtain ⟨b, hbody, heq⟩ := bind_eq_ok.mp heq
  dsimp only at heq
  set r := g.rm.popRoom.1
  have hdelta : Quiet (g.openRoom pid) (({ g with rm := g.rm.popRoom.2.modify r (·.init (int32 pid)) } : GameNode).modifyRoom r
      (·.updateDelta b.delta)) := by
    refine quiet_rm (g := g.openRoom pid) (RoomMgr.quiet_modify ⟨rfl, rfl, rfl, rfl⟩ fun hc => ⟨hc.1, hc.2, hc.3⟩)
  refine ⟨b, _, hbody, rfl, hdelta, ?_⟩
  split at heq
  · next hlen =>
    cases heq
    exact Or.inl ⟨hlen, rfl⟩
  · next hlen =>
    cases heq
    exact Or.inr ⟨hlen, rfl⟩

theorem stepped_newRoom {pid : Nat} {body : Bytes} (heq : g.newRoom pid body = .ok g') :
    Stepped pb g (.newRoom pid body) g' := by
  obtain ⟨b, g₁, hbody, -, hopen, ⟨hlen, rfl⟩ | ⟨-, rfl⟩⟩ := newRoom_eq_ok heq
  · exact .newRoom hbody hlen hopen rfl
  · exact .badRoom hopen

theorem stepped_enterP {body : Bytes} (heq : g.enterP body = .ok g') : Stepped pb g (.enterP body) g' := by
  unfold enterP at heq
  obtain ⟨-, -, heq⟩ := bind_eq_ok.mp heq
  obtain ⟨-, -, heq⟩ := bind_eq_ok.mp heq
  obtain ⟨-, -, heq⟩ := bind_eq_ok.mp heq
  split at heq
  · cases heq
    exact .quiet (.refl g)
  · next r hroom =>
    split at heq
    · cases heq
      exact .quiet (.refl g)
    · next p hp =>
      cases heq
      exact .enter hroom hp

theorem stepped (h : g.rm.Hosting) (heq : g.step pb o = .ok g') : Stepped pb g o g' := by
  obtain ⟨⟨g₁, outs⟩, hexec, heq⟩ := bind_eq_ok.mp heq
  cases heq
  cases o with
  | createConn clifd buf msgs ms => cases hexec; exact .createConn clifd buf msgs ms
  | scanTimeout ms => cases hexec; exact .scanTimeout ms
  | delTimeout => cases hexec; exact .delTimeout
  | kcp obj => exact stepped_kcp hexec
  | newRoom pid body =>
    obtain ⟨g₂, hnew, heq⟩ := bind_eq_ok.mp hexec
    cases heq
    exact stepped_newRoom hnew
  | overRoom pid msgid =>
    cases hexec
    refine .quiet ?_
    unfold overRoom
    split
    · exact .refl g
    · exact quiet_rm (RoomMgr.quiet_modify ⟨rfl, rfl, rfl, rfl⟩ fun hc => hc.setOver _)
  | offlineP pid =>
    cases hexec
    unfold offlineP PlayerMgr.getPByRid
    cases hp : g.pm.ridPMap[pid]? with
    | none => exact .quiet (.refl g)
    | some p => exact .offline hp (quiet_leaveRoom _ p)
  | enterP body =>
    obtain ⟨g₂, henter, heq⟩ := bind_eq_ok.mp hexec
    cases heq
    exact stepped_enterP henter
  | leaveP pid =>
    cases hexec
    refine .quiet ?_
    unfold leaveP
    split
    · exact .refl g
    · exact quiet_leaveRoom g _
  | allPReady pid =>
    cases hexec
    refine .quiet ?_
    unfold allPReady
    split
    · exact .refl g
    · exact quiet_rm (RoomMgr.quiet_modify ⟨rfl, rfl, rfl, rfl⟩ fun hc => ⟨hc.1, hc.2, hc.3⟩)
  | api2003 pid body => cases hexec; exact .quiet (.refl g)
  | update ms =>
    rcases update_spec h hexec with ⟨rfl, -⟩ | hpass
    · exact .quiet (.refl _)
    · exact .update hpass

/-! ## `NewRoom` -/

/-- One iteration of the enter loop: a player object is taken, initialised, indexed and entered. -/
theorem enterNew_eq (g : GameNode) (r : Nat) (pid : Int) (rid : Nat) (camp : Int) :
    ∃ p players pool, pop g.pm.players g.pm.pool .new = (p, players, pool) ∧
      g.enterNew r pid rid camp =
        { kcp := g.kcp
          pm := ⟨players.set p ⟨pid, 0, rid, (g.room r).roomid, false, camp⟩, g.pm.ridPMap.insert rid p,
            g.pm.pidPMap.insert pid p, pool⟩
          rm := g.rm.enterP (players.set p ⟨pid, 0, rid, (g.room r).roomid, false, camp⟩) r p none } := by
  obtain ⟨p, players, pool, hpop⟩ : ∃ p players pool, pop g.pm.players g.pm.pool Player.new = (p, players, pool) :=
    ⟨_, _, _, rfl⟩
  refine ⟨p, players, pool, hpop, ?_⟩
  simp only [enterNew, PlayerMgr.popPlayer, hpop, PlayerMgr.modify, PlayerMgr.appendP, Heap.set_self, Heap.set_set,
    Player.init]

theorem enterNews_kcp (g : GameNode) (r : Nat) (es : List (Int × Nat × Int)) : (g.enterNews r es).kcp = g.kcp := by
  induction es generalizing g with
  | nil => rfl
  | cons e es ih => exact ih _

theorem entered_enterNew (g : GameNode) (r : Nat) (pid : Int) (rid : Nat) (camp : Int) :
    g.rm.Entered r (g.enterNew r pid rid camp).rm := by
  obtain ⟨p, players, pool, -, heq⟩ := g.enterNew_eq r pid rid camp
  rw [heq]
  exact RoomMgr.entered_enterP ..

theorem entered_enterNews (g : GameNode) (r : Nat) (es : List (Int × Nat × Int)) :
    g.rm.Entered r (g.enterNews r es).rm := by
  induction es generalizing g with
  | nil => exact .refl _ _
  | cons e es ih => exact (entered_enterNew g r e.1 e.2.1 e.2.2).trans (ih _)

/-- A room object that has been popped and initialised. -/
structure Opened (g g₁ : GameNode) (r : Nat) (roomid : Int) : Prop where
  kcp : g₁.kcp = g.kcp
  pm : g₁.pm = g.pm
  hosting : g₁.rm.Hosting
  idMap : g₁.rm.idMap = g.rm.idMap
  fresh : ∀ k : Int, g.rm.idMap[k]? ≠ some r
  pooled : r ∉ g₁.rm.poolRoom
  lt : r < g₁.rm.rooms.next
  same : ∀ q ≠ r, (g.room q).Same (g₁.room q)
  init : (Room.new.init roomid).Same (g₁.room r)

/-- What `popRoom` takes from the pool or allocates. -/
theorem openRoom_eq (g : GameNode) (pid : Nat) : ∃ rooms poolRoom,
    pop g.rm.rooms g.rm.poolRoom Room.new = (g.rm.popRoom.1, rooms, poolRoom) ∧
      (g.openRoom pid).rm = { g.rm with rooms, poolRoom }.modify g.rm.popRoom.1 (·.init (int32 pid)) := by
  unfold openRoom RoomMgr.popRoom
  exact ⟨_, _, rfl, rfl⟩

theorem openRoom_self (g : GameNode) (pid : Nat) :
    (g.openRoom pid).rm.rooms g.rm.popRoom.1 = Room.new.init (int32 pid) := by
  obtain ⟨rooms, poolRoom, -, hopen⟩ := g.openRoom_eq pid
  rw [hopen, RoomMgr.modify_self]
  rfl

theorem roomid_openRoom {pid : Nat} {g₁ : GameNode} (hopen : Quiet (g.openRoom pid) g₁) :
    (g₁.room g.rm.popRoom.1).roomid = int32 pid :=
  calc (g₁.room g.rm.popRoom.1).roomid = ((g.openRoom pid).room g.rm.popRoom.1).roomid :=
        (hopen.rm.rooms g.rm.popRoom.1).1.roomid
    _ = int32 pid := by rw [room, openRoom_self, Room.init_roomid]

theorem idMap_newRoom {pid : Nat} {g₁ g₂ : GameNode} (hopen : Quiet (g.openRoom pid) g₁)
    (henter : g₁.rm.Entered g.rm.popRoom.1 g₂.rm) :
    (g₂.rm.appendR g.rm.popRoom.1).idMap = g.rm.idMap.insert (int32 pid) g.rm.popRoom.1 := by
  have hmap : g₁.rm.idMap = g.rm.idMap := hopen.rm.idMap
  rw [RoomMgr.appendR, henter.roomid.trans (roomid_openRoom hopen), henter.idMap, hmap]

theorem openRoom_of_ne (g : GameNode) (pid : Nat) {q : Nat} (hq : q ≠ g.rm.popRoom.1) :
    (g.openRoom pid).rm.rooms q = g.rm.rooms q := by
  obtain ⟨rooms, poolRoom, hpop, hopen⟩ := g.openRoom_eq pid
  rw [hopen, RoomMgr.modify_of_ne _ hq]
  exact pop_of_ne hpop hq

/-- A room that is in the pool or has just been allocated is not registered. -/
theorem popRoom_fresh (h : g.rm.Hosting) (k : Int) : g.rm.idMap[k]? ≠ some g.rm.popRoom.1 := by
  intro hk
  obtain ⟨rooms, poolRoom, hpop, -⟩ := g.openRoom_eq 0
  obtain ⟨-, hpool, hlt⟩ := h.idMap hk
  rcases origin_of_pop hpop with hin | hnew
  · exact hpool hin
  · omega

theorem hosting_openRoom (h : g.rm.Hosting) (pid : Nat) : (g.openRoom pid).rm.Hosting := by
  obtain ⟨rooms, poolRoom, hpop, hopen⟩ := g.openRoom_eq pid
  obtain ⟨hfree, -, -, -, hle, hsub, -, -⟩ := h.free.pop _ hpop
  refine ⟨?_, fun {k q} hk => ?_, ?_, fun q => ?_⟩
  · rw [hopen]
    exact hfree.set _ _
  · have hk : g.rm.idMap[k]? = some q := by rw [hopen] at hk; exact hk
    have hq : q ≠ g.rm.popRoom.1 := fun hq => popRoom_fresh h k (hq ▸ hk)
    obtain ⟨hroomid, hpool, hqlt⟩ := h.idMap hk
    refine ⟨(congrArg Room.roomid (g.openRoom_of_ne pid hq)).trans hroomid, ?_, ?_⟩
    · rw [hopen]
      exact fun hin => hpool (hsub q hin)
    · rw [hopen]
      exact lt_of_lt_of_le hqlt hle
  · rw [hopen]
    exact h.que
  · by_cases hq : q = g.rm.popRoom.1
    · rw [hq, openRoom_self]
      exact Room.clock_init _ _
    · rw [g.openRoom_of_ne pid hq]
      exact h.clock q

theorem opened {pid : Nat} (h : g.rm.Hosting) {g₁ : GameNode} (hquiet : Quiet (g.openRoom pid) g₁) :
    Opened g g₁ g.rm.popRoom.1 (int32 pid) := by
  obtain ⟨rooms, poolRoom, hpop, hopen⟩ := g.openRoom_eq pid
  obtain ⟨-, hlt, hnot, -⟩ := h.free.pop _ hpop
  refine ⟨hquiet.kcp, hquiet.pm, hquiet.rm.hosting (hosting_openRoom h pid), ?_, popRoom_fresh h, ?_, ?_,
    fun q hq => ?_, ?_⟩
  · rw [hquiet.rm.idMap, hopen]
    rfl
  · rw [hquiet.rm.poolRoom, hopen]
    exact hnot
  · rw [hquiet.rm.next, hopen]
    exact hlt
  · have hsame := (hquiet.rm.rooms q).1
    rw [g.openRoom_of_ne pid hq] at hsame
    exact hsame
  · have hsame := (hquiet.rm.rooms g.rm.popRoom.1).1
    rw [openRoom_self] at hsame
    exact hsame

/-! ## The rooms' registry -/

theorem hosting_new : GameNode.new.rm.Hosting :=
  ⟨FreeList.range 0 _, fun hk => (nomatch Std.TreeMap.getElem?_emptyc.symm.trans hk), rfl, fun _ => Room.clock_new⟩

theorem Opened.appendR {g₁ g₂ : GameNode} {r : Nat} {roomid : Int} (h : Opened g g₁ r roomid)
    (henter : g₁.rm.Entered r g₂.rm) : (g₂.rm.appendR r).Hosting := by
  have hhost := henter.hosting h.hosting
  refine ⟨hhost.free, fun {k q} hk => ?_, hhost.que, hhost.clock⟩
  rcases insert_eq_some.mp hk with ⟨rfl, rfl⟩ | ⟨-, hk⟩
  · exact ⟨rfl, henter.poolRoom ▸ h.pooled, henter.next ▸ h.lt⟩
  · exact hhost.idMap hk

theorem hosting_stepped (h : g.rm.Hosting) (hs : Stepped pb g o g') : g'.rm.Hosting := by
  cases hs with
  | createConn clifd buf msgs ms => exact h
  | scanTimeout ms => exact h
  | delTimeout => exact h
  | quiet hq => exact hq.rm.hosting h
  | register hmsg hroom hrid hset => exact (RoomMgr.entered_enterP ..).hosting h
  | newRoom hbody hlen hopen henter =>
    subst henter
    exact (opened h hopen).appendR (entered_enterNews _ _ _)
  | badRoom hopen =>
    have ho := opened h hopen
    refine ⟨ho.hosting.free.push ho.pooled ho.lt, fun {k q} hk => ?_, ho.hosting.que, ho.hosting.clock⟩
    have hold : g.rm.idMap[k]? = some q := ho.idMap ▸ hk
    obtain ⟨hroomid, hpool, hlt⟩ := ho.hosting.idMap hk
    refine ⟨hroomid, fun hin => ?_, hlt⟩
    rcases List.mem_append.mp hin with hin | hin
    · exact hpool hin
    · exact ho.fresh k (List.mem_singleton.mp hin ▸ hold)
  | offline hp hq => exact hq.rm.hosting h
  | enter hroom hp => exact (RoomMgr.entered_enterP ..).hosting h
  | update hpass => exact hpass.hosting

/-- The rooms' registry, in every run. -/
theorem hosting_of_reach {P : GameNode → GameOp → Prop} (h : Reach (step pb) P .new g) : g.rm.Hosting :=
  h.invariant (I := (·.rm.Hosting)) hosting_new fun _ _ _ hs _ heq => hosting_stepped hs (stepped hs heq)

end GameNode

end KcpServer
