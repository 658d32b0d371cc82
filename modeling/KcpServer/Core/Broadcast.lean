import KcpServer.Core.Owner

/-!
# Who a room broadcasts to

A room keeps the `UDPConn`s of its players in `m_pidConn` and writes every frame to all of them. `Broadcasts` says that
such an object is open, as the session of the player that has registered it. Closing a session does not take it off the
list, so a closed object stays there, goes back to the pool and is handed out to another client. `Spares` is the condition
under which no step closes a session that a room lists, gives its id away or changes the player that it is listed for;
`broadcasts` says that `Broadcasts` then holds in every run, also within a pass of `Update`.
-/

namespace KcpServer
open Lib

namespace GameNode

/-- The entry `(pid, c)` of the list of room `r` is an open session, that of the player who has the pid in the room. -/
structure Current (g : GameNode) (r : Nat) (pid : Int) (c : Nat) : Prop where
  sess : g.kcp.mapSessFd[(g.kcp.conns c).id]? = some c
  player : ∃ p, (g.room r).getP pid = some p ∧ (g.pm.players p).sessid = (g.kcp.conns c).id

/-- Every entry of a registered room is current. -/
def Listing (g : GameNode) : Prop := ∀ r ∈ g.live, ∀ pid c, (g.room r).pidConn[pid]? = some c → g.Current r pid c

/-- Every entry of a registered room is current, and its object is not in the pool. -/
def Broadcasts (g : GameNode) : Prop :=
  ∀ r ∈ g.live, ∀ pid c, (g.room r).pidConn[pid]? = some c → g.Current r pid c ∧ c ∉ g.kcp.pool

/-- The entries of the registered rooms: the room, the pid and the object. -/
def listed (g : GameNode) : List (Nat × Int × Nat) :=
  g.live.flatMap fun r => (g.room r).pidConn.toList.map fun e => (r, e.1, e.2)

/-- The ids of the sessions that registered rooms list. -/
def listedIds (g : GameNode) : List Int := g.listed.map fun e => (g.kcp.conns e.2.2).id

variable {pb : Pb} {g g' : GameNode} {o : GameOp} {r c : Nat} {pid : Int}

theorem mem_listed : (r, pid, c) ∈ g.listed ↔ r ∈ g.live ∧ (g.room r).pidConn[pid]? = some c := by
  unfold listed
  rw [List.mem_flatMap]
  constructor
  · rintro ⟨r', hr, hmem⟩
    obtain ⟨⟨pid', c'⟩, he, heq⟩ := List.mem_map.mp hmem
    cases heq
    exact ⟨hr, Std.TreeMap.mem_toList_iff_getElem?_eq_some.mp he⟩
  · rintro ⟨hr, he⟩
    exact ⟨r, hr, List.mem_map.mpr ⟨(pid, c), Std.TreeMap.mem_toList_iff_getElem?_eq_some.mpr he, rfl⟩⟩

theorem mem_listedIds (hr : r ∈ g.live) (he : (g.room r).pidConn[pid]? = some c) :
    (g.kcp.conns c).id ∈ g.listedIds := List.mem_map.mpr ⟨(r, pid, c), mem_listed.mpr ⟨hr, he⟩, rfl⟩

/-! ## The condition -/

/-- The steps that leave the listed sessions alone:
* a new session does not get the id of a listed one (the ids are `int`s and wrap around);
* the timeout thread does not delete a listed session (one that has registered since the scan);
* a registration is of a player that no other entry is for, and whose previous session no other entry lists;
* `NewRoom` takes no player object that an entry of another room is for;
* gate's `EnterP` does not put another player in the place of one that is listed;
* `OfflineP` is not about a player whose session is listed;
* no room that a pass finishes has a player whose session is listed by a room that is not finished before it. -/
def Spares (pb : Pb) (g : GameNode) : GameOp → Prop
  | .createConn _ _ _ _ => int32 (g.kcp.sessId + 1) ∉ g.listedIds
  | .delTimeout => ∀ fd ∈ g.kcp.delQue.head?, ∀ c ∈ g.kcp.mapConn[fd]?, (g.kcp.conns c).id ∉ g.listedIds
  | .kcp obj =>
    obj.msgid = 2004 → ∀ r ∈ g.rm.idMap[obj.roomid]?, ∀ p ∈ (g.room r).ridPMap[pb.rid2004 obj.body]?,
      ∀ e ∈ g.listed, ¬ (e.1 = r ∧ e.2.1 = obj.pid) →
        ((g.pm.players p).sessid ≠ 0 → (g.kcp.conns e.2.2).id ≠ (g.pm.players p).sessid) ∧
          ((g.room e.1).getP e.2.1 = some p → (g.kcp.conns e.2.2).id = obj.sessid)
  | .newRoom pid body =>
    ∀ b ∈ (parseNewRoom body).toOption, b.pidvec.length = b.ridvec.length ∧ b.ridvec.length = b.campvec.length →
      ∀ p ∈ g.pm.taken b.pidvec.length, ∀ e ∈ g.listed, g.rm.idMap[int32 pid]? ≠ some e.1 →
        (g.room e.1).getP e.2.1 = some p → (g.kcp.conns e.2.2).id = 0
  | .enterP body =>
    ∀ r ∈ g.rm.idMap[((strtok 44 body)[2]?.map atoi).getD 0]?,
      ∀ p ∈ g.pm.pidPMap[int32 (((strtok 44 body)[0]?.map atoull).getD 0 : Nat)]?,
        ∀ c ∈ (g.room r).pidConn[(g.pm.players p).pid]?, (g.pm.players p).sessid = (g.kcp.conns c).id
  | .offlineP pid => ∀ p ∈ g.pm.ridPMap[pid]?, (g.pm.players p).sessid ∉ g.listedIds
  | .update _ =>
    ∀ e ∈ g.rm.idMap.toList, (g.room e.2).finishing = true →
      ∀ rid ∈ (g.room e.2).ridPMap.keys, ∀ p ∈ g.pm.ridPMap[rid]?,
        ∀ e' ∈ g.rm.idMap.toList, ((g.room e'.2).finishing = true → e.1 < e'.1) →
          ∀ c ∈ (g.room e'.2).pidConn.values, (g.kcp.conns c).id ≠ (g.pm.players p).sessid
  | _ => True

instance (pb : Pb) (g : GameNode) (o : GameOp) : Decidable (g.Spares pb o) :=
  match o with
  | .createConn _ _ _ _ => inferInstanceAs (Decidable (_ ∉ _))
  | .delTimeout => inferInstanceAs (Decidable (∀ fd ∈ _, ∀ c ∈ _, _ ∉ _))
  | .kcp _ => inferInstanceAs (Decidable (_ = _ → ∀ r ∈ _, ∀ p ∈ _, ∀ e ∈ _, ¬ (_ ∧ _) → (_ ≠ _ → _ ≠ _) ∧ (_ = _ → _ = _)))
  | .newRoom _ _ => inferInstanceAs (Decidable (∀ b ∈ _, _ ∧ _ → ∀ p ∈ _, ∀ e ∈ _, _ ≠ _ → _ = _ → _ = _))
  | .enterP _ => inferInstanceAs (Decidable (∀ r ∈ _, ∀ p ∈ _, ∀ c ∈ _, _ = _))
  | .offlineP _ => inferInstanceAs (Decidable (∀ p ∈ _, _ ∉ _))
  | .update _ => inferInstanceAs (Decidable (∀ e ∈ _, _ → ∀ rid ∈ _, ∀ p ∈ _, ∀ e' ∈ _, _ → ∀ c ∈ _, _ ≠ _))
  | .scanTimeout _ | .overRoom _ _ | .leaveP _ | .allPReady _ | .api2003 _ _ => isTrue trivial

/-! ## One step -/

/-- A step that adds no entry, keeps the sessions that are listed and their players. -/
theorem Listing.mono (h : g.Listing) (hk' : g'.kcp.Registry)
    (hent : ∀ r ∈ g'.live, ∀ pid c, (g'.room r).pidConn[pid]? = some c →
      (r ∈ g.live ∧ (g.room r).pidConn[pid]? = some c) ∧ g.kcp.StaysOpen g'.kcp (g.kcp.conns c).id ∧
        ∀ p, (g.room r).getP pid = some p → ∃ p', (g'.room r).getP pid = some p' ∧
          ((g'.pm.players p').sessid = (g.pm.players p).sessid ∨ (g'.pm.players p').sessid = (g.kcp.conns c).id)) :
    g'.Listing := by
  intro r hr pid c hc
  obtain ⟨⟨hr, hc⟩, hopen, hplayer⟩ := hent r hr pid c hc
  obtain ⟨hsess, p, hp, hpsess⟩ := h r hr pid c hc
  obtain ⟨p', hp', hsame⟩ := hplayer p hp
  have hsess' := hopen c hsess
  have hid : (g'.kcp.conns c).id = (g.kcp.conns c).id := (hk'.sess hsess').1
  refine ⟨by rw [hid]; exact hsess', p', hp', ?_⟩
  rw [hid]
  rcases hsame with hsame | hsame
  · exact hsame.trans hpsess
  · exact hsame

theorem listing_kcp {kcp : KCPServer} (h : g.Listing) (hk' : kcp.Registry)
    (hopen : ∀ sid ∈ g.listedIds, g.kcp.StaysOpen kcp sid) : ({ g with kcp } : GameNode).Listing := by
  refine h.mono hk' fun r hr pid c hc => ⟨⟨hr, hc⟩, hopen _ (mem_listedIds hr hc), fun p hp => ?_⟩
  exact ⟨p, hp, Or.inl rfl⟩

theorem listing_quiet (h : g.Listing) (hk : g.kcp.Registry) (hq : Quiet g g') : g'.Listing := by
  refine h.mono (by rw [hq.kcp]; exact hk) fun r hr pid c hc => ?_
  have hsame := (hq.rm.rooms r).1
  rw [mem_live, hq.rm.idMap, ← mem_live] at hr
  refine ⟨⟨hr, hsame.pidConn ▸ hc⟩, by rw [hq.kcp]; exact .refl _ _, fun p hp => ⟨p, ?_, by rw [hq.pm]; exact Or.inl rfl⟩⟩
  rw [Room.getP, hsame.pidPMap]
  exact hp

theorem removes_spec {rids : List Nat} (hk : g.kcp.Registry) (hrem : Removes g rids g') :
    g'.kcp.Registry ∧ (∀ p, (g'.pm.players p).sessid = (g.pm.players p).sessid) ∧
      ∀ sid, (∀ rid ∈ rids, ∀ p, g.pm.ridPMap[rid]? = some p → sid ≠ (g.pm.players p).sessid) →
        g.kcp.StaysOpen g'.kcp sid := by
  have hinv := removePs_invariant (g := g) rids (I := fun pm kcp =>
    kcp.Registry ∧ (∀ p, (pm.players p).sessid = (g.pm.players p).sessid) ∧
      (∀ (rid p : Nat), pm.ridPMap[rid]? = some p → g.pm.ridPMap[rid]? = some p) ∧
      ∀ sid, (∀ rid ∈ rids, ∀ p, g.pm.ridPMap[rid]? = some p → sid ≠ (g.pm.players p).sessid) →
        g.kcp.StaysOpen kcp sid) ⟨hk, fun _ => rfl, fun _ _ h => h, fun _ _ => .refl _ _⟩ ?_
  · rw [hrem.pm, hrem.kcp]
    exact ⟨hinv.1, hinv.2.1, hinv.2.2.2⟩
  · rintro pm kcp ⟨hreg, hsess, hsub, hopen⟩ rid hrid p hp
    rw [PlayerMgr.removeP_of_some hp]
    refine ⟨KCPServer.registry_closeConn hreg _, fun q => ?_, fun rid' p' hp' => ?_, fun sid hsid => ?_⟩
    · by_cases hq : q = p
      · subst hq
        simpa using hsess q
      · simpa [Heap.set_of_ne _ hq] using hsess q
    · exact hsub rid' p' (erase_eq_some.mp hp').2
    · refine (hopen sid hsid).trans (KCPServer.staysOpen_closeConn hreg ?_)
      rw [hsess p]
      exact hsid rid hrid p (hsub rid p hp)

/-- Players whose sessions no room lists are removed. -/
theorem listing_removes {rids : List Nat} (h : g.Listing) (hk : g.kcp.Registry)
    (hrooms : SameRooms g.rm.rooms g'.rm.rooms) (hlive : ∀ q ∈ g'.live, q ∈ g.live) (hrem : Removes g rids g')
    (hnot : ∀ rid ∈ rids, ∀ p, g.pm.ridPMap[rid]? = some p → ∀ q ∈ g'.live, ∀ c ∈ (g.room q).pidConn.values,
      (g.kcp.conns c).id ≠ (g.pm.players p).sessid) : g'.Listing := by
  obtain ⟨hk', hsess, hopen⟩ := removes_spec hk hrem
  refine h.mono hk' fun r hr pid c hc => ?_
  have hsame := (hrooms r).1
  have hc : (g.room r).pidConn[pid]? = some c := hsame.pidConn ▸ hc
  refine ⟨⟨hlive r hr, hc⟩, hopen _ fun rid hrid p hp => ?_, fun p hp => ⟨p, ?_, Or.inl (hsess p)⟩⟩
  · exact hnot rid hrid p hp r hr c (mem_values.mpr ⟨pid, hc⟩)
  · rw [Room.getP, hsame.pidPMap]
    exact hp

theorem registered_fields {p c : Nat} {id pid : Int} {pm : PlayerMgr} {kcp : KCPServer}
    (hset : (g.pm.updatePlayer p pid).setSessid g.kcp p id pid = .ok (pm, kcp, c)) :
    pm.players p = { g.pm.players p with sessid := id, pid, off := false } ∧
      (∀ q ≠ p, pm.players q = g.pm.players q) ∧
      kcp.mapSessFd = ((g.pm.updatePlayer p pid).closeOld g.kcp p).mapSessFd ∧ kcp.mapSessFd[id]? = some c := by
  obtain ⟨hconn, rfl, rfl⟩ := PlayerMgr.setSessid_eq_ok.mp hset
  have hmap := KCPServer.mapSessFd_bindConn ((g.pm.updatePlayer p pid).closeOld g.kcp p) id
  refine ⟨?_, fun q hq => ?_, hmap, by rw [hmap]; exact hconn⟩
  · simp [PlayerMgr.updatePlayer, PlayerMgr.modify, PlayerMgr.appendP]
  · simp [PlayerMgr.updatePlayer, PlayerMgr.modify, PlayerMgr.appendP, Heap.set_of_ne _ hq]

/-- A registration lists its own entry anew and leaves the others alone. -/
theorem listing_register {obj : KcpCall} {r p pconn : Nat} {pm : PlayerMgr} {kcp : KCPServer} (h : g.Listing)
    (hk : g.kcp.Registry) (hmsg : obj.msgid = 2004) (hspare : g.Spares pb (.kcp obj))
    (hroom : g.rm.idMap[obj.roomid]? = some r) (hrid : (g.room r).ridPMap[pb.rid2004 obj.body]? = some p)
    (hset : (g.pm.updatePlayer p obj.pid).setSessid g.kcp p obj.sessid obj.pid = .ok (pm, kcp, pconn)) :
    ({ kcp, pm, rm := g.rm.enterP pm.players r p (some pconn) } : GameNode).Listing := by
  have hk' : kcp.Registry := PlayerMgr.registry_setSessid hk hset
  obtain ⟨hself, hother, hmap, hconn⟩ := registered_fields hset
  have hentered := RoomMgr.entered_enterP g.rm pm.players r p (some pconn)
  have hsame := g.rm.same_enterP pm.players r p (some pconn)
  -- an entry that was there before, and is not the one of this pid
  have hkept : ∀ q ∈ g.live, ∀ pid c, ¬ (q = r ∧ pid = obj.pid) → (g.room q).pidConn[pid]? = some c →
      kcp.mapSessFd[(kcp.conns c).id]? = some c ∧
        ∃ p', (g.room q).getP pid = some p' ∧ (pm.players p').sessid = (kcp.conns c).id := by
    intro q hq pid c hne hc
    obtain ⟨hsess, p', hp', hpsess⟩ := h q hq pid c hc
    obtain ⟨hold, hplayer⟩ := hspare hmsg r hroom p hrid (q, pid, c) (mem_listed.mpr ⟨hq, hc⟩) hne
    have hsess' : kcp.mapSessFd[(g.kcp.conns c).id]? = some c := by
      rw [hmap, closeOld_updatePlayer]
      split
      · exact hsess
      · next hzero => exact KCPServer.staysOpen_closeConn hk (hold hzero) c hsess
    have hid := (hk'.sess hsess').1
    rw [hid]
    refine ⟨hsess', p', hp', ?_⟩
    by_cases hpp : p' = p
    · subst hpp
      rw [hself]
      exact (hplayer hp').symm
    · rw [hother p' hpp]
      exact hpsess
  intro q hq pid c hc
  have hlive : q ∈ g.live := by
    obtain ⟨k, hk⟩ := mem_live.mp hq
    exact mem_live.mpr ⟨k, hentered.idMap ▸ hk⟩
  by_cases hqr : q = r
  · rw [hqr] at hc hlive ⊢
    have hgetP : ∀ pid, ((g.rm.enterP pm.players r p (some pconn)).rooms r).getP pid =
        ((g.room r).pidPMap.insert obj.pid p)[pid]? := by
      intro pid
      rw [Room.getP, hsame.pidPMap, Room.enter, hself]
    have hc : ((g.room r).pidConn.insert obj.pid pconn)[pid]? = some c := by
      have hc : ((g.rm.enterP pm.players r p (some pconn)).rooms r).pidConn[pid]? = some c := hc
      rw [hsame.pidConn, Room.enter, hself] at hc
      exact hc
    rcases insert_eq_some.mp hc with ⟨rfl, rfl⟩ | ⟨hne, hc⟩
    · -- the entry of this registration
      have hid := (hk'.sess hconn).1
      refine ⟨?_, p, (hgetP _).trans (insert_eq_some.mpr (Or.inl ⟨rfl, rfl⟩)), ?_⟩
      · dsimp only
        rw [hid]
        exact hconn
      · dsimp only
        rw [hself, hid]
    · obtain ⟨hsess, p', hp', hplayer⟩ := hkept r hlive pid c (fun h => hne h.2) hc
      exact ⟨hsess, p', (hgetP pid).trans ((getElem?_insert_of_ne hne).trans hp'), hplayer⟩
  · have hroom : (g.rm.enterP pm.players r p (some pconn)).rooms q = g.room q := hentered.others q hqr
    obtain ⟨hsess, p', hp', hplayer⟩ := hkept q hlive pid c (fun h => hqr h.1) (hroom ▸ hc)
    exact ⟨hsess, p', (congrArg (·.getP pid) hroom).trans hp', hplayer⟩

theorem listing_enterP {r p : Nat} (h : g.Listing) (hk : g.kcp.Registry) (hr : r ∈ g.live)
    (hspare : ∀ c ∈ (g.room r).pidConn[(g.pm.players p).pid]?, (g.pm.players p).sessid = (g.kcp.conns c).id) :
    ({ g with rm := g.rm.enterP g.pm.players r p none } : GameNode).Listing := by
  have hentered := RoomMgr.entered_enterP g.rm g.pm.players r p none
  have hsame := g.rm.same_enterP g.pm.players r p none
  refine h.mono hk fun q hq pid c hc => ?_
  have hlive : q ∈ g.live := by
    obtain ⟨k, hk⟩ := mem_live.mp hq
    exact mem_live.mpr ⟨k, hentered.idMap ▸ hk⟩
  by_cases hqr : q = r
  · rw [hqr] at hc ⊢
    have hc : (g.room r).pidConn[pid]? = some c := by
      have hc : ((g.rm.enterP g.pm.players r p none).rooms r).pidConn[pid]? = some c := hc
      rw [hsame.pidConn] at hc
      exact hc
    refine ⟨⟨hr, hc⟩, .refl _ _, fun p' hp' => ?_⟩
    have hgetP : ((g.rm.enterP g.pm.players r p none).rooms r).getP pid =
        ((g.room r).pidPMap.insert (g.pm.players p).pid p)[pid]? := by
      rw [Room.getP, hsame.pidPMap, Room.enter]
    by_cases hpid : pid = (g.pm.players p).pid
    · exact ⟨p, hgetP.trans (insert_eq_some.mpr (Or.inl ⟨hpid, rfl⟩)), Or.inr (hspare c (hpid ▸ hc))⟩
    · exact ⟨p', hgetP.trans ((getElem?_insert_of_ne hpid).trans hp'), Or.inl rfl⟩
  · have hroom : (g.rm.enterP g.pm.players r p none).rooms q = g.room q := hentered.others q hqr
    exact ⟨⟨hlive, hroom ▸ hc⟩, .refl _ _, fun p' hp' => ⟨p', (congrArg (·.getP pid) hroom).trans hp', Or.inl rfl⟩⟩

/-- Which objects are taken depends on the pool and the number of objects. -/
theorem taken_congr {m m' : PlayerMgr} (hnext : m.players.next = m'.players.next) (hpool : m.pool = m'.pool) (n : Nat) :
    m.taken n = m'.taken n := by
  induction n generalizing m m' with
  | zero => rfl
  | succ n ih =>
    unfold PlayerMgr.taken PlayerMgr.popPlayer pop
    rw [← hpool]
    cases m.pool with
    | nil => exact congrArg₂ List.cons hnext (ih (congrArg (· + 1) hnext) rfl)
    | cons q pool => exact congrArg (List.cons q) (ih hnext rfl)

/-- The enter loop of `NewRoom` overwrites the players that it takes. -/
theorem enterNews_players (g : GameNode) (r : Nat) (es : List (Int × Nat × Int)) (p : Nat) :
    (g.enterNews r es).pm.players p = g.pm.players p ∨
      p ∈ g.pm.taken es.length ∧ ((g.enterNews r es).pm.players p).sessid = 0 := by
  induction es generalizing g with
  | nil => exact Or.inl rfl
  | cons e es ih =>
    obtain ⟨q, players, pool, hpop, heq⟩ := g.enterNew_eq r e.1 e.2.1 e.2.2
    have htaken : g.pm.taken (e :: es).length = q :: (g.enterNew r e.1 e.2.1 e.2.2).pm.taken es.length := by
      rw [List.length_cons, PlayerMgr.taken, PlayerMgr.popPlayer, hpop, heq]
      exact congrArg (List.cons q) (taken_congr (by rfl) (by rfl) _)
    rw [htaken, List.mem_cons]
    rcases ih (g.enterNew r e.1 e.2.1 e.2.2) with hsame | ⟨hin, hzero⟩
    · by_cases hq : p = q
      · subst hq
        refine Or.inr ⟨Or.inl rfl, ?_⟩
        rw [enterNews, hsame, heq, Heap.set_self]
      · left
        rw [enterNews, hsame, heq, Heap.set_of_ne _ hq, pop_of_ne hpop hq]
    · exact Or.inr ⟨Or.inr hin, hzero⟩

theorem enterNews_pidConn (g : GameNode) (r : Nat) (es : List (Int × Nat × Int)) :
    ((g.enterNews r es).room r).pidConn = (g.room r).pidConn := by
  induction es generalizing g with
  | nil => rfl
  | cons e es ih =>
    obtain ⟨q, players, pool, -, heq⟩ := g.enterNew_eq r e.1 e.2.1 e.2.2
    rw [enterNews, ih, heq]
    exact (g.rm.same_enterP (players.set q ⟨e.1, 0, e.2.1, (g.room r).roomid, false, e.2.2⟩) r q none).pidConn

/-- `NewRoom` registers a room that lists nobody, in place of the one of its id. -/
theorem listing_newRoom {pid : Nat} {b : NewRoomBody} {body : Bytes} {g₁ : GameNode} (hhost : g.rm.Hosting)
    (h : g.Listing) (hk : g.kcp.Registry) (hbody : parseNewRoom body = .ok b)
    (hlen : b.pidvec.length = b.ridvec.length ∧ b.ridvec.length = b.campvec.length)
    (hspare : g.Spares pb (.newRoom pid body)) (hopen : Quiet (g.openRoom pid) g₁) :
    let g₂ := g₁.enterNews g.rm.popRoom.1 (b.pidvec.zip (b.ridvec.zip b.campvec))
    ({ g₂ with rm := g₂.rm.appendR g.rm.popRoom.1 } : GameNode).Listing := by
  have ho := opened hhost hopen
  set r := g.rm.popRoom.1
  set es := b.pidvec.zip (b.ridvec.zip b.campvec) with hes
  have hcount : es.length = b.pidvec.length := by
    rw [hes, List.length_zip, List.length_zip]
    omega
  have hentered := entered_enterNews g₁ r es
  have hkcp : (g₁.enterNews r es).kcp = g.kcp := (enterNews_kcp _ _ _).trans ho.kcp
  have hid := idMap_newRoom hopen hentered
  refine h.mono (by rw [hkcp]; exact hk) fun q hq pid' c hc => ?_
  by_cases hqr : q = r
  · -- the new room lists nobody
    rw [hqr] at hc
    have hc : ((g₁.enterNews r es).room r).pidConn[pid']? = some c := hc
    rw [enterNews_pidConn, ho.init.pidConn] at hc
    exact nomatch Std.TreeMap.getElem?_emptyc.symm.trans hc
  · obtain ⟨k, hkq⟩ := mem_live.mp hq
    dsimp only at hkq
    rw [hid] at hkq
    obtain ⟨hkne, hkq⟩ : k ≠ int32 pid ∧ g.rm.idMap[k]? = some q :=
      (insert_eq_some.mp hkq).resolve_left fun hnew => hqr hnew.2
    have hsame : (g.room q).Same ((g₁.enterNews r es).room q) := by
      rw [show (g₁.enterNews r es).room q = g₁.room q from hentered.others q hqr]
      exact ho.same q hqr
    have hc : (g.room q).pidConn[pid']? = some c := hsame.pidConn ▸ hc
    have hlive : q ∈ g.live := mem_live.mpr ⟨k, hkq⟩
    refine ⟨⟨hlive, hc⟩, by rw [hkcp]; exact .refl _ _, fun p hp => ⟨p, ?_, ?_⟩⟩
    · exact (congrArg (·[pid']?) hsame.pidPMap).trans hp
    · rcases enterNews_players g₁ r es p with hsess | ⟨hin, hzero⟩
      · left
        dsimp only
        rw [hsess, ho.pm]
      · right
        rw [ho.pm, hcount] at hin
        have hother : g.rm.idMap[int32 pid]? ≠ some q := fun hk' => hkne (hhost.inj hkq hk')
        exact hzero.trans (hspare b (by rw [hbody]; rfl) hlen p hin (q, pid', c) (mem_listed.mpr ⟨hlive, hc⟩) hother
          hp).symm

theorem listing_stepped (hhost : g.rm.Hosting) (hk : g.kcp.Registry) (h : g.Listing) (henv : g.Env o)
    (hspare : g.Spares pb o) (hs : Stepped pb g o g') : g'.Listing := by
  have hk' : g'.kcp.Registry := registry_stepped hk henv hs
  cases hs with
  | createConn clifd buf msgs ms =>
    refine listing_kcp h hk' fun sid hsid => KCPServer.staysOpen_createConn ?_
    rintro rfl
    exact hspare hsid
  | scanTimeout ms =>
    refine listing_kcp h hk' fun sid _ c hc => ?_
    rw [KCPServer.mapSessFd_scanTimeout]
    exact hc
  | delTimeout =>
    refine listing_kcp h hk' fun sid hsid => KCPServer.staysOpen_delTimeout fun fd hfd c hc => ?_
    rintro rfl
    exact hspare fd hfd c hc hsid
  | quiet hq => exact listing_quiet h hk hq
  | register hmsg hroom hrid hset => exact listing_register h hk hmsg hspare hroom hrid hset
  | newRoom hbody hlen hopen henter =>
    subst henter
    exact listing_newRoom hhost h hk hbody hlen hspare hopen
  | badRoom hopen =>
    have ho := opened hhost hopen
    refine h.mono hk' fun q hq pid c hc => ?_
    obtain ⟨k, hkq⟩ := mem_live.mp hq
    have hkq : g.rm.idMap[k]? = some q := ho.idMap ▸ hkq
    have hsame := ho.same q fun hqr => ho.fresh k (hqr ▸ hkq)
    refine ⟨⟨mem_live.mpr ⟨k, hkq⟩, hsame.pidConn ▸ hc⟩, by dsimp only; rw [ho.kcp]; exact .refl _ _, fun p hp => ?_⟩
    exact ⟨p, (congrArg (·[pid]?) hsame.pidPMap).trans hp, Or.inl (by dsimp only; rw [ho.pm])⟩
  | @offline pid p g' hp hq =>
    have hkcp : (g.pm.offline g.kcp p).2.Registry := KCPServer.registry_closeConn hk _
    have hoff : (⟨(g.pm.offline g.kcp p).2, (g.pm.offline g.kcp p).1, g.rm⟩ : GameNode).Listing := by
      refine h.mono hkcp fun r hr pid c hc => ⟨⟨hr, hc⟩, KCPServer.staysOpen_closeConn hk ?_, fun p' hp' => ?_⟩
      · intro hid
        exact hspare p hp (hid ▸ mem_listedIds hr hc)
      · refine ⟨p', hp', Or.inl ?_⟩
        by_cases hpp : p' = p
        · subst hpp
          simp [PlayerMgr.offline, PlayerMgr.modify]
        · simp [PlayerMgr.offline, PlayerMgr.modify, Heap.set_of_ne _ hpp]
    exact listing_quiet hoff hkcp hq
  | enter hroom hp => exact listing_enterP h hk (mem_live.mpr ⟨_, hroom⟩) (hspare _ hroom _ hp)
  | update hpass =>
    exact listing_removes h hk hpass.rooms hpass.live hpass.removes (removed_passed hspare hpass)

/-! ## Every run -/

theorem listing_new : GameNode.new.Listing := by
  intro r hr
  obtain ⟨k, hk⟩ := mem_live.mp hr
  exact nomatch Std.TreeMap.getElem?_emptyc.symm.trans hk

theorem broadcasts_of_listing (h : g.Listing) (hk : g.kcp.Registry) : g.Broadcasts := fun r hr pid c hc =>
  ⟨h r hr pid c hc, hk.not_mem_pool (h r hr pid c hc).sess⟩

/-- **Who gets a room's frames.** In every run whose steps spare the listed sessions, in every state that is reached and in
every state within a pass of `Update`, every entry of every registered room is the open session of the player that has
the pid, and every frame that a registered room sends in a pass goes to such entries only. -/
theorem broadcasts (pb : Pb) (g : GameNode) (h : Reach (step pb) (fun g o => g.Env o ∧ g.Spares pb o) .new g) :
    g.Broadcasts ∧ ∀ ms g', g.Spares pb (.update ms) → g.WithinPass ms g' → g'.Broadcasts ∧
      ∀ r ∈ g'.live, ∀ g'' ret outs, g'.updateRoom r ms = .ok (g'', ret, outs) →
        ∀ q conns data, Out.frame q conns data ∈ outs → q = r ∧ ∀ c ∈ conns, ∃ pid, g'.Current r pid c ∧ c ∉ g'.kcp.pool := by
  have hhost := hosting_of_reach h
  have hk := registry_of_reach (fun _ _ ho => ho.1) h
  have hlist : g.Listing := h.invariant_of (J := Listing)
    (I := fun g => g.rm.Hosting ∧ g.kcp.Registry)
    (fun _ ht => ⟨hosting_of_reach ht, registry_of_reach (fun _ _ ho => ho.1) ht⟩) listing_new
    fun _ _ _ hI hs ho heq => listing_stepped hI.1 hI.2 hs ho.1 ho.2 (stepped hI.1 heq)
  refine ⟨broadcasts_of_listing hlist hk, fun ms g' hspare hpass => ?_⟩
  obtain ⟨es, es', outs, hes, hup⟩ := hpass.updatedRooms hhost
  have hstart : ({ g with rm := { g.rm with lastMs := ms } } : GameNode).Listing :=
    listing_quiet hlist hk (quiet_rm ⟨.refl _, rfl, rfl, rfl, rfl⟩)
  have hlist' : g'.Listing :=
    listing_removes hstart hk hup.rooms hup.live hup.removes (removed_updateRooms hspare hes hup)
  have hk' : g'.kcp.Registry := (removes_spec (g := { g with rm := { g.rm with lastMs := ms } }) hk hup.removes).1
  have hb := broadcasts_of_listing hlist' hk'
  refine ⟨hb, fun r hr g'' ret outs' heq q conns data hout => ?_⟩
  have hclock : (g'.room r).Clock := (hup.rooms r).2 (hhost.clock r)
  obtain ⟨rfl, rfl⟩ := (updateRoom_spec hclock heq).frames hout
  refine ⟨rfl, fun c hc => ?_⟩
  obtain ⟨pid, hc⟩ := mem_values.mp hc
  exact ⟨pid, hb q hr pid c hc⟩

/-! ## A player that goes offline -/

set_option maxRecDepth 100000 in
/-- The session of a player that goes offline is closed and stays on its room's list. -/
theorem not_broadcasts : ∃ pb g, Reach (step pb) Env .new g ∧ ¬ g.Broadcasts := by
  obtain ⟨g, hg, hlive, hconn, hnone⟩ := exists_run (P := Env) (oneRoom ++ [.kcp registration, .offlineP 7])
    (fun g => 0 ∈ g.live ∧ (g.room 0).pidConn[(1 : Int)]? = some 0 ∧ g.kcp.mapSessFd[(g.kcp.conns 0).id]? = none)
    (by decide +kernel)
  refine ⟨ridParser, g, hg, fun h => ?_⟩
  have hsess := (h 0 hlive 1 0 hconn).1.sess
  rw [hnone] at hsess
  cases hsess

set_option maxRecDepth 100000 in
/-- A player that has registered. -/
theorem broadcasts_registered : ∃ g : GameNode, g.listed = [(0, 1, 0)] ∧
    (g.Broadcasts ∧ ∀ ms g', g.Spares ridParser (.update ms) → g.WithinPass ms g' → g'.Broadcasts ∧
      ∀ r ∈ g'.live, ∀ g'' ret outs, g'.updateRoom r ms = .ok (g'', ret, outs) →
        ∀ q conns data, Out.frame q conns data ∈ outs →
          q = r ∧ ∀ c ∈ conns, ∃ pid, g'.Current r pid c ∧ c ∉ g'.kcp.pool) := by
  obtain ⟨g, hg, hlisted⟩ := exists_run (P := fun g o => g.Env o ∧ g.Spares ridParser o) (oneRoom ++ [.kcp registration])
    (fun g => g.listed = [(0, 1, 0)]) (by decide +kernel)
  exact ⟨g, hlisted, broadcasts ridParser g hg⟩

end GameNode

end KcpServer
