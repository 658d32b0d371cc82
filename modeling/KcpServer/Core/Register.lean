import KcpServer.Core.Node

/-!
# Registration of a KCP session

Message 2004 ties a session to a player. `setSessid` closes the player's previous session first and then binds the new
one, so a session that registers for the same player twice closes itself and the assertion behind `BindConn` fails.
`registration_iff` says that nothing else goes wrong, in any state that a game node reaches.
-/

namespace KcpServer
open Lib

namespace PlayerMgr
variable {m m' : PlayerMgr} {kcp kcp' : KCPServer} {p c : Nat} {id pid : Int}

/-- The sessions behind the first statement of `setSessid`. -/
def closeOld (m : PlayerMgr) (kcp : KCPServer) (p : Nat) : KCPServer :=
  if (m.players p).sessid ≠ 0 then kcp.rawCloseConn (m.players p).sessid else kcp

/-- `setSessid` succeeds when the new session is still there behind the closing of the old one. -/
theorem setSessid_eq_ok : m.setSessid kcp p id pid = .ok (m', kcp', c) ↔
    (m.closeOld kcp p).mapSessFd[id]? = some c ∧ m' = m.modify p ({ · with sessid := id, pid, off := false }) ∧
      kcp' = ((m.closeOld kcp p).bindConn id).1 := by
  unfold setSessid
  dsimp only
  rw [← closeOld, KCPServer.bindConn, KCPServer.rawGetConn]
  cases hc : (m.closeOld kcp p).mapSessFd[id]? with
  | none => simp
  | some d =>
    simp only [modify, Heap.set_self, Heap.set_set, Except.ok.injEq, Prod.mk.injEq, Option.some.injEq]
    constructor
    · rintro ⟨rfl, rfl, rfl⟩
      exact ⟨rfl, rfl, rfl⟩
    · rintro ⟨rfl, rfl, rfl⟩
      exact ⟨rfl, rfl, rfl⟩

theorem setSessid_error (h : (m.closeOld kcp p).mapSessFd[id]? = none) : m.setSessid kcp p id pid = .error .assertion := by
  unfold setSessid
  dsimp only
  rw [← closeOld, KCPServer.bindConn, KCPServer.rawGetConn, h]

theorem closeOld_eq (m : PlayerMgr) (kcp : KCPServer) (p : Nat) :
    m.closeOld kcp p = if (m.players p).sessid = 0 then kcp else kcp.closeConn (m.players p).sessid := by
  unfold closeOld
  rw [KCPServer.rawCloseConn_eq_closeConn]
  exact ite_not ..

theorem registry_closeOld (h : kcp.Registry) (p : Nat) : (m.closeOld kcp p).Registry := by
  rw [closeOld_eq]
  split
  · exact h
  · exact KCPServer.registry_closeConn h _

theorem registry_setSessid (h : kcp.Registry) (heq : m.setSessid kcp p id pid = .ok (m', kcp', c)) : kcp'.Registry := by
  obtain ⟨-, -, rfl⟩ := setSessid_eq_ok.mp heq
  exact KCPServer.registry_bindConn (registry_closeOld h p) id

theorem updatePlayer_sessid (m : PlayerMgr) (p : Nat) (pid : Int) :
    ((m.updatePlayer p pid).players p).sessid = (m.players p).sessid := by
  simp [updatePlayer, modify, appendP]

end PlayerMgr

namespace GameNode
variable {pb : Pb} {g g' : GameNode} {o : GameOp}

/-! ## The sessions of a game node -/

theorem registry_stepped (h : g.kcp.Registry) (henv : g.Env o) (hs : Stepped pb g o g') : g'.kcp.Registry := by
  cases hs with
  | createConn clifd buf msgs ms => exact KCPServer.registry_createConn h henv buf msgs ms
  | scanTimeout ms => exact KCPServer.registry_scanTimeout h ms
  | delTimeout => exact KCPServer.registry_delTimeout h
  | quiet hq => rw [hq.kcp]; exact h
  | register hmsg hroom hrid hset => exact PlayerMgr.registry_setSessid h hset
  | newRoom hbody hlen hopen henter =>
    subst henter
    change (GameNode.enterNews _ _ _).kcp.Registry
    rw [enterNews_kcp, hopen.kcp]
    exact h
  | badRoom hopen =>
    rw [hopen.kcp]
    exact h
  | offline hp hq => rw [hq.kcp]; exact KCPServer.registry_closeConn h _
  | enter hroom hp => exact h
  | update hpass =>
    rw [hpass.removes.kcp]
    refine removePs_invariant (I := fun _ kcp => kcp.Registry) _ h fun pm kcp hk rid _ p hp => ?_
    rw [PlayerMgr.removeP_of_some hp]
    exact KCPServer.registry_closeConn hk _

theorem registry_of_reach {P : GameNode → GameOp → Prop} (henv : ∀ g o, P g o → g.Env o)
    (h : Reach (step pb) P .new g) : g.kcp.Registry :=
  h.invariant_of (J := (·.kcp.Registry)) (fun _ ht => hosting_of_reach ht) (KCPServer.registry_withPool _)
    fun s o _ hs hk hp heq => registry_stepped hk (henv s o hp) (stepped hs heq)

/-! ## Registering -/

/-- What a registration of the player `p` on the session `s`, of the object `c`, leaves: the player has the session, the
session is bound and still registered, and nothing is gone but the player's previous session. -/
structure Registered (g g' : GameNode) (p : Nat) (s : Int) (c : Nat) : Prop where
  sessid : (g'.pm.players p).sessid = s
  bind : (g'.kcp.conns c).bind = true
  sess : g'.kcp.mapSessFd[s]? = some c
  conn : g'.kcp.mapConn[(g'.kcp.conns c).fd]? = some c
  sessions : ∀ {t : Int} {d : Nat}, g.kcp.mapSessFd[t]? = some d →
    g'.kcp.mapSessFd[t]? = some d ∨ t = (g.pm.players p).sessid ∧ t ≠ s
  descriptors : ∀ {fd : Int} {d : Nat}, g.kcp.mapConn[fd]? = some d →
    g'.kcp.mapConn[fd]? = some d ∨ (g.kcp.conns d).id = (g.pm.players p).sessid ∧ (g.kcp.conns d).id ≠ s

section Registration
variable {obj : KcpCall} {r p c : Nat} {s pid : Int}

/-- `processKcp` on a registration that finds its room and its player. -/
theorem processKcp_register (hmsg : obj.msgid = 2004) (hroom : g.rm.idMap[obj.roomid]? = some r)
    (hrid : (g.room r).ridPMap[pb.rid2004 obj.body]? = some p) :
    g.processKcp pb obj = (·, []) <$> g.register r p obj.sessid obj.pid := by
  unfold processKcp RoomMgr.getRoom Room.getR
  rw [hroom]
  dsimp only
  rw [hmsg, if_neg (by decide), if_pos rfl, hrid]
  dsimp only
  cases g.register r p obj.sessid obj.pid <;> rfl

theorem closeOld_updatePlayer : (g.pm.updatePlayer p pid).closeOld g.kcp p =
    if (g.pm.players p).sessid = 0 then g.kcp else g.kcp.closeConn (g.pm.players p).sessid := by
  rw [PlayerMgr.closeOld_eq, PlayerMgr.updatePlayer_sessid]

theorem registered (r : Nat) (pid : Int) (hk : g.kcp.Registry) (hs : g.kcp.mapSessFd[s]? = some c)
    (hne : (g.pm.players p).sessid = 0 ∨ (g.pm.players p).sessid ≠ s) :
    ∃ g', g.register r p s pid = .ok g' ∧ Registered g g' p s c := by
  set kcp := (g.pm.updatePlayer p pid).closeOld g.kcp p with hkcp
  have hreg : kcp.Registry := PlayerMgr.registry_closeOld hk p
  have hsess : ∀ {t : Int} {d : Nat}, g.kcp.mapSessFd[t]? = some d →
      kcp.mapSessFd[t]? = some d ∨ t = (g.pm.players p).sessid ∧ (g.pm.players p).sessid ≠ 0 := by
    intro t d ht
    rw [hkcp, closeOld_updatePlayer]
    split
    · exact Or.inl ht
    · next hzero =>
      rw [KCPServer.mapSessFd_closeConn hk]
      by_cases heq : t = (g.pm.players p).sessid
      · exact Or.inr ⟨heq, hzero⟩
      · exact Or.inl ⟨heq, ht⟩
  have hconn : ∀ {fd : Int} {d : Nat}, g.kcp.mapConn[fd]? = some d → kcp.mapConn[fd]? = some d ∨
      (g.kcp.conns d).id = (g.pm.players p).sessid ∧ (g.pm.players p).sessid ≠ 0 := by
    intro fd d hfd
    rw [hkcp, closeOld_updatePlayer]
    split
    · exact Or.inl hfd
    · next hzero =>
      exact (KCPServer.mapConn_closeConn hk hfd).imp_right fun hd => ⟨(hk.sess hd).1, hzero⟩
  -- a session that is closed is another one than `s`
  have hother : ∀ {t : Int}, t = (g.pm.players p).sessid ∧ (g.pm.players p).sessid ≠ 0 → t ≠ s := by
    rintro t ⟨rfl, hzero⟩
    exact hne.resolve_left hzero
  have hs' : kcp.mapSessFd[s]? = some c := (hsess hs).resolve_right fun h => hother h rfl
  have hbind : (kcp.bindConn s).1 = { kcp with conns := kcp.conns.set c (kcp.conns c).setBind } := by
    rw [KCPServer.bindConn, KCPServer.rawGetConn, hs']
  refine ⟨_, by rw [register, PlayerMgr.setSessid_eq_ok.mpr ⟨hs', rfl, rfl⟩], ?_, ?_, ?_, ?_, ?_, ?_⟩
  · simp [PlayerMgr.modify]
  · rw [← hkcp, hbind]
    dsimp only
    rw [Heap.set_self]
    rfl
  · rw [← hkcp, hbind]
    exact hs'
  · rw [← hkcp, hbind]
    dsimp only
    rw [Heap.set_self]
    exact (hreg.sess hs').2
  · intro t d ht
    rw [← hkcp, hbind]
    exact (hsess ht).imp_right fun h => ⟨h.1, hother h⟩
  · intro fd d hfd
    rw [← hkcp, hbind]
    exact (hconn hfd).imp_right fun h => ⟨h.1, hother h⟩

/-- The second registration of a session for one player. -/
theorem register_error (r : Nat) (pid : Int) (hk : g.kcp.Registry) (hzero : (g.pm.players p).sessid ≠ 0) :
    g.register r p (g.pm.players p).sessid pid = .error .assertion := by
  have hnone : ((g.pm.updatePlayer p pid).closeOld g.kcp p).mapSessFd[(g.pm.players p).sessid]? = none := by
    rw [closeOld_updatePlayer, if_neg hzero, Option.eq_none_iff_forall_ne_some]
    exact fun c hc => ((KCPServer.mapSessFd_closeConn hk _ _ _).mp hc).1 rfl
  rw [register, PlayerMgr.setSessid_error hnone]

/-- **Registration, with its exact condition.** In every state that a game node reaches, a message 2004 of a live session
for a live room and a rid in it registers the player as it should if and only if the player has no session yet or
another one. -/
theorem registration_iff (pb : Pb) (g : GameNode) (hg : Reach (step pb) Env .new g) (obj : KcpCall)
    (hmsg : obj.msgid = 2004) (c : Nat) (hs : g.kcp.mapSessFd[obj.sessid]? = some c) (r : Nat)
    (hroom : g.rm.idMap[obj.roomid]? = some r) (p : Nat)
    (hrid : (g.room r).ridPMap[pb.rid2004 obj.body]? = some p) :
    (∃ g' outs, g.processKcp pb obj = .ok (g', outs) ∧ Registered g g' p obj.sessid c) ↔
      (g.pm.players p).sessid = 0 ∨ (g.pm.players p).sessid ≠ obj.sessid := by
  have hk : g.kcp.Registry := registry_of_reach (fun _ _ h => h) hg
  rw [processKcp_register hmsg hroom hrid]
  constructor
  · rintro ⟨g', outs, heq, -⟩
    by_contra hne
    rw [not_or, not_ne_iff] at hne
    rw [← hne.2, register_error r obj.pid hk hne.1] at heq
    cases heq
  · intro hne
    obtain ⟨g', heq, hreg⟩ := registered r obj.pid hk hs hne
    exact ⟨g', [], by rw [heq]; rfl, hreg⟩

end Registration

/-! ## Two registrations -/

/-- A parser of messages 2004 with a rid of one byte. -/
def ridParser : Pb where
  cmd2000 _ := ⟨0, 0⟩
  frameids2002 _ := []
  beginframeid2003 _ := 0
  rid2004
    | [_, rid] => rid.toNat
    | _ => 0

/-- A session on descriptor 5, and room 1 with a player of pid 1 and rid 7. -/
def oneRoom : List GameOp := [.createConn 5 [] [] 0, .newRoom 1 [49, 124, 55, 124, 49, 124, 49]]

/-- A registration of session 1 for rid 7 in room 1. -/
def registration : KcpCall := ⟨2004, [8, 7], 1, 1, 1⟩

theorem exists_run {P : GameNode → GameOp → Prop} [∀ g o, Decidable (P g o)] (ops : List GameOp)
    (q : GameNode → Prop) [DecidablePred q]
    (h : (runIf (step ridParser) (fun g o => decide (P g o)) .new ops).any (fun g => decide (q g)) = true) :
    ∃ g, Reach (step ridParser) P .new g ∧ q g := by
  obtain ⟨g, hg, hq⟩ := Reach.of_runIf_any (fun _ _ ho => of_decide_eq_true ho) h
  exact ⟨g, hg, of_decide_eq_true hq⟩

set_option maxRecDepth 100000 in
/-- A session that registers twice for one player makes the assertion behind `BindConn` fail. -/
theorem not_registered_twice : ∃ pb g obj c r p, Reach (step pb) Env .new g ∧ obj.msgid = 2004 ∧
    g.kcp.mapSessFd[obj.sessid]? = some c ∧ g.rm.idMap[obj.roomid]? = some r ∧
    (g.room r).ridPMap[pb.rid2004 obj.body]? = some p ∧
    ¬ ∃ g' outs, g.processKcp pb obj = .ok (g', outs) ∧ Registered g g' p obj.sessid c := by
  obtain ⟨g, hg, hs, hroom, hrid, hsess⟩ := exists_run (P := Env) (oneRoom ++ [.kcp registration])
    (fun g => g.kcp.mapSessFd[(1 : Int)]? = some 0 ∧ g.rm.idMap[(1 : Int)]? = some 0 ∧
      (g.room 0).ridPMap[(7 : Nat)]? = some 0 ∧ (g.pm.players 0).sessid = 1) (by decide +kernel)
  refine ⟨ridParser, g, registration, 0, 0, 0, hg, rfl, hs, hroom, hrid, ?_⟩
  rintro ⟨g', outs, heq, -⟩
  have hk : g.kcp.Registry := registry_of_reach (fun _ _ h => h) hg
  have herror := register_error (p := 0) 0 1 hk (by rw [hsess]; decide)
  rw [processKcp_register rfl hroom hrid, show registration.sessid = _ from hsess.symm, show registration.pid = 1 from rfl,
    herror] at heq
  cases heq

set_option maxRecDepth 100000 in
/-- A first registration. -/
theorem registered_once : ∃ g g' outs, g.processKcp ridParser registration = .ok (g', outs) ∧
    Registered g g' 0 1 0 := by
  obtain ⟨g, hg, hs, hroom, hrid, hsess⟩ := exists_run (P := Env) oneRoom
    (fun g => g.kcp.mapSessFd[(1 : Int)]? = some 0 ∧ g.rm.idMap[(1 : Int)]? = some 0 ∧
      (g.room 0).ridPMap[(7 : Nat)]? = some 0 ∧ (g.pm.players 0).sessid = 0) (by decide +kernel)
  exact ⟨g, (registration_iff ridParser g hg registration rfl 0 hs 0 hroom 0 hrid).mpr (Or.inl hsess)⟩

end GameNode

end KcpServer
