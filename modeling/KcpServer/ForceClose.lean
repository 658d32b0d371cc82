import KcpServer.ConnRegistry

/-!
# Closing a client by force

`ForceCloseCliConn` carries the session id that `RegConn` has reported. `onForceCloseCliConn` hands it to `DelConn`, whose
argument is a descriptor. `forceClose_iff` : the right session is closed exactly where the id, taken as a descriptor, is
that session's own, or where neither the id nor the descriptor is registered.
-/

namespace KcpServer
open Lib WriteWorld

namespace ConnObjMgr

/-- `rpcNetHandle::onForceCloseCliConn` -/
def onForceCloseCliConn (g : ConnObjMgr) (pid : Nat) : ConnObjMgr × List RegConn := g.delConn (int32 (uint32 pid)) false

/-- `connObjMgr::RegGamePid` -/
def regGamePid (g : ConnObjMgr) (pid : Nat) (pgame : Bytes) : ConnObjMgr :=
  { g with connPidGameMap := g.connPidGameMap.insert (int32 (uint32 pid)) pgame }

/-- No table has an entry of session `pid`. -/
structure Gone (g : ConnObjMgr) (pid : Int) : Prop where
  conn : g.connMap[pid]? = none
  game : g.connPidGameMap[pid]? = none
  fd : ∀ fd : Int, g.connFdMap[fd]? ≠ some pid
  write : ∀ fd : Int, g.writeFdMap[fd]? ≠ some pid

/-- The entries of session `pid` are the same. -/
structure SameSession (g g' : ConnObjMgr) (pid : Int) : Prop where
  conn : g'.connMap[pid]? = g.connMap[pid]?
  game : g'.connPidGameMap[pid]? = g.connPidGameMap[pid]?
  fd : ∀ fd : Int, g'.connFdMap[fd]? = some pid ↔ g.connFdMap[fd]? = some pid
  write : ∀ fd : Int, g'.writeFdMap[fd]? = some pid ↔ g.writeFdMap[fd]? = some pid

theorem SameSession.refl (g : ConnObjMgr) (pid : Int) : SameSession g g pid := ⟨rfl, rfl, fun _ => Iff.rfl, fun _ => Iff.rfl⟩

/-- Session `pid` has been closed, if it was registered, and nothing else has happened. -/
structure ForceClosed (g g' : ConnObjMgr) (pid : Int) : Prop where
  closed : pid ∈ g.connMap → g'.Gone pid
  others : ∀ q : Int, q ≠ pid ∨ pid ∉ g.connMap → SameSession g g' q

section DelConn
variable {g : ConnObjMgr} {fd pid : Int} {btimeOut : Bool}

theorem forceClosed_delConn (hg : Registered g) (hpid : g.connFdMap[fd]? = some pid) :
    ForceClosed g (g.delConn fd btimeOut).1 pid := by
  obtain ⟨c, hc, rfl, rfl⟩ := hg.coherent.conn_of_fd hpid
  have hget : g.getConn c.fd = some c := by rw [getConn, hpid, Option.bind_some, rawGetConnByPid, hc]
  -- no other descriptor leads to the session, and this one to no other session
  have hfd : ∀ {fd' q : Int}, g.connFdMap[fd']? = some q → (fd' = c.fd ↔ q = c.pid) := by
    intro fd' q hq
    obtain ⟨c', hc', rfl, rfl⟩ := hg.coherent.conn_of_fd hq
    constructor
    · exact hg.fd_inj hc' hc
    · intro heq
      rw [heq, hc] at hc'
      cases hc'
      rfl
  rw [delConn_of_getConn hget]
  refine ⟨fun _ => ⟨?_, ?_, fun fd' h => ?_, fun fd' h => ?_⟩, fun q hq => ?_⟩
  · exact Std.TreeMap.getElem?_erase_self
  · exact Std.TreeMap.getElem?_erase_self
  · obtain ⟨hne, h⟩ := erase_eq_some.mp h
    exact hne ((hfd h).mpr rfl)
  · obtain ⟨hne, h⟩ := erase_eq_some.mp h
    exact hne ((hfd (hg.write_registered h)).mpr rfl)
  · have hne : q ≠ c.pid := by
      rcases hq with hq | hq
      · exact hq
      · exact absurd (mem_iff_exists.mpr ⟨c, hc⟩) hq
    refine ⟨?_, ?_, fun fd' => ?_, fun fd' => ?_⟩
    · exact getElem?_erase_of_ne hne
    · exact getElem?_erase_of_ne hne
    · show (g.connFdMap.erase c.fd)[fd']? = some q ↔ _
      rw [erase_eq_some]
      exact and_iff_right_of_imp fun h heq => hne ((hfd h).mp heq)
    · show (g.writeFdMap.erase c.fd)[fd']? = some q ↔ _
      rw [erase_eq_some]
      exact and_iff_right_of_imp fun h heq => hne ((hfd (hg.write_registered h)).mp heq)

/-- A forced close closes the right session exactly if the descriptor `int32 pid` leads to it, or to none where there is no
such session. -/
theorem forceClosed_onForceCloseCliConn (hg : Registered g) (pid : Nat) :
    ForceClosed g (g.onForceCloseCliConn pid).1 pid ↔
      g.connFdMap[int32 pid]? = if (pid : Int) ∈ g.connMap then some (pid : Int) else none := by
  have hfd : int32 (uint32 pid) = int32 pid := by
    unfold int32 uint32
    rw [Int.bmod_def, Int.bmod_def]
    omega
  rw [onForceCloseCliConn, hfd]
  cases hcur : g.connFdMap[int32 pid]? with
  | none =>
    rw [delConn_none hcur]
    constructor
    · intro h
      rw [if_neg]
      intro hmem
      obtain ⟨c, hc⟩ := mem_iff_exists.mp hmem
      rw [(h.closed hmem).conn] at hc
      cases hc
    · intro h
      refine ⟨fun hmem => ?_, fun q _ => .refl g q⟩
      rw [if_pos hmem] at h
      cases h
  | some s =>
    have hs : ForceClosed g (g.delConn (int32 pid) false).1 s := forceClosed_delConn hg hcur
    obtain ⟨c, hc, -, -⟩ := hg.coherent.conn_of_fd hcur
    have hgone := (hs.closed (mem_iff_exists.mpr ⟨c, hc⟩)).conn
    constructor
    · intro h
      -- the session of the descriptor is gone, so it is the right one
      have hpid : ¬ (s ≠ pid ∨ (pid : Int) ∉ g.connMap) := fun hq => by
        have hsame := (h.others s hq).conn
        rw [hgone, hc] at hsame
        cases hsame
      rw [not_or, not_not, not_not] at hpid
      rw [if_pos hpid.2, hpid.1]
    · intro h
      split at h
      · cases h
        exact hs
      · cases h

end DelConn

/-! ## Runs -/

inductive TableOp
  | createConnBatch (bNet : Bool) (plist : List (Int × PeerAddr))
  | delConn (fd : Int) (btimeOut : Bool)
  | sendMsg (pid : Int) (pmem : Bytes) (ws : List WriteRes)
  | sendMsgAll (pmem : Bytes) (ws : Int → List WriteRes)
  | processAllWrite (ws : Int → List WriteRes)
  | regGamePid (pid : Nat) (pgame : Bytes)
  | forceCloseCliConn (pid : Nat)

def tableStep (g : ConnObjMgr) : TableOp → Except Fault ConnObjMgr
  | .createConnBatch bNet plist => Prod.fst <$> g.createConnBatch bNet plist
  | .delConn fd btimeOut => .ok (g.delConn fd btimeOut).1
  | .sendMsg pid pmem ws => Prod.fst <$> g.sendMsg pid pmem ws
  | .sendMsgAll pmem ws => Prod.fst <$> g.sendMsgAll pmem ws
  | .processAllWrite ws => Prod.fst <$> g.processAllWrite ws
  | .regGamePid pid pgame => .ok (g.regGamePid pid pgame)
  | .forceCloseCliConn pid => .ok (g.onForceCloseCliConn pid).1

/-- `accept` returns descriptors that are not open. -/
def Accepted (g : ConnObjMgr) : TableOp → Prop
  | .createConnBatch _ plist => (plist.map Prod.fst).Nodup ∧ ∀ e ∈ plist, g.connFdMap[e.1]? = none
  | _ => True

section Steps
variable {g g' : ConnObjMgr}

theorem registered_createConnBatch (hg : Registered g) {bNet : Bool} {plist : List (Int × PeerAddr)}
    (hnodup : (plist.map Prod.fst).Nodup) (hnew : ∀ e ∈ plist, g.connFdMap[e.1]? = none) {regs : List RegConn}
    (h : g.createConnBatch bNet plist = .ok (g', regs)) : Registered g' := by
  induction plist generalizing g regs with
  | nil =>
    cases h
    exact hg
  | cons e plist ih =>
    obtain ⟨⟨g₁, regs₁⟩, hcreate, h⟩ := bind_eq_ok.mp h
    obtain ⟨⟨g₂, regs₂⟩, hbatch, h⟩ := bind_eq_ok.mp h
    cases h
    rw [List.map_cons, List.nodup_cons] at hnodup
    rw [List.forall_mem_cons] at hnew
    have hg₁ : Registered g₁ := by
      show Registered (WriteWorld.mk g₁ (g.connFdMap.toList.map Prod.fst)).mgr
      refine ConnWorld.registered_step (o := .create bNet e.1 e.2) hg ?_ ?_
      · intro _ _ _ heq
        cases heq
        exact hnew.1
      · simp only [WriteWorld.step, hcreate]
        rfl
    refine ih hg₁ hnodup.2 (fun e' he' => ?_) hbatch
    obtain ⟨g₁', regs', c, h', -, -, hfdmap, -⟩ := createConn_ok (maxSessid_lt_of_createConn hcreate) bNet e.1 e.2
    rw [hcreate] at h'
    cases h'
    have hne : e'.1 ≠ e.1 := by
      intro heq
      apply hnodup.1
      rw [← heq]
      exact List.mem_map_of_mem he'
    rw [hfdmap, getElem?_insert_of_ne hne]
    exact hnew.2 e' he'

theorem registered_tableStep (hg : Registered g) {o : TableOp} (hacc : g.Accepted o) (h : g.tableStep o = .ok g') :
    Registered g' := by
  -- what the write queue does keeps the tables
  have hwrite : ∀ (o : WriteOp) w', (∀ bNet fd paddr, o ≠ .create bNet fd paddr) →
      WriteWorld.step ⟨g, g.connFdMap.toList.map Prod.fst⟩ o = .ok w' → Registered w'.mgr := by
    intro o w' hne hstep
    exact ConnWorld.registered_step hg (fun bNet fd paddr ho => absurd ho (hne bNet fd paddr)) hstep
  cases o with
  | createConnBatch bNet plist =>
    obtain ⟨⟨g₁, regs⟩, hbatch, h⟩ := bind_eq_ok.mp h
    cases h
    exact registered_createConnBatch hg hacc.1 hacc.2 hbatch
  | delConn fd btimeOut =>
    cases h
    exact hwrite (.delConn fd btimeOut) _ (by simp) rfl
  | sendMsg pid pmem ws =>
    obtain ⟨⟨g₁, quits⟩, hsend, h⟩ := bind_eq_ok.mp h
    cases h
    refine hwrite (.sendMsg pid pmem ws) ⟨g₁, g.connFdMap.toList.map Prod.fst ++ quits⟩ (by simp) ?_
    simp only [WriteWorld.step, hsend]
    rfl
  | sendMsgAll pmem ws =>
    obtain ⟨⟨g₁, quits⟩, hsend, h⟩ := bind_eq_ok.mp h
    cases h
    refine hwrite (.sendMsgAll pmem ws) ⟨g₁, g.connFdMap.toList.map Prod.fst ++ quits⟩ (by simp) ?_
    simp only [WriteWorld.step, hsend]
    rfl
  | processAllWrite ws =>
    obtain ⟨⟨g₁, quits⟩, hsend, h⟩ := bind_eq_ok.mp h
    cases h
    refine hwrite (.processAllWrite ws) ⟨g₁, g.connFdMap.toList.map Prod.fst ++ quits⟩ (by simp) ?_
    simp only [WriteWorld.step, hsend]
    rfl
  | regGamePid pid pgame =>
    cases h
    exact ⟨⟨hg.coherent.conn_of_fd, hg.coherent.pid_lt, hg.coherent.maxSessid_lt⟩, hg.fd_of_conn, hg.write_registered⟩
  | forceCloseCliConn pid =>
    cases h
    exact hwrite (.delConn _ false) _ (by simp) rfl

theorem registered_reach (h : Reach tableStep Accepted .new g) : Registered g := by
  refine h.invariant (I := Registered) registered_new ?_
  intro g o g' hg hacc heq
  exact registered_tableStep hg hacc heq

/-- **When a forced close closes the right session.** In every state of the tables, a `ForceCloseCliConn` of any id removes
the session of that id with all its entries, if it is registered, and leaves every other session's entries alone, if and
only if the descriptor of the same number is that session's, or is not registered if the session is not either. -/
theorem forceClose_iff (h : Reach tableStep Accepted .new g) (pid : Nat) :
    ForceClosed g (g.onForceCloseCliConn pid).1 pid ↔
      g.connFdMap[int32 pid]? = if (pid : Int) ∈ g.connMap then some (pid : Int) else none := by
  exact forceClosed_onForceCloseCliConn (registered_reach h) pid

/-- Clients that are accepted one after the other are the sessions from 1 on. -/
theorem exists_clients (paddr : PeerAddr) (fds : List Int) (hnodup : fds.Nodup) (hlen : fds.length < 2 ^ 31 - 2) : ∃ g,
    Reach tableStep Accepted .new g ∧ g.maxSessid = fds.length + 1 ∧ (∀ fd, fd ∉ fds → g.connFdMap[fd]? = none) ∧
      ∀ (i : Nat) fd, fds[i]? = some fd → g.connFdMap[fd]? = some ((i : Int) + 1) ∧ (i : Int) + 1 ∈ g.connMap := by
  induction fds using List.reverseRecOn with
  | nil => exact ⟨.new, .refl, rfl, fun _ _ => Std.TreeMap.getElem?_emptyc, fun i fd hi => by simp at hi⟩
  | append_singleton fds fd ih =>
    rw [List.nodup_append] at hnodup
    rw [List.length_append, List.length_singleton] at hlen
    have hnew : fd ∉ fds := fun hfd => hnodup.2.2 fd hfd fd (List.mem_singleton_self fd) rfl
    obtain ⟨g, hg, hmax, hfree, hsess⟩ := ih hnodup.1 (by omega)
    obtain ⟨g', regs, c, h, -, hmap, hfdmap, -, hmax'⟩ := createConn_ok (g := g) (by omega) true fd paddr
    have hstep : g.tableStep (.createConnBatch true [(fd, paddr)]) = .ok g' := by
      simp only [tableStep, createConnBatch, h, ok_bind]
      rfl
    have hacc : g.Accepted (.createConnBatch true [(fd, paddr)]) := by
      refine ⟨by simp, fun e he => ?_⟩
      rw [List.mem_singleton.mp he]
      exact hfree fd hnew
    refine ⟨g', hg.step hacc hstep, ?_, ?_, ?_⟩
    · rw [hmax', hmax, List.length_append, List.length_singleton]
      omega
    · intro fd' hfd'
      rw [List.mem_append, List.mem_singleton, not_or] at hfd'
      rw [hfdmap, getElem?_insert_of_ne hfd'.2]
      exact hfree fd' hfd'.1
    · intro i fd' hi
      rw [hmap, hfdmap, Std.TreeMap.mem_insert]
      rcases Nat.lt_trichotomy i fds.length with hlt | rfl | hgt
      · rw [List.getElem?_append_left hlt] at hi
        obtain ⟨hpid, hmem⟩ := hsess i fd' hi
        have hne : fd' ≠ fd := fun heq => hnew (heq ▸ List.mem_of_getElem? hi)
        rw [getElem?_insert_of_ne hne]
        exact ⟨hpid, .inr hmem⟩
      · rw [List.getElem?_concat_length] at hi
        cases hi
        rw [hmax]
        exact ⟨Std.TreeMap.getElem?_insert_self, .inl Std.ReflCmp.compare_self⟩
      · rw [List.getElem?_eq_none (by rw [List.length_append, List.length_singleton]; omega)] at hi
        cases hi

/-- Session 5 is on descriptor 5: the client that is named is closed. -/
theorem forceClose_same : ∃ g, Reach tableStep Accepted .new g ∧ (5 : Int) ∈ g.connMap ∧
    ForceClosed g (g.onForceCloseCliConn 5).1 5 := by
  obtain ⟨g, hg, -, -, hsess⟩ := exists_clients NetServer.peerAddr [6, 7, 8, 9, 5] (by decide) (by decide)
  obtain ⟨hfd, hmem⟩ : g.connFdMap[(5 : Int)]? = some 5 ∧ (5 : Int) ∈ g.connMap := hsess 4 5 rfl
  refine ⟨g, hg, hmem, (forceClose_iff hg 5).mpr ?_⟩
  show g.connFdMap[(5 : Int)]? = if (5 : Int) ∈ g.connMap then some 5 else none
  rw [if_pos hmem]
  exact hfd

/-- The sessions 1 to 5 are on the descriptors 5 to 9: closing session 5 closes session 1. -/
theorem not_forceClose : ∃ g, Reach tableStep Accepted .new g ∧ (5 : Int) ∈ g.connMap ∧
    ¬ ForceClosed g (g.onForceCloseCliConn 5).1 5 ∧ ForceClosed g (g.onForceCloseCliConn 5).1 1 := by
  obtain ⟨g, hg, -, -, hsess⟩ := exists_clients NetServer.peerAddr [5, 6, 7, 8, 9] (by decide) (by decide)
  have hreg : Registered g := registered_reach hg
  have hfive : g.connFdMap[(5 : Int)]? = some 1 := (hsess 0 5 rfl).1
  have hmem : (5 : Int) ∈ g.connMap := (hsess 4 9 rfl).2
  refine ⟨g, hg, hmem, fun h => ?_, forceClosed_delConn hreg hfive⟩
  have hcond := (forceClosed_onForceCloseCliConn hreg 5).mp h
  change g.connFdMap[(5 : Int)]? = if (5 : Int) ∈ g.connMap then some 5 else none at hcond
  rw [if_pos hmem, hfive] at hcond
  cases hcond

end Steps

end ConnObjMgr

end KcpServer
