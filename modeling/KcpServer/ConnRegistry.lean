import KcpServer.WriteQueue
import KcpServer.SendPath

/-!
# The registry of the accepted connections

`DelConn` unregisters a connection before it closes it; `connRpcObj::dealSend` closes its connection when a write fails
and leaves it registered. `coherent_iff` : the tables stay inverse to each other and their connections open until a write
of a `dealSend` fails.
-/

namespace KcpServer
open Lib

/-- `connObjMgr::ChkConnTimeout`: the connections that have timed out. -/
def ConnObjMgr.timeouts (g : ConnObjMgr) (nowsec : Int) : List ConnObj :=
  (g.connFdMap.toList.filterMap fun e => g.rawGetConnByPid e.2).filter (·.isTimeout nowsec)

/-- The connections of a process: the manager, the send queues of the `connRpcObj`s by session id with their pool, and
the descriptors that are open. -/
structure ConnWorld where
  mgr : ConnObjMgr
  rpcSend : SendWorld Int
  openFds : Finset Int

/-- The calls. A batch holds what `accept` has returned, `ws` are the answers of `write`, for each session where there are
several; `pid` is a `connRpcObj`'s session. Other parts of the process open and close descriptors of theirs. -/
inductive ConnOp
  | createConnBatch (bNet : Bool) (plist : List (Int × PeerAddr))
  | delConn (fd : Int) (btimeOut : Bool)
  | chkConnTimeout (nowsec : Int)
  | sendMsg (pid : Int) (pmem : Bytes) (ws : List WriteRes)
  | sendMsgAll (pmem : Bytes) (ws : Int → List WriteRes)
  | processAllWrite (ws : Int → List WriteRes)
  | rpcCallNet (pid : Int) (m : RpcMsg)
  | dealSend (pid : Int) (ws : List WriteRes)
  | opened (fd : Int)
  | closed (fd : Int)

namespace ConnWorld

def start (openFds : Finset Int) : ConnWorld := ⟨.new, .new, openFds⟩

/-- `connObjMgr::DelConn` -/
def delConn (w : ConnWorld) (fd : Int) (btimeOut : Bool) : ConnWorld :=
  match w.mgr.getConn fd with
  | none => w
  | some p => { w with mgr := (w.mgr.delConn fd btimeOut).1, openFds := w.openFds.erase p.fd }

/-- `connObjMgr::ChkConnTimeout` -/
def chkConnTimeout (w : ConnWorld) (nowsec : Int) : ConnWorld :=
  (w.mgr.timeouts nowsec).foldl (fun w p => w.delConn p.fd true) w

/-- `connRpcObj::dealSend`, which calls `OnClose` if a write fails. -/
def dealSend (name : ServerName) (w : ConnWorld) (pid : Int) (c : ConnObj) (ws : List WriteRes) :
    Except Fault ConnWorld := do
  let (sq, ret, _) ← (w.rpcSend.queue pid).dealSend (AfterFail.closed.onFail name) w.rpcSend.pool ws
  let w := { w with rpcSend := w.rpcSend.set pid sq }
  if ret = -1 then
    return { w with
      mgr := { w.mgr with connMap := w.mgr.connMap.insert pid (c.onClose false).1 }
      openFds := w.openFds.erase c.fd }
  else
    return w

def step (name : ServerName) (w : ConnWorld) : ConnOp → Except Fault ConnWorld
  | .createConnBatch bNet plist => do
    let (mgr, _) ← w.mgr.createConnBatch bNet plist
    return { w with mgr, openFds := w.openFds ∪ (plist.map Prod.fst).toFinset }
  | .delConn fd btimeOut => return w.delConn fd btimeOut
  | .chkConnTimeout nowsec => return w.chkConnTimeout nowsec
  | .sendMsg pid pmem ws => do
    let (mgr, _) ← w.mgr.sendMsg pid pmem ws
    return { w with mgr }
  | .sendMsgAll pmem ws => do
    let (mgr, _) ← w.mgr.sendMsgAll pmem ws
    return { w with mgr }
  | .processAllWrite ws => do
    let (mgr, _) ← w.mgr.processAllWrite ws
    return { w with mgr }
  | .rpcCallNet pid m =>
    match w.mgr.connMap[pid]? with
    | none => return w
    | some _ => do
      let sq ← (w.rpcSend.queue pid).rpcCallNet name w.rpcSend.pool m
      return { w with rpcSend := w.rpcSend.set pid sq }
  | .dealSend pid ws =>
    match w.mgr.connMap[pid]? with
    | none => return w
    | some c => w.dealSend name pid c ws
  | .opened fd => return { w with openFds := insert fd w.openFds }
  | .closed fd => return { w with openFds := w.openFds.erase fd }

/-- `accept` and the like return descriptors that are not open, only a `connRpcObj` has a send queue, and the other parts
of the process close no connection's descriptor. -/
def Allowed (w : ConnWorld) : ConnOp → Prop
  | .createConnBatch _ plist => (plist.map Prod.fst).Nodup ∧ ∀ e ∈ plist, e.1 ∉ w.openFds
  | .rpcCallNet pid _ | .dealSend pid _ => ∀ c : ConnObj, w.mgr.connMap[pid]? = some c → c.kind = .rpc
  | .opened fd => fd ∉ w.openFds
  | .closed fd => fd ∉ w.mgr.connFdMap
  | _ => True

/-- No write of the `dealSend` of a registered connection fails with an error other than `EAGAIN`. -/
def Sends (w : ConnWorld) : ConnOp → Prop
  | .dealSend pid ws => pid ∈ w.mgr.connMap → clientEnd (w.rpcSend.queue pid) ws ≠ .failed
  | _ => True

/-- The two tables are inverse to each other, what is to be written is registered, and every registered connection is
open. -/
structure Coherent (w : ConnWorld) : Prop where
  inverse : ∀ fd pid : Int, w.mgr.connFdMap[fd]? = some pid ↔ ∃ c : ConnObj, w.mgr.connMap[pid]? = some c ∧ c.fd = fd
  write : ∀ fd pid : Int, w.mgr.writeFdMap[fd]? = some pid → w.mgr.connFdMap[fd]? = some pid
  isOpen : ∀ (pid : Int) (c : ConnObj), w.mgr.connMap[pid]? = some c → c.bclose = false ∧ c.fd ∈ w.openFds

structure Inv (w : ConnWorld) : Prop where
  registered : WriteWorld.Registered w.mgr
  isOpen : ∀ {fd pid : Int}, w.mgr.connFdMap[fd]? = some pid → fd ∈ w.openFds

theorem Inv.coherent {w : ConnWorld} (h : w.Inv) : w.Coherent where
  inverse fd pid := by
    constructor
    · intro hfd
      obtain ⟨c, hc, hcfd, -⟩ := h.registered.coherent.conn_of_fd hfd
      exact ⟨c, hc, hcfd⟩
    · intro hc
      obtain ⟨c, hc, hcfd⟩ := hc
      rw [← hcfd]
      exact (h.registered.fd_of_conn hc).2.1
  write fd pid := h.registered.write_registered
  isOpen pid c hc := by
    obtain ⟨-, hfd, hopen⟩ := h.registered.fd_of_conn hc
    exact ⟨hopen, h.isOpen hfd⟩

/-! ## The steps -/

section Sends
open WriteWorld
variable {g g' : ConnObjMgr}

/-- The operations of the write queue keep the tables, whatever writes have failed before. -/
theorem registered_step (hg : Registered g) {o : WriteOp} {w' : WriteWorld}
    (hacc : ∀ bNet fd paddr, o = .create bNet fd paddr → g.connFdMap[fd]? = none)
    (h : WriteWorld.step ⟨g, g.connFdMap.toList.map Prod.fst⟩ o = .ok w') : Registered w'.mgr := by
  have hall : ∀ {fd pid : Int}, g.connFdMap[fd]? = some pid → fd ∈ g.connFdMap.toList.map Prod.fst := by
    intro fd pid hfd
    exact List.mem_map_of_mem (Std.TreeMap.mem_toList_iff_getElem?_eq_some.mpr hfd)
  have hinv : WriteWorld.Inv ⟨g, g.connFdMap.toList.map Prod.fst⟩ := by
    refine ⟨hg, fun pid c hc _ _ hfailed => ?_⟩
    exact absurd (hall (hg.fd_of_conn hc).2.1) hfailed
  refine (inv_step hinv ?_ ?_ h).registered
  · cases o with
    | create bNet fd paddr => exact hacc bNet fd paddr rfl
    | _ => trivial
  · cases o with
    | processAllWrite ws =>
      intro fd pid hfd hfailed
      exact absurd (hall (hg.write_registered hfd)) hfailed
    | _ => trivial

theorem sendAt_connFdMap {pid : Int} {c : ConnObj} {buf : Option Bytes} {ws : List WriteRes} {quits : List Int}
    {bytes : Bytes} (h : g.sendAt pid c buf ws = .ok (g', quits, bytes)) : g'.connFdMap = g.connFdMap := by
  obtain ⟨out, -, h⟩ := bind_eq_ok.mp h
  cases hres : out.result <;>
  · rw [hres] at h
    cases h
    rfl

theorem sendMsgAllLoop_connFdMap {pmem : Bytes} {ws : Int → List WriteRes} {es : List (Int × Int)} {quits : List Int}
    (h : ConnObjMgr.sendMsgAllLoop pmem ws es g = .ok (g', quits)) {fd pid : Int} (hfd : g'.connFdMap[fd]? = some pid) :
    g.connFdMap[fd]? = some pid := by
  induction es generalizing g quits with
  | nil =>
    cases h
    exact hfd
  | cons e es ih =>
    rw [ConnObjMgr.sendMsgAllLoop] at h
    split at h
    · exact (erase_eq_some.mp (ih h)).2
    · obtain ⟨⟨g₁, quits₁, bytes⟩, hsend, h⟩ := bind_eq_ok.mp h
      obtain ⟨⟨g₂, quits₂⟩, hloop, h⟩ := bind_eq_ok.mp h
      cases h
      rw [← sendAt_connFdMap hsend]
      exact ih hloop

theorem processAllWriteLoop_connFdMap {ws : Int → List WriteRes} {es : List (Int × Int)} {quits : List Int}
    (h : ConnObjMgr.processAllWriteLoop ws es g = .ok (g', quits)) : g'.connFdMap = g.connFdMap := by
  induction es generalizing g quits with
  | nil =>
    cases h
    rfl
  | cons e es ih =>
    rw [ConnObjMgr.processAllWriteLoop] at h
    split at h
    · exact (ih h).trans rfl
    · obtain ⟨⟨g₁, quits₁, bytes⟩, hsend, h⟩ := bind_eq_ok.mp h
      obtain ⟨⟨g₂, quits₂⟩, hloop, h⟩ := bind_eq_ok.mp h
      cases h
      rw [← sendAt_connFdMap hsend]
      exact (ih hloop).trans rfl

end Sends

theorem inv_createConn {w : ConnWorld} (hw : w.Inv) {bNet : Bool} {fd : Int} {paddr : PeerAddr} (hfd : fd ∉ w.openFds)
    {g : ConnObjMgr} {regs : List RegConn} (h : w.mgr.createConn bNet fd paddr = .ok (g, regs)) :
    Inv { w with mgr := g, openFds := insert fd w.openFds } := by
  have hnone : w.mgr.connFdMap[fd]? = none := by
    rw [Option.eq_none_iff_forall_ne_some]
    intro pid hpid
    exact hfd (hw.isOpen hpid)
  have hstep : WriteWorld.step ⟨w.mgr, w.mgr.connFdMap.toList.map Prod.fst⟩ (.create bNet fd paddr) =
      .ok ⟨g, w.mgr.connFdMap.toList.map Prod.fst⟩ := by
    simp only [WriteWorld.step, h]
    rfl
  constructor
  · apply registered_step hw.registered ?_ hstep
    intro _ _ _ heq
    cases heq
    exact hnone
  · intro fd' pid hpid
    obtain ⟨g', regs', c, h', -, -, hfdmap, -⟩ :=
      ConnObjMgr.createConn_ok (ConnObjMgr.maxSessid_lt_of_createConn h) bNet fd paddr
    rw [h] at h'
    cases h'
    simp only [hfdmap] at hpid
    rcases insert_eq_some.mp hpid with ⟨rfl, -⟩ | ⟨-, hpid⟩
    · exact Finset.mem_insert_self _ _
    · exact Finset.mem_insert_of_mem (hw.isOpen hpid)

theorem inv_createConnBatch {w : ConnWorld} (hw : w.Inv) {bNet : Bool} {plist : List (Int × PeerAddr)}
    (hnodup : (plist.map Prod.fst).Nodup) (hnew : ∀ e ∈ plist, e.1 ∉ w.openFds) {g : ConnObjMgr} {regs : List RegConn}
    (h : w.mgr.createConnBatch bNet plist = .ok (g, regs)) :
    Inv { w with mgr := g, openFds := w.openFds ∪ (plist.map Prod.fst).toFinset } := by
  induction plist generalizing w g regs with
  | nil =>
    cases h
    simpa using hw
  | cons e plist ih =>
    obtain ⟨⟨g₁, regs₁⟩, hcreate, h⟩ := bind_eq_ok.mp h
    obtain ⟨⟨g₂, regs₂⟩, hbatch, h⟩ := bind_eq_ok.mp h
    cases h
    rw [List.map_cons, List.nodup_cons] at hnodup
    rw [List.forall_mem_cons] at hnew
    have hw₁ := inv_createConn hw hnew.1 hcreate
    have hw₂ := ih hw₁ hnodup.2 (fun e' he' => by
      rw [Finset.mem_insert, not_or]
      exact ⟨fun heq => hnodup.1 (heq ▸ List.mem_map_of_mem he'), hnew.2 e' he'⟩) hbatch
    have hopen : insert e.1 w.openFds ∪ (plist.map Prod.fst).toFinset =
        w.openFds ∪ ((e :: plist).map Prod.fst).toFinset := by
      ext fd
      simp
    rw [← hopen]
    exact hw₂

theorem inv_delConn {w : ConnWorld} (hw : w.Inv) (fd : Int) (btimeOut : Bool) : (w.delConn fd btimeOut).Inv := by
  unfold delConn
  split
  · exact hw
  · next p hp =>
    obtain ⟨pid, hpid, hmap⟩ := Option.bind_eq_some_iff.mp hp
    obtain ⟨c, hc, hcfd, hcpid⟩ := hw.registered.coherent.conn_of_fd hpid
    rw [ConnObjMgr.rawGetConnByPid, hc] at hmap
    cases hmap
    obtain ⟨hfdmap, -⟩ := ConnObjMgr.delConn_some hpid hc hcpid btimeOut
    refine ⟨registered_step (o := WriteOp.delConn fd btimeOut) hw.registered (by simp) rfl, ?_⟩
    intro fd' pid' hpid'
    simp only [hfdmap] at hpid'
    obtain ⟨hne, hpid'⟩ := erase_eq_some.mp hpid'
    exact Finset.mem_erase.mpr ⟨by rwa [hcfd], hw.isOpen hpid'⟩

theorem inv_chkConnTimeout {w : ConnWorld} (hw : w.Inv) (nowsec : Int) : (w.chkConnTimeout nowsec).Inv := by
  unfold chkConnTimeout
  induction w.mgr.timeouts nowsec generalizing w with
  | nil => exact hw
  | cons p ps ih => exact ih (inv_delConn hw p.fd true)

theorem inv_sends {w : ConnWorld} (hw : w.Inv) {o : WriteOp} (hacc : ∀ bNet fd paddr, o ≠ .create bNet fd paddr)
    {g : ConnObjMgr} {failed : List Int}
    (h : WriteWorld.step ⟨w.mgr, w.mgr.connFdMap.toList.map Prod.fst⟩ o = .ok ⟨g, failed⟩)
    (hsub : ∀ {fd pid : Int}, g.connFdMap[fd]? = some pid → w.mgr.connFdMap[fd]? = some pid) : Inv { w with mgr := g } where
  registered := registered_step hw.registered (fun bNet fd paddr ho => absurd ho (hacc bNet fd paddr)) h
  isOpen hpid := hw.isOpen (hsub hpid)

/-- A `dealSend` keeps its connection registered and open exactly if none of its writes fails. -/
theorem dealSend_iff {name : ServerName} {w w' : ConnWorld} (hw : w.Inv) {pid : Int} {c : ConnObj}
    {ws : List WriteRes} (h : w.dealSend name pid c ws = .ok w') :
    (clientEnd (w.rpcSend.queue pid) ws ≠ .failed → w'.Inv) ∧
      (w'.Coherent → clientEnd (w.rpcSend.queue pid) ws ≠ .failed) := by
  obtain ⟨⟨⟨s, q⟩, ret, out⟩, hdeal, h⟩ := bind_eq_ok.mp h
  have hret := SendQueue.dealSend_ret hdeal
  dsimp only at h
  split at h
  · next hfail =>
    cases h
    refine ⟨fun hne => absurd (hret.mp hfail) hne, fun hcoh => ?_⟩
    -- the connection is closed and still registered
    have hclosed := (hcoh.isOpen pid (c.onClose false).1 (insert_eq_some.mpr (.inl ⟨rfl, rfl⟩))).1
    cases hclosed
  · next hok =>
    cases h
    exact ⟨fun _ => ⟨hw.registered, hw.isOpen⟩, fun _ hend => hok (hret.mpr hend)⟩

theorem inv_step {name : ServerName} {w w' : ConnWorld} (hw : w.Inv) {o : ConnOp} (ho : w.Allowed o)
    (h : w.step name o = .ok w') (hdeal : ∀ pid ws, o ≠ .dealSend pid ws) : w'.Inv := by
  cases o with
  | createConnBatch bNet plist =>
    obtain ⟨⟨g, regs⟩, hcreate, h⟩ := bind_eq_ok.mp h
    cases h
    exact inv_createConnBatch hw ho.1 ho.2 hcreate
  | delConn fd btimeOut =>
    cases h
    exact inv_delConn hw fd btimeOut
  | chkConnTimeout nowsec =>
    cases h
    exact inv_chkConnTimeout hw nowsec
  | sendMsg pid pmem ws =>
    obtain ⟨⟨g, quits⟩, hsend, h⟩ := bind_eq_ok.mp h
    cases h
    apply inv_sends (o := WriteOp.sendMsg pid pmem ws) hw (by simp) (by simp only [WriteWorld.step, hsend]; rfl)
    intro fd pid' hfd
    unfold ConnObjMgr.sendMsg at hsend
    split at hsend
    · cases hsend
      exact hfd
    · obtain ⟨⟨g₁, quits₁, bytes⟩, hsend, h⟩ := bind_eq_ok.mp hsend
      cases h
      rwa [← sendAt_connFdMap hsend]
  | sendMsgAll pmem ws =>
    obtain ⟨⟨g, quits⟩, hsend, h⟩ := bind_eq_ok.mp h
    cases h
    apply inv_sends (o := WriteOp.sendMsgAll pmem ws) hw (by simp) (by simp only [WriteWorld.step, hsend]; rfl)
    exact sendMsgAllLoop_connFdMap hsend
  | processAllWrite ws =>
    obtain ⟨⟨g, quits⟩, hsend, h⟩ := bind_eq_ok.mp h
    cases h
    apply inv_sends (o := WriteOp.processAllWrite ws) hw (by simp) (by simp only [WriteWorld.step, hsend]; rfl)
    intro fd pid hfd
    rwa [processAllWriteLoop_connFdMap hsend] at hfd
  | rpcCallNet pid m =>
    simp only [step] at h
    split at h
    · cases h
      exact hw
    · obtain ⟨sq, -, h⟩ := bind_eq_ok.mp h
      cases h
      exact ⟨hw.registered, hw.isOpen⟩
  | dealSend pid ws => exact absurd rfl (hdeal pid ws)
  | opened fd =>
    cases h
    exact ⟨hw.registered, fun hpid => Finset.mem_insert_of_mem (hw.isOpen hpid)⟩
  | closed fd =>
    cases h
    refine ⟨hw.registered, fun {fd' pid} hpid => ?_⟩
    refine Finset.mem_erase.mpr ⟨?_, hw.isOpen hpid⟩
    rintro rfl
    exact ho (mem_iff_exists.mpr ⟨pid, hpid⟩)

/-- A call keeps the registry coherent exactly if no write of a `dealSend` fails in it. -/
theorem step_iff {name : ServerName} {w w' : ConnWorld} (hw : w.Inv) {o : ConnOp} (ho : w.Allowed o)
    (h : w.step name o = .ok w') : (w.Sends o → w'.Inv) ∧ (w'.Coherent → w.Sends o) := by
  by_cases hdeal : ∃ pid ws, o = .dealSend pid ws
  · obtain ⟨pid, ws, rfl⟩ := hdeal
    simp only [step] at h
    split at h
    · next hc =>
      cases h
      refine ⟨fun _ => hw, fun _ hmem => ?_⟩
      obtain ⟨c, hc'⟩ := mem_iff_exists.mp hmem
      cases hc.symm.trans hc'
    · next c hc =>
      obtain ⟨hkeep, hlose⟩ := dealSend_iff hw h
      exact ⟨fun hsends => hkeep (hsends (mem_iff_exists.mpr ⟨c, hc⟩)), fun hcoh _ => hlose hcoh⟩
  · have hne : ∀ pid ws, o ≠ .dealSend pid ws := fun pid ws heq => hdeal ⟨pid, ws, heq⟩
    have hsends : w.Sends o := by
      unfold Sends
      split
      · exact absurd rfl (hne _ _)
      · trivial
    exact ⟨fun _ => inv_step hw ho h hne, fun _ => hsends⟩

theorem inv_start (openFds : Finset Int) : (start openFds).Inv where
  registered := WriteWorld.registered_new
  isOpen hpid := by simp [start, ConnObjMgr.new] at hpid

/-- **The registry of the accepted connections.** Whatever is created, deleted and sent in whatever order: while no write
of a `dealSend` fails, the tables are inverse to each other, the connections to be written are registered, and every
registered connection is open. There the next call keeps this exactly if it meets this condition too. -/
theorem coherent_iff (name : ServerName) (openFds : Finset Int) {w : ConnWorld}
    (h : Reach (step name) (fun w o => w.Allowed o ∧ w.Sends o) (start openFds) w) :
    w.Coherent ∧ ∀ o w', w.Allowed o → w.step name o = .ok w' → (w'.Coherent ↔ w.Sends o) := by
  have hw : w.Inv := by
    apply h.invariant (inv_start openFds)
    intro w o w' hw ho hs
    exact (step_iff hw ho.1 hs).1 ho.2
  refine ⟨hw.coherent, fun o w' ho hs => ?_⟩
  obtain ⟨hkeep, hlose⟩ := step_iff hw ho hs
  exact ⟨hlose, fun hsends => (hkeep hsends).coherent⟩

/-- The net node connects on descriptor 5. -/
theorem create_net : ∃ w, (start {0, 1, 2}).step game1 (.createConnBatch false [(5, NetServer.peerAddr)]) = .ok w ∧
    w.rpcSend = .new ∧ w.mgr.connFdMap[(5 : Int)]? = some 1 ∧ ∃ c, w.mgr.connMap[(1 : Int)]? = some c ∧ c.kind = .rpc :=
  ⟨_, rfl, rfl, rfl, _, rfl, rfl⟩

/-- A message is appended for it. -/
theorem call_net : ∃ (w : ConnWorld) (c : ConnObj) (p : SendCache),
    Reach (step game1) (fun w o => w.Allowed o ∧ w.Sends o) (start {0, 1, 2}) w ∧
    w.mgr.connFdMap[(5 : Int)]? = some 1 ∧ w.mgr.connMap[(1 : Int)]? = some c ∧
    (∀ d : ConnObj, w.mgr.connMap[(1 : Int)]? = some d → d.kind = .rpc) ∧
    w.rpcSend.queue 1 = ⟨some p, []⟩ ∧ p.offset = 44 := by
  obtain ⟨w, hcreate, hsend, hfd, c, hc, hkind⟩ := create_net
  obtain ⟨p, happ, hoff⟩ := SendQueue.appendSend_new game1 (m := offlineMsg) (by decide)
  have hreach := Reach.refl.step (P := fun w o => Allowed w o ∧ Sends w o) (o := ConnOp.createConnBatch false
    [(5, NetServer.peerAddr)]) ⟨⟨by simp, by simp [start]⟩, trivial⟩ hcreate
  have hrpc : ∀ d : ConnObj, w.mgr.connMap[(1 : Int)]? = some d → d.kind = .rpc := by
    intro d hd
    rw [hc] at hd
    cases hd
    exact hkind
  have hcall : w.step game1 (.rpcCallNet 1 offlineMsg) =
      .ok { w with rpcSend := w.rpcSend.set 1 (⟨[], 1⟩, ⟨some p, []⟩) } := by
    have hnew : (w.rpcSend.queue 1).rpcCallNet game1 w.rpcSend.pool offlineMsg = .ok (⟨[], 1⟩, ⟨some p, []⟩) := by
      rw [hsend]
      exact happ
    simp only [step, hc, hnew]
    rfl
  refine ⟨_, c, p, hreach.step (o := ConnOp.rpcCallNet 1 offlineMsg) ⟨hrpc, trivial⟩ hcall, hfd, hc, hrpc, ?_, ?_⟩
  · simp [SendWorld.set]
  · rw [hoff]
    decide

/-- The message is sent, and the net node's connection deleted. -/
theorem coherent_net : ∃ w₁ w₂ w : ConnWorld,
    Reach (step game1) (fun w o => w.Allowed o ∧ w.Sends o) (start {0, 1, 2}) w₁ ∧
    w₁.step game1 (.dealSend 1 [.wrote 44]) = .ok w₂ ∧ w₂.mgr.connFdMap[(5 : Int)]? = some 1 ∧ w₂.Coherent ∧
    w₂.step game1 (.delConn 5 false) = .ok w ∧ w.mgr.connFdMap[(5 : Int)]? = none ∧ w.Coherent := by
  obtain ⟨w₁, c, p, hreach, hfd, hc, hrpc, hqueue, hoff⟩ := call_net
  have hsent := SendQueue.dealSend_one (AfterFail.closed.onFail game1) w₁.rpcSend.pool (c := p) (by omega)
    (by rw [SEND_SIZE]; omega)
  rw [hoff, ← hqueue] at hsent
  have hdeal : w₁.step game1 (.dealSend 1 [.wrote 44]) = .ok { w₁ with
      rpcSend := w₁.rpcSend.set 1 (w₁.rpcSend.pool.pushSendcache (p.updateOffset 44), .new) } := by
    simp only [step, hc, dealSend, hsent]
    rfl
  have hsends : w₁.Sends (.dealSend 1 [.wrote 44]) := by
    intro _
    rw [hqueue, clientEnd, if_neg (by simp [SendQueue.caches])]
    exact queueEnd_ne_failed (by simp)
  have hreach₂ := hreach.step (o := ConnOp.dealSend 1 [.wrote 44]) ⟨hrpc, hsends⟩ hdeal
  obtain ⟨hcoh₂, hnext⟩ := coherent_iff game1 _ hreach₂
  refine ⟨w₁, _, _, hreach, hdeal, hfd, hcoh₂, rfl, ?_, (hnext (.delConn 5 false) _ trivial rfl).mpr trivial⟩
  have hconn : w₁.mgr.getConn 5 = some c := by
    simp [ConnObjMgr.getConn, ConnObjMgr.rawGetConnByPid, hfd, hc]
  simp [delConn, hconn, ConnObjMgr.delConn_of_getConn hconn]

/-- The write of the message fails. -/
theorem not_coherent : ∃ w, Reach (step game1) Allowed (start {0, 1, 2}) w ∧ ¬ w.Coherent := by
  obtain ⟨w, c, p, hreach, -, hc, hrpc, hqueue, hoff⟩ := call_net
  have hpos : 0 < p.offset := by omega
  have hle : p.offset ≤ RPC_BUFF_SIZE := by rw [hoff]; decide
  obtain ⟨w', hw'⟩ : ∃ w', w.step game1 (.dealSend 1 [.error]) = .ok w' := by
    simp only [step, hc, dealSend, hqueue, SendQueue.dealSend_error game1 _ hpos hle]
    exact ⟨_, rfl⟩
  refine ⟨w', (hreach.mono fun _ _ h => h.1).step (o := ConnOp.dealSend 1 [.error]) hrpc hw', fun hcoh => ?_⟩
  have hinv : w.Inv := hreach.invariant (inv_start _) fun w o w' hw ho hs => (step_iff hw ho.1 hs).1 ho.2
  have hsends := (step_iff hinv (o := ConnOp.dealSend 1 [.error]) hrpc hw').2 hcoh
  refine hsends ?_ ?_
  · exact mem_iff_exists.mpr ⟨c, hc⟩
  · rw [hqueue]
    exact clientEnd_error hpos hle

end ConnWorld

end KcpServer
