import KcpServer.NetQueue
import KcpServer.Lib.Transition

/-!
# Retrying unsent output

`send` puts a connection whose socket is full into `m_writeFdMap`, and `processAllWrite` retries the connections in it.
But `send` returns 0 also when the socket is full again, and `processAllWrite` then drops the entry that `send` has just
put there. `noStall` : as long as no socket is full in a pass, no connection with unsent bytes is forgotten.
-/

namespace KcpServer
open Lib

namespace ConnObj

def Unsent (c : ConnObj) : Prop := c.sendBufOffset < c.sendBufLen

/-- The writes of a `send` end with everything written, unless the socket is full or fails. -/
theorem writeLoop_spec {c : ConnObj} {ws : List WriteRes} {out : SendOut} (h : c.writeLoop ws = .ok out) :
    out.conn.fd = c.fd ∧ out.conn.pid = c.pid ∧ out.conn.bclose = c.bclose ∧
      (out.result = .done → ¬ out.conn.Unsent) ∧ (out.result = .addWrite → .again ∈ ws) := by
  induction ws generalizing c out with
  | nil => cases h
  | cons w ws ih =>
    cases w with
    | again => cases h; exact ⟨rfl, rfl, rfl, nofun, fun _ => List.mem_cons_self⟩
    | error => cases h; exact ⟨rfl, rfl, rfl, nofun, nofun⟩
    | wrote k =>
      rw [writeLoop] at h
      obtain ⟨_, -, h⟩ := bind_eq_ok.mp h
      obtain ⟨bytes, -, h⟩ := bind_eq_ok.mp h
      split at h
      · cases h
        exact ⟨rfl, rfl, rfl, fun _ => Nat.lt_irrefl 0, nofun⟩
      · obtain ⟨out', hout, hk⟩ := bind_eq_ok.mp h
        cases hk
        obtain ⟨hfd, hpid, hclose, hdone, hadd⟩ := ih hout
        exact ⟨hfd, hpid, hclose, hdone, fun h => List.mem_cons_of_mem _ (hadd h)⟩

theorem store_spec {c c' : ConnObj} {buf : Bytes} (h : c.store buf = .ok c') :
    c'.fd = c.fd ∧ c'.pid = c.pid ∧ c'.bclose = c.bclose := by
  unfold store at h
  split at h
  · dsimp only at h
    split at h
    · cases h
    · obtain ⟨left, -, hk⟩ := bind_eq_ok.mp h
      cases hk
      exact ⟨rfl, rfl, rfl⟩
  · obtain ⟨psendBuf, -, hk⟩ := bind_eq_ok.mp h
    cases hk
    exact ⟨rfl, rfl, rfl⟩

/-- One `send` on an open connection: it is done with nothing left, or the socket is full, or it fails. -/
theorem send_spec {c : ConnObj} {buf : Option Bytes} {ws : List WriteRes} {out : SendOut}
    (h : c.send buf ws = .ok out) (hopen : c.bclose = false) :
    out.conn.fd = c.fd ∧ out.conn.pid = c.pid ∧ out.conn.bclose = false ∧
      (out.result = .done → ¬ out.conn.Unsent) ∧ (out.result = .addWrite → .again ∈ ws) := by
  unfold send at h
  rw [if_neg (by rw [hopen]; decide)] at h
  split at h
  · next h0 =>
    cases h
    refine ⟨rfl, rfl, hopen, fun _ => ?_, nofun⟩
    rw [Unsent, h0.2]
    exact Nat.not_lt_zero _
  · obtain ⟨c', hc', h⟩ := bind_eq_ok.mp h
    obtain ⟨hfd, hpid, hclose, hdone, hadd⟩ := writeLoop_spec h
    have hsame : c'.fd = c.fd ∧ c'.pid = c.pid ∧ c'.bclose = c.bclose := by
      cases buf with
      | some buf => exact store_spec hc'
      | none => cases hc'; exact ⟨rfl, rfl, rfl⟩
    obtain ⟨hfd', hpid', hclose'⟩ := hsame
    exact ⟨hfd.trans hfd', hpid.trans hpid', by rw [hclose, hclose', hopen], hdone, hadd⟩

theorem send_again {c c' : ConnObj} {buf : Bytes} (hopen : c.bclose = false) (hbuf : buf ≠ [])
    (h : c.store buf = .ok c') (ws : List WriteRes) :
    c.send (some buf) (.again :: ws) = .ok ⟨c', .addWrite, [], ws⟩ := by
  have hlen : (((some buf).getD []).length = 0 ∧ c.sendBufLen = 0) → False := fun h0 =>
    hbuf (List.length_eq_zero_iff.mp h0.1)
  rw [send, if_neg (by rw [hopen]; decide), if_neg hlen, Option.elim_some, h]
  rfl

theorem retry_again {c : ConnObj} (hopen : c.bclose = false) (hlen : c.sendBufLen ≠ 0) (ws : List WriteRes) :
    c.send none (.again :: ws) = .ok ⟨c, .addWrite, [], ws⟩ := by
  rw [send, if_neg (by rw [hopen]; decide), if_neg (fun h0 => hlen h0.2)]
  rfl

end ConnObj

/-! ## The operations -/

/-- A manager, and the descriptors on which a write has failed since they were registered. -/
structure WriteWorld where
  mgr : ConnObjMgr
  failed : List Int

/-- What a process does with its connections; `ws` are the answers of `write`, for each session where there are several.
A connection is created for a descriptor that `accept` has returned. -/
inductive WriteOp
  | create (bNet : Bool) (fd : Int) (paddr : PeerAddr)
  | sendMsg (pid : Int) (pmem : Bytes) (ws : List WriteRes)
  | sendMsgAll (pmem : Bytes) (ws : Int → List WriteRes)
  | processAllWrite (ws : Int → List WriteRes)
  | delConn (fd : Int) (btimeOut : Bool)

namespace WriteWorld

def new : WriteWorld := ⟨.new, []⟩

def step (w : WriteWorld) : WriteOp → Except Fault WriteWorld
  | .create bNet fd paddr => do
    let (mgr, _) ← w.mgr.createConn bNet fd paddr
    return { w with mgr }
  | .sendMsg pid pmem ws => do
    let (mgr, quits) ← w.mgr.sendMsg pid pmem ws
    return ⟨mgr, w.failed ++ quits⟩
  | .sendMsgAll pmem ws => do
    let (mgr, quits) ← w.mgr.sendMsgAll pmem ws
    return ⟨mgr, w.failed ++ quits⟩
  | .processAllWrite ws => do
    let (mgr, quits) ← w.mgr.processAllWrite ws
    return ⟨mgr, w.failed ++ quits⟩
  | .delConn fd btimeOut => return ⟨(w.mgr.delConn fd btimeOut).1, w.failed.filter (· ≠ fd)⟩

/-- `accept` returns a descriptor that is not open. -/
def Accepts (w : WriteWorld) : WriteOp → Prop
  | .create _ fd _ => w.mgr.connFdMap[fd]? = none
  | _ => True

/-- In a pass no write on a connection without an earlier failure finds the socket full. -/
def NotFull (w : WriteWorld) : WriteOp → Prop
  | .processAllWrite ws => ∀ fd pid, w.mgr.writeFdMap[fd]? = some pid → fd ∉ w.failed → .again ∉ ws pid
  | _ => True

/-- Every open registered connection with unsent bytes and without a failed write has its entry in `m_writeFdMap`. -/
def NoStall (w : WriteWorld) : Prop :=
  ∀ pid (c : ConnObj), w.mgr.connMap[pid]? = some c → c.bclose = false → c.Unsent → c.fd ∉ w.failed →
    w.mgr.writeFdMap[c.fd]? = some pid

/-! ## Invariants -/

/-- The tables are inverse to each other, the registered connections are open, and the entries to be retried are
registered. -/
structure Registered (g : ConnObjMgr) : Prop where
  coherent : g.Coherent
  fd_of_conn : ∀ {pid} {c : ConnObj}, g.connMap[pid]? = some c → c.pid = pid ∧ g.connFdMap[c.fd]? = some pid ∧ c.bclose = false
  write_registered : ∀ {fd pid : Int}, g.writeFdMap[fd]? = some pid → g.connFdMap[fd]? = some pid

theorem Registered.fd_inj {g : ConnObjMgr} (hg : Registered g) {pid pid' : Int} {c c' : ConnObj}
    (hc : g.connMap[pid]? = some c) (hc' : g.connMap[pid']? = some c') (h : c.fd = c'.fd) : pid = pid' := by
  have h1 := (hg.fd_of_conn hc).2.1
  rw [h, (hg.fd_of_conn hc').2.1] at h1
  exact (Option.some.inj h1).symm

theorem Registered.lt {g : ConnObjMgr} (hg : Registered g) {pid : Int} {c : ConnObj} (hc : g.connMap[pid]? = some c) :
    pid < g.maxSessid := hg.coherent.pid_lt hc

theorem registered_new : Registered .new :=
  ⟨ConnObjMgr.coherent_new, fun h => by simp [ConnObjMgr.new] at h, fun h => by simp [ConnObjMgr.new] at h⟩

theorem Registered.replace {g : ConnObjMgr} (hg : Registered g) {pid : Int} {c c' : ConnObj}
    (hc : g.connMap[pid]? = some c) (hfd : c'.fd = c.fd) (hpid : c'.pid = c.pid) (hopen : c'.bclose = false) :
    Registered { g with connMap := g.connMap.insert pid c' } := by
  obtain ⟨hcpid, hcfd, -⟩ := hg.fd_of_conn hc
  refine ⟨⟨fun {fd q} h => ?_, fun {q d} h => ?_, hg.coherent.maxSessid_lt⟩, fun {q d} h => ?_, hg.write_registered⟩
  · obtain ⟨d, hd, hdfd, hdpid⟩ := hg.coherent.conn_of_fd h
    by_cases hq : q = pid
    · subst hq
      rw [hc] at hd
      cases hd
      exact ⟨c', insert_eq_some.mpr (Or.inl ⟨rfl, rfl⟩), hfd.trans hdfd, hpid.trans hdpid⟩
    · exact ⟨d, insert_eq_some.mpr (Or.inr ⟨hq, hd⟩), hdfd, hdpid⟩
  · rcases insert_eq_some.mp h with ⟨rfl, -⟩ | ⟨-, h⟩
    · exact hg.lt hc
    · exact hg.lt h
  · rcases insert_eq_some.mp h with ⟨rfl, rfl⟩ | ⟨-, h⟩
    · exact ⟨hpid.trans hcpid, by rw [hfd]; exact hcfd, hopen⟩
    · exact hg.fd_of_conn h

theorem Registered.setWrite {g : ConnObjMgr} (hg : Registered g) {m : Std.TreeMap Int Int}
    (hm : ∀ {fd pid : Int}, m[fd]? = some pid → g.connFdMap[fd]? = some pid) :
    Registered { g with writeFdMap := m } := ⟨⟨hg.coherent.1, hg.coherent.2, hg.coherent.3⟩, hg.fd_of_conn, hm⟩

structure Inv (w : WriteWorld) : Prop where
  registered : Registered w.mgr
  noStall : w.NoStall

/-- A `send` on a registered connection keeps the invariant. Behind it, the connection has no unsent bytes unless the
socket was full or a write has failed. -/
theorem sendAt_spec {g g' : ConnObjMgr} {failed quits : List Int} (hw : Inv ⟨g, failed⟩) {pid : Int} {c : ConnObj}
    (hc : g.connMap[pid]? = some c) {buf : Option Bytes} {ws : List WriteRes} {bytes : Bytes}
    (h : g.sendAt pid c buf ws = .ok (g', quits, bytes)) :
    Inv ⟨g', failed ++ quits⟩ ∧ g'.connFdMap = g.connFdMap ∧
      ∀ c', g'.connMap[pid]? = some c' → c'.fd = c.fd ∧ (.again ∉ ws → c'.Unsent → c'.fd ∈ failed ++ quits) := by
  obtain ⟨hg, hstall⟩ := hw
  obtain ⟨hcpid, hcfd, hopen⟩ := hg.fd_of_conn hc
  obtain ⟨out, hout, h⟩ := bind_eq_ok.mp h
  obtain ⟨hfd, hpid, hopen', hdone, hadd⟩ := ConnObj.send_spec hout hopen
  have hg' := hg.replace hc hfd hpid hopen'
  have hself : ∀ {c' : ConnObj}, (g.connMap.insert pid out.conn)[pid]? = some c' → c' = out.conn := by
    intro c' h
    rcases insert_eq_some.mp h with ⟨-, rfl⟩ | ⟨hne, -⟩
    · rfl
    · exact absurd rfl hne
  -- what a connection other than this one is promised
  have hother : ∀ {q : Int} {d : ConnObj}, (g.connMap.insert pid out.conn)[q]? = some d → q ≠ pid → d.bclose = false → d.Unsent →
      d.fd ∉ failed → d.fd ≠ out.conn.fd ∧ g.writeFdMap[d.fd]? = some q := by
    intro q d hd hq hdopen hunsent hfailed
    rcases insert_eq_some.mp hd with ⟨rfl, -⟩ | ⟨-, hd⟩
    · exact absurd rfl hq
    · exact ⟨fun heq => hq (hg.fd_inj hd hc (heq.trans hfd)), hstall q d hd hdopen hunsent hfailed⟩
  cases hres : out.result with
  | done =>
    rw [hres] at h
    cases h
    refine ⟨⟨hg', fun q d hd hdopen hunsent hfailed => ?_⟩, rfl, fun c' hc' => ?_⟩
    · rw [List.append_nil] at hfailed
      by_cases hq : q = pid
      · subst hq
        obtain rfl := hself hd
        exact absurd hunsent (hdone hres)
      · exact (hother hd hq hdopen hunsent hfailed).2
    · obtain rfl := hself hc'
      exact ⟨hfd, fun _ hunsent => absurd hunsent (hdone hres)⟩
  | addWrite =>
    rw [hres] at h
    cases h
    have hentry : ∀ {fd q : Int}, (g.writeFdMap.insert out.conn.fd out.conn.pid)[fd]? = some q →
        g.connFdMap[fd]? = some q := by
      intro fd q h
      rcases insert_eq_some.mp h with ⟨rfl, rfl⟩ | ⟨-, h⟩
      · rw [hfd, hpid, hcpid]; exact hcfd
      · exact hg.write_registered h
    refine ⟨⟨hg'.setWrite hentry, fun q d hd hdopen hunsent hfailed => ?_⟩, rfl, fun c' hc' => ?_⟩
    · rw [List.append_nil] at hfailed
      by_cases hq : q = pid
      · subst hq
        obtain rfl := hself hd
        exact insert_eq_some.mpr (Or.inl ⟨rfl, by rw [hpid, hcpid]⟩)
      · obtain ⟨hne, hold⟩ := hother hd hq hdopen hunsent hfailed
        exact insert_eq_some.mpr (Or.inr ⟨hne, hold⟩)
    · obtain rfl := hself hc'
      exact ⟨hfd, fun hagain _ => absurd (hadd hres) hagain⟩
  | quit =>
    rw [hres] at h
    cases h
    refine ⟨⟨hg', fun q d hd hdopen hunsent hfailed => ?_⟩, rfl, fun c' hc' => ?_⟩
    · by_cases hq : q = pid
      · subst hq
        obtain rfl := hself hd
        exact absurd (by simp) hfailed
      · exact (hother hd hq hdopen hunsent fun h => hfailed (List.mem_append_left _ h)).2
    · obtain rfl := hself hc'
      exact ⟨hfd, fun _ _ => by simp⟩

/-! ## The steps -/

theorem inv_sendMsgAllLoop {pmem : Bytes} {ws : Int → List WriteRes} {es : List (Int × Int)} {g g' : ConnObjMgr}
    {failed quits : List Int} (hw : Inv ⟨g, failed⟩) (hes : ∀ e ∈ es, g.connFdMap[e.1]? = some e.2)
    (h : ConnObjMgr.sendMsgAllLoop pmem ws es g = .ok (g', quits)) : Inv ⟨g', failed ++ quits⟩ := by
  induction es generalizing g failed quits with
  | nil => cases h; rwa [List.append_nil]
  | cons e es ih =>
    obtain ⟨fd, pid⟩ := e
    obtain ⟨c, hc, -⟩ := hw.registered.coherent.conn_of_fd (hes (fd, pid) (by simp))
    rw [ConnObjMgr.sendMsgAllLoop, ConnObjMgr.rawGetConnByPid, hc] at h
    dsimp only at h
    obtain ⟨⟨g₁, quits₁, bytes⟩, hsend, h⟩ := bind_eq_ok.mp h
    obtain ⟨⟨g₂, quits₂⟩, hloop, hk⟩ := bind_eq_ok.mp h
    cases hk
    obtain ⟨hw₁, hfdmap, -⟩ := sendAt_spec hw hc hsend
    rw [← List.append_assoc]
    exact ih hw₁ (fun e he => by rw [hfdmap]; exact hes e (List.mem_cons_of_mem _ he)) hloop

/-- The entries of a pass are dropped one by one, each behind a `send` of its connection. -/
theorem inv_processAllWriteLoop {ws : Int → List WriteRes} {es : List (Int × Int)} {g g' : ConnObjMgr}
    {failed quits : List Int} (hw : Inv ⟨g, failed⟩) (hes : ∀ e ∈ es, g.connFdMap[e.1]? = some e.2)
    (hws : ∀ e ∈ es, e.1 ∉ failed → .again ∉ ws e.2)
    (h : ConnObjMgr.processAllWriteLoop ws es g = .ok (g', quits)) : Inv ⟨g', failed ++ quits⟩ := by
  induction es generalizing g failed quits with
  | nil => cases h; rwa [List.append_nil]
  | cons e es ih =>
    obtain ⟨fd, pid⟩ := e
    obtain ⟨c, hc, hcfd, -⟩ := hw.registered.coherent.conn_of_fd (hes (fd, pid) (by simp))
    rw [ConnObjMgr.processAllWriteLoop, ConnObjMgr.rawGetConnByPid, hc] at h
    dsimp only at h
    obtain ⟨⟨g₁, quits₁, bytes⟩, hsend, h⟩ := bind_eq_ok.mp h
    obtain ⟨⟨g₂, quits₂⟩, hloop, hk⟩ := bind_eq_ok.mp h
    cases hk
    obtain ⟨⟨hg₁, hstall⟩, hfdmap, hself⟩ := sendAt_spec hw hc hsend
    have hw₁ : Inv ⟨{ g₁ with writeFdMap := g₁.writeFdMap.erase fd }, failed ++ quits₁⟩ := by
      refine ⟨hg₁.setWrite fun h => hg₁.write_registered (erase_eq_some.mp h).2, ?_⟩
      intro q d hd hdopen hunsent hfailed
      refine erase_eq_some.mpr ⟨?_, hstall q d hd hdopen hunsent hfailed⟩
      intro hdfd
      -- the connection of the dropped entry has nothing left to send
      obtain ⟨c', hc', -⟩ := hg₁.coherent.conn_of_fd (show g₁.connFdMap[fd]? = some pid by
        rw [hfdmap]; exact hes (fd, pid) (by simp))
      obtain ⟨hfd', hfree⟩ := hself c' hc'
      obtain rfl := hg₁.fd_inj hd hc' (by rw [hdfd, hfd', hcfd])
      rw [hd] at hc'
      cases hc'
      refine hfailed (hfree (hws (fd, _) (by simp) ?_) hunsent)
      exact fun h => hfailed (List.mem_append_left _ (hdfd ▸ h))
    rw [← List.append_assoc]
    refine ih hw₁ (fun e he => ?_) (fun e he hne => ?_) hloop
    · dsimp only
      rw [hfdmap]
      exact hes e (List.mem_cons_of_mem _ he)
    · exact hws e (List.mem_cons_of_mem _ he) fun h => hne (List.mem_append_left _ h)

theorem inv_create {w : WriteWorld} (hw : Inv w) {bNet : Bool} {fd : Int} {paddr : PeerAddr} {g : ConnObjMgr}
    {regs : List RegConn} (hfd : w.mgr.connFdMap[fd]? = none) (h : w.mgr.createConn bNet fd paddr = .ok (g, regs)) :
    Inv { w with mgr := g } := by
  obtain ⟨hg, hstall⟩ := hw
  have hmax := ConnObjMgr.maxSessid_lt_of_createConn h
  obtain ⟨g', regs', c, h', ⟨hcfd, hcpid, hopen, hempty⟩, hmap, hfdmap, hwrite, hsess⟩ :=
    ConnObjMgr.createConn_ok hmax bNet fd paddr
  rw [h] at h'
  cases h'
  have hother : ∀ {q : Int} {d : ConnObj}, g.connMap[q]? = some d →
      (q = w.mgr.maxSessid ∧ d = c) ∨ (q ≠ w.mgr.maxSessid ∧ w.mgr.connMap[q]? = some d) := by
    intro q d hd
    rw [hmap] at hd
    exact insert_eq_some.mp hd
  have hold : ∀ {fd' q : Int}, w.mgr.connFdMap[fd']? = some q → g.connFdMap[fd']? = some q := by
    intro fd' q hq
    rw [hfdmap]
    refine insert_eq_some.mpr (Or.inr ⟨?_, hq⟩)
    rintro rfl
    rw [hfd] at hq
    cases hq
  refine ⟨⟨(ConnObjMgr.coherent_createConn hg.coherent h).1, fun {q d} hd => ?_, fun {fd' q} hq => ?_⟩, ?_⟩
  · rcases hother hd with ⟨rfl, rfl⟩ | ⟨-, hd⟩
    · exact ⟨hcpid, by rw [hfdmap, hcfd]; exact insert_eq_some.mpr (Or.inl ⟨rfl, rfl⟩), hopen⟩
    · obtain ⟨hdpid, hdfd, hdopen⟩ := hg.fd_of_conn hd
      exact ⟨hdpid, hold hdfd, hdopen⟩
  · rw [hwrite] at hq
    exact hold (hg.write_registered hq)
  · intro q d hd hdopen hunsent hfailed
    rcases hother hd with ⟨rfl, rfl⟩ | ⟨-, hd⟩
    · rw [ConnObj.Unsent, hempty] at hunsent
      exact absurd hunsent (Nat.not_lt_zero _)
    · exact hwrite ▸ hstall q d hd hdopen hunsent hfailed

theorem inv_delConn {w : WriteWorld} (hw : Inv w) (fd : Int) (btimeOut : Bool) :
    Inv ⟨(w.mgr.delConn fd btimeOut).1, w.failed.filter (· ≠ fd)⟩ := by
  obtain ⟨hg, hstall⟩ := hw
  have hcoh := (ConnObjMgr.coherent_delConn hg.coherent fd btimeOut).1
  have hkeep : ∀ d : ConnObj, d.fd ≠ fd → d.fd ∉ w.failed.filter (· ≠ fd) → d.fd ∉ w.failed := by
    intro d hne hmem hin
    exact hmem (List.mem_filter.mpr ⟨hin, by simpa using hne⟩)
  cases hpid : w.mgr.connFdMap[fd]? with
  | none =>
    have hne : ∀ {q : Int} {d : ConnObj}, w.mgr.connMap[q]? = some d → d.fd ≠ fd := by
      rintro q d hd rfl
      rw [(hg.fd_of_conn hd).2.1] at hpid
      cases hpid
    rw [ConnObjMgr.delConn_none hpid]
    exact ⟨hg, fun q d hd hdopen hunsent hfailed => hstall q d hd hdopen hunsent (hkeep d (hne hd) hfailed)⟩
  | some pid =>
    obtain ⟨p, hp, hpfd, hppid⟩ := hg.coherent.conn_of_fd hpid
    obtain ⟨hfdmap, hmap, hwrite, -⟩ := ConnObjMgr.delConn_some hpid hp hppid btimeOut
    rw [hpfd] at hwrite
    have hother : ∀ {q : Int} {d : ConnObj}, (w.mgr.delConn fd btimeOut).1.connMap[q]? = some d →
        d.fd ≠ fd ∧ w.mgr.connMap[q]? = some d := by
      intro q d hd
      rw [hmap] at hd
      obtain ⟨hq, hd⟩ := erase_eq_some.mp hd
      exact ⟨fun h => hq (hg.fd_inj hd hp (h.trans hpfd.symm)), hd⟩
    refine ⟨⟨hcoh, fun {q d} hd => ?_, fun {fd' q} hq => ?_⟩, fun q d hd hdopen hunsent hfailed => ?_⟩
    · obtain ⟨hne, hd⟩ := hother hd
      obtain ⟨hdpid, hdfd, hdopen⟩ := hg.fd_of_conn hd
      exact ⟨hdpid, by rw [hfdmap]; exact erase_eq_some.mpr ⟨hne, hdfd⟩, hdopen⟩
    · rw [hwrite] at hq
      rw [hfdmap]
      obtain ⟨hne, hq⟩ := erase_eq_some.mp hq
      exact erase_eq_some.mpr ⟨hne, hg.write_registered hq⟩
    · obtain ⟨hne, hd⟩ := hother hd
      dsimp only
      rw [hwrite]
      exact erase_eq_some.mpr ⟨hne, hstall q d hd hdopen hunsent (hkeep d hne hfailed)⟩

theorem inv_step {w w' : WriteWorld} {o : WriteOp} (hw : Inv w) (hacc : Accepts w o) (hfull : NotFull w o)
    (h : w.step o = .ok w') : Inv w' := by
  cases o with
  | create bNet fd paddr =>
    obtain ⟨⟨g, regs⟩, hg, hk⟩ := bind_eq_ok.mp h
    cases hk
    exact inv_create hw hacc hg
  | sendMsg pid pmem ws =>
    obtain ⟨⟨g, quits⟩, hg, hk⟩ := bind_eq_ok.mp h
    cases hk
    unfold ConnObjMgr.sendMsg ConnObjMgr.rawGetConnByPid at hg
    cases hc : w.mgr.connMap[pid]? with
    | none =>
      rw [hc] at hg
      cases hg
      rw [List.append_nil]
      exact hw
    | some c =>
      rw [hc] at hg
      obtain ⟨⟨g₁, quits₁, bytes⟩, hsend, hk⟩ := bind_eq_ok.mp hg
      cases hk
      exact (sendAt_spec hw hc hsend).1
  | sendMsgAll pmem ws =>
    obtain ⟨⟨g, quits⟩, hg, hk⟩ := bind_eq_ok.mp h
    cases hk
    refine inv_sendMsgAllLoop hw (fun e he => ?_) hg
    exact Std.TreeMap.mem_toList_iff_getElem?_eq_some.mp he
  | processAllWrite ws =>
    obtain ⟨⟨g, quits⟩, hg, hk⟩ := bind_eq_ok.mp h
    cases hk
    have hentry : ∀ e ∈ w.mgr.writeFdMap.toList, w.mgr.writeFdMap[e.1]? = some e.2 := fun e he =>
      Std.TreeMap.mem_toList_iff_getElem?_eq_some.mp he
    refine inv_processAllWriteLoop hw (fun e he => hw.registered.write_registered (hentry e he)) (fun e he hne => ?_) hg
    exact hfull e.1 e.2 (hentry e he) hne
  | delConn fd btimeOut =>
    cases h
    exact inv_delConn hw fd btimeOut

/-- **No output stalls while no pass finds a socket full.** In every state reached from an empty manager by operations
none of whose passes meets `EAGAIN` on a connection without a failed write, every open registered connection with unsent
bytes and without a failed write has its entry in `m_writeFdMap`. -/
theorem noStall {w : WriteWorld} (h : Reach step (fun w o => Accepts w o ∧ NotFull w o) new w) : w.NoStall := by
  have hinit : Inv new := ⟨registered_new, fun pid c hc => by simp [new, ConnObjMgr.new] at hc⟩
  exact (h.invariant hinit fun _ _ _ hw hp hs => inv_step hw hp.1 hp.2 hs).noStall

def client : ConnObj := (((ConnObj.new .net 5).setPid 1).onInit NetServer.peerAddr true).1

def unsentClient (psendBuf : Bytes) : ConnObj := { client with psendBuf, sendBufLen := 1 }

theorem unsent_unsentClient (p : Bytes) : (unsentClient p).Unsent := Nat.zero_lt_one

theorem store_client {p : Bytes} (hp : p.length = 32768) (b : UInt8) : ∃ p',
    ({ client with psendBuf := p } : ConnObj).store [b] = .ok (unsentClient p') ∧ p'.length = 32768 := by
  have hfits : 0 + [b].length ≤ p.length := by
    rw [hp, List.length_singleton]
    decide
  have hwrite : writeAt p 0 [b] = .ok (memcpy p 0 [b]) := if_pos hfits
  refine ⟨memcpy p 0 [b], ?_, by rw [length_memcpy hfits, hp]⟩
  have hroom : ¬ [b].length > 32768 - 0 := by
    rw [List.length_singleton]
    decide
  refine (if_neg hroom).trans ?_
  show writeAt p 0 [b] >>= _ = _
  rw [hwrite]
  rfl

theorem sendMsg_full {g : ConnObjMgr} {p : Bytes} (hc : g.connMap[(1 : Int)]? = some { client with psendBuf := p })
    (hp : p.length = 32768) (b : UInt8) : ∃ p', step ⟨g, []⟩ (.sendMsg 1 [b] [.again]) = .ok ⟨{ g with
      connMap := g.connMap.insert 1 (unsentClient p'), writeFdMap := g.writeFdMap.insert 5 1 }, []⟩ ∧ p'.length = 32768 := by
  obtain ⟨p', hstore, hp'⟩ := store_client hp b
  refine ⟨p', ?_, hp'⟩
  rw [step, ConnObjMgr.sendMsg, ConnObjMgr.rawGetConnByPid, hc]
  dsimp only
  rw [ConnObjMgr.sendAt, ConnObj.send_again rfl (List.cons_ne_nil _ _) hstore]
  rfl

theorem processAllWrite_wrote {g : ConnObjMgr} {p : Bytes} (hc : g.connMap[(1 : Int)]? = some (unsentClient p))
    (hp : p.length = 32768) (hwrite : g.writeFdMap.toList = [(5, 1)]) :
    step ⟨g, []⟩ (.processAllWrite fun _ => [.wrote 1]) = .ok ⟨{ g with
      connMap := g.connMap.insert 1 { client with psendBuf := p }, writeFdMap := g.writeFdMap.erase 5 }, []⟩ := by
  have hread : readAt p 0 1 = .ok (slice p 0 1) := if_pos (by rw [hp]; decide)
  have hsend : (unsentClient p).send none [.wrote 1] = .ok ⟨{ client with psendBuf := p }, .done, slice p 0 1, []⟩ := by
    show (do
      let bytes ← readAt p 0 1
      pure (⟨{ client with psendBuf := p }, .done, bytes, []⟩ : ConnObj.SendOut)) = _
    rw [hread]
    rfl
  rw [step, ConnObjMgr.processAllWrite, hwrite, ConnObjMgr.processAllWriteLoop, ConnObjMgr.rawGetConnByPid, hc]
  dsimp only
  rw [ConnObjMgr.sendAt, hsend]
  rfl

theorem exists_full : ∃ (g : ConnObjMgr) (p : Bytes),
    Reach step (fun w o => Accepts w o ∧ NotFull w o) new ⟨g, []⟩ ∧ p.length = 32768 ∧
    g.connMap[(1 : Int)]? = some (unsentClient p) ∧ g.writeFdMap = (∅ : Std.TreeMap Int Int).insert 5 1 := by
  let g₁ : ConnObjMgr := { ConnObjMgr.new with
    connMap := (∅ : Std.TreeMap Int ConnObj).insert 1 client
    connFdMap := (∅ : Std.TreeMap Int Int).insert 5 1
    maxSessid := 2 }
  have h₁ : step new (.create true 5 NetServer.peerAddr) = .ok ⟨g₁, []⟩ := rfl
  obtain ⟨p, h₂, hp⟩ := sendMsg_full (g := g₁) (p := client.psendBuf) Std.TreeMap.getElem?_insert_self
    List.length_replicate 7
  have hp₁ : Accepts new (.create true 5 NetServer.peerAddr) := by simp [Accepts, new, ConnObjMgr.new]
  have hp₂ : Accepts ⟨g₁, []⟩ (.sendMsg 1 [7] [.again]) ∧ NotFull ⟨g₁, []⟩ (.sendMsg 1 [7] [.again]) :=
    ⟨trivial, trivial⟩
  exact ⟨_, p, (Reach.refl.step ⟨hp₁, trivial⟩ h₁).step hp₂ h₂, hp, Std.TreeMap.getElem?_insert_self, rfl⟩

/-- The socket is full again in the next pass: the client's byte is not retried any more. -/
theorem stalls : ∃ w : WriteWorld, Reach step Accepts new w ∧ ¬ w.NoStall := by
  obtain ⟨g, p, hreach, -, hc, hwrite⟩ := exists_full
  let g' : ConnObjMgr := { g with
    connMap := g.connMap.insert 1 (unsentClient p)
    writeFdMap := (g.writeFdMap.insert 5 1).erase 5 }
  have hpass : step ⟨g, []⟩ (.processAllWrite fun _ => [.again]) = .ok ⟨g', []⟩ := by
    have hes : g.writeFdMap.toList = [(5, 1)] := by rw [hwrite]; rfl
    rw [step, ConnObjMgr.processAllWrite, hes, ConnObjMgr.processAllWriteLoop, ConnObjMgr.rawGetConnByPid, hc]
    dsimp only
    rw [ConnObjMgr.sendAt, ConnObj.retry_again rfl (show (1 : Nat) ≠ 0 by decide)]
    rfl
  have haccepts : Accepts ⟨g, []⟩ (.processAllWrite fun _ => [.again]) := trivial
  refine ⟨⟨g', []⟩, (hreach.mono fun _ _ h => h.1).step haccepts hpass, fun hstall => ?_⟩
  have hentry := hstall 1 _ Std.TreeMap.getElem?_insert_self rfl (unsent_unsentClient p) (by simp)
  exact (erase_eq_some.mp hentry).1 rfl

/-- The pass sends the byte, and the socket is full for the next one: that has its entry. -/
theorem noStall_full : ∃ (g g₁ : ConnObjMgr) (w : WriteWorld),
    Reach step (fun w o => Accepts w o ∧ NotFull w o) new ⟨g, []⟩ ∧
    step ⟨g, []⟩ (.processAllWrite fun _ => [.wrote 1]) = .ok ⟨g₁, []⟩ ∧
    step ⟨g₁, []⟩ (.sendMsg 1 [8] [.again]) = .ok w ∧
    w.NoStall ∧ ∃ c : ConnObj, w.mgr.connMap[(1 : Int)]? = some c ∧ c.Unsent := by
  obtain ⟨g, p, hreach, hp, hc, hwrite⟩ := exists_full
  have h₁ := processAllWrite_wrote hc hp (by rw [hwrite]; rfl)
  obtain ⟨p', h₂, -⟩ := sendMsg_full (g := { g with
    connMap := g.connMap.insert 1 { client with psendBuf := p }, writeFdMap := g.writeFdMap.erase 5 })
    Std.TreeMap.getElem?_insert_self hp 8
  have hpass : NotFull ⟨g, []⟩ (.processAllWrite fun _ => [.wrote 1]) := fun _ _ _ _ => by simp
  have hreach' := (hreach.step (o := WriteOp.processAllWrite fun _ => [.wrote 1]) ⟨trivial, hpass⟩ h₁).step
    (o := WriteOp.sendMsg 1 [8] [.again]) ⟨trivial, trivial⟩ h₂
  exact ⟨g, _, _, hreach, h₁, h₂, noStall hreach', _, Std.TreeMap.getElem?_insert_self, unsent_unsentClient p'⟩

end WriteWorld

end KcpServer
