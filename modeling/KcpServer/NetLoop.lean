import KcpServer.ConnRegistry

/-!
# `queueProcessFun` beside the epoll thread

A pass of the main loop locks the queue only while it empties it. From there on the epoll thread goes on accepting and
reporting while the pass creates the new connections, reads from every descriptor of `m_readFdMap`, writes, serves the
game nodes and looks for timeouts. `NetLoop.step` takes these actions one by one; a socket is what the kernel holds of a
connection.

* `Kept`, `Sent` : what reading and sending leave of the tables;
* `stepped` : what an action does, one case for each way to go on.
-/

namespace KcpServer
open Lib

/-- A connected socket: the bytes not read yet and how many of them a `DATA_IN` has been queued for, whether the peer has
shut it down, and whether a `QUIT_CONN` has been queued for its descriptor. -/
structure Socket where
  unread : Bytes
  reported : Nat
  eof : Bool
  quit : Bool

/-- Where `netServer::queueProcessFun` stands, with its `listNew` or with the descriptors it still has to read from and
its `delLst`. -/
inductive Phase
  | idle
  | drained (listNew : List (Int × PeerAddr))
  | reading (fds delLst : List Int)
  | serving

/-- A process with its sockets and the `RegConn` calls made so far. -/
structure NetLoop where
  server : NetServer
  phase : Phase
  socks : Std.TreeMap Int Socket
  regs : List RegConn

/-- What happens. The network and the epoll thread: a connection is accepted, bytes arrive, the peer shuts down, readable
data or a hang-up is reported. The main loop: the steps of a pass, where `r` is what `read` returns and `ws` are the
answers of `write`; `sendMsg`, `sendMsgAll` and `closeCliConn` are what the game nodes ask for. -/
inductive LoopOp
  | accept (fd : Int) (paddr : PeerAddr)
  | arrive (fd : Int) (bs : Bytes)
  | shutdown (fd : Int)
  | dataIn (fd : Int)
  | hangUp (fd : Int)
  | drain
  | create
  | read (addr : Nat) (sec : Int) (r : ReadRes)
  | erase
  | processAllWrite (ws : Int → List WriteRes)
  | sendMsg (pid : Int) (pmem : Bytes) (ws : List WriteRes)
  | sendMsgAll (pmem : Bytes) (ws : Int → List WriteRes)
  | closeCliConn (fd : Int)
  | chkConnTimeout (nowsec : Int)

/-! ## What reading and sending leave -/

namespace ConnObj

/-- The parts of a connection that reading and sending do not change. -/
structure SameIds (c c' : ConnObj) : Prop where
  fd : c'.fd = c.fd
  pid : c'.pid = c.pid
  bclose : c'.bclose = c.bclose

/-- The parts of a connection that sending does not change. -/
structure SameRead (c c' : ConnObj) : Prop extends SameIds c c' where
  netOffset : c'.netOffset = c.netOffset
  chkReadZero : c'.chkReadZero = c.chkReadZero

theorem SameIds.refl (c : ConnObj) : SameIds c c := ⟨rfl, rfl, rfl⟩

theorem SameIds.trans {c₁ c₂ c₃ : ConnObj} (h : SameIds c₁ c₂) (h' : SameIds c₂ c₃) : SameIds c₁ c₃ :=
  ⟨h'.fd.trans h.fd, h'.pid.trans h.pid, h'.bclose.trans h.bclose⟩

theorem SameRead.refl (c : ConnObj) : SameRead c c := ⟨⟨rfl, rfl, rfl⟩, rfl, rfl⟩

theorem SameRead.trans {c₁ c₂ c₃ : ConnObj} (h : SameRead c₁ c₂) (h' : SameRead c₂ c₃) : SameRead c₁ c₃ :=
  ⟨⟨h'.fd.trans h.fd, h'.pid.trans h.pid, h'.bclose.trans h.bclose⟩, h'.netOffset.trans h.netOffset,
    h'.chkReadZero.trans h.chkReadZero⟩

theorem _onRead_sameIds {c c' : ConnObj} {r : ReadRes} {ret : Int} {quits : List Int}
    (h : c._onRead r = .ok (c', ret, quits)) : SameIds c c' := by
  unfold _onRead at h
  split at h
  · cases h
    exact .refl c
  · cases r with
    | error => cases h; exact .refl c
    | again => cases h; exact ⟨rfl, rfl, rfl⟩
    | data bs =>
      obtain ⟨m, -, h⟩ := bind_eq_ok.mp h
      dsimp only at h
      split at h
      · cases h
        exact ⟨rfl, rfl, rfl⟩
      · split at h
        · cases h
          exact ⟨rfl, rfl, rfl⟩
        · split at h <;>
          · cases h
            exact ⟨rfl, rfl, rfl⟩

theorem parseBuff_sameIds {c c' : ConnObj} {addr : Nat} {sec : Int} {parsed : Bool} {msgs : List Msg}
    {quits : List Int} (h : c.parseBuff addr sec = .ok (parsed, c', msgs, quits)) : SameIds c c' := by
  unfold parseBuff at h
  split at h
  · cases h
    exact .refl c
  · obtain ⟨out, -, h⟩ := bind_eq_ok.mp h
    cases h
    exact ⟨rfl, rfl, rfl⟩

theorem resetBuffer_sameIds {c c' : ConnObj} (h : c.resetBuffer = .ok c') : SameIds c c' := by
  unfold resetBuffer at h
  split at h
  · cases h
    exact ⟨rfl, rfl, rfl⟩
  · obtain ⟨m, -, h⟩ := bind_eq_ok.mp h
    cases h
    exact ⟨rfl, rfl, rfl⟩

theorem onRead_sameIds {c : ConnObj} {addr : Nat} {sec : Int} {r : ReadRes} {out : ReadOut}
    (h : c.onRead addr sec r = .ok out) : SameIds c out.conn := by
  unfold onRead at h
  split at h
  · cases h
    exact .refl c
  · obtain ⟨⟨c₁, ret, quits⟩, hread, h⟩ := bind_eq_ok.mp h
    obtain ⟨⟨parsed, c₂, msgs, quits'⟩, hparse, h⟩ := bind_eq_ok.mp h
    obtain ⟨c₃, hreset, h⟩ := bind_eq_ok.mp h
    cases h
    exact (_onRead_sameIds hread).trans ((parseBuff_sameIds hparse).trans (resetBuffer_sameIds hreset))

theorem writeLoop_sameRead {c : ConnObj} {ws : List WriteRes} {out : SendOut} (h : c.writeLoop ws = .ok out) :
    SameRead c out.conn := by
  induction ws generalizing c out with
  | nil => cases h
  | cons a ws ih =>
    cases a with
    | again => cases h; exact .refl c
    | error => cases h; exact .refl c
    | wrote k =>
      rw [writeLoop] at h
      obtain ⟨_, -, h⟩ := bind_eq_ok.mp h
      obtain ⟨bytes, -, h⟩ := bind_eq_ok.mp h
      split at h
      · cases h
        exact ⟨⟨rfl, rfl, rfl⟩, rfl, rfl⟩
      · obtain ⟨out', hout, h⟩ := bind_eq_ok.mp h
        cases h
        obtain ⟨⟨hfd, hpid, hclose⟩, hoff, hchk⟩ := ih hout
        exact ⟨⟨hfd, hpid, hclose⟩, hoff, hchk⟩

theorem store_sameRead {c c' : ConnObj} {buf : Bytes} (h : c.store buf = .ok c') : SameRead c c' := by
  unfold store at h
  split at h
  · dsimp only at h
    split at h
    · cases h
    · obtain ⟨left, -, h⟩ := bind_eq_ok.mp h
      cases h
      exact ⟨⟨rfl, rfl, rfl⟩, rfl, rfl⟩
  · obtain ⟨psendBuf, -, h⟩ := bind_eq_ok.mp h
    cases h
    exact ⟨⟨rfl, rfl, rfl⟩, rfl, rfl⟩

theorem send_sameRead {c : ConnObj} {buf : Option Bytes} {ws : List WriteRes} {out : SendOut}
    (h : c.send buf ws = .ok out) : SameRead c out.conn := by
  unfold send at h
  split at h
  · cases h
    exact .refl c
  · split at h
    · cases h
      exact .refl c
    · obtain ⟨c', hstore, h⟩ := bind_eq_ok.mp h
      refine SameRead.trans ?_ (writeLoop_sameRead h)
      cases buf with
      | none => cases hstore; exact .refl c
      | some buf => exact store_sameRead hstore

end ConnObj

namespace ConnObjMgr

/-- The same connections are registered for the same descriptors, each as `R` lets it change. -/
structure Kept (R : ConnObj → ConnObj → Prop) (g g' : ConnObjMgr) : Prop where
  conn : ∀ {pid : Int} {c' : ConnObj}, g'.connMap[pid]? = some c' → ∃ c, g.connMap[pid]? = some c ∧ R c c'
  mem : ∀ {pid : Int}, pid ∈ g.connMap → pid ∈ g'.connMap
  fd : ∀ {fd pid : Int}, g'.connFdMap[fd]? = some pid ↔ g.connFdMap[fd]? = some pid
  maxSessid : g'.maxSessid = g.maxSessid

variable {g g' : ConnObjMgr}

theorem Kept.mono {R R' : ConnObj → ConnObj → Prop} (h : Kept R g g') (hR : ∀ c c', R c c' → R' c c') : Kept R' g g' where
  conn hc := by
    obtain ⟨c, hc, hrel⟩ := h.conn hc
    exact ⟨c, hc, hR _ _ hrel⟩
  mem := h.mem
  fd := h.fd
  maxSessid := h.maxSessid

theorem Kept.coherent (h : Kept ConnObj.SameIds g g') (hg : g.Coherent) : g'.Coherent where
  conn_of_fd hfd := by
    obtain ⟨c, hc, hcfd, hcpid⟩ := hg.conn_of_fd (h.fd.mp hfd)
    obtain ⟨c', hc'⟩ := mem_iff_exists.mp (h.mem (mem_iff_exists.mpr ⟨c, hc⟩))
    obtain ⟨d, hd, hsame⟩ := h.conn hc'
    cases hc.symm.trans hd
    exact ⟨c', hc', hsame.fd.trans hcfd, hsame.pid.trans hcpid⟩
  pid_lt hc' := by
    obtain ⟨c, hc, -⟩ := h.conn hc'
    rw [h.maxSessid]
    exact hg.pid_lt hc
  maxSessid_lt := by
    rw [h.maxSessid]
    exact hg.maxSessid_lt

theorem kept_replace {R : ConnObj → ConnObj → Prop} (hrefl : ∀ d, R d d) {pid : Int} {c c' : ConnObj}
    (hc : g.connMap[pid]? = some c) (hrel : R c c') : Kept R g { g with connMap := g.connMap.insert pid c' } where
  conn {q d} hd := by
    rcases insert_eq_some.mp hd with ⟨rfl, rfl⟩ | ⟨-, hd⟩
    · exact ⟨c, hc, hrel⟩
    · exact ⟨d, hd, hrefl d⟩
  mem hmem := Std.TreeMap.mem_insert.mpr (.inr hmem)
  fd := .rfl
  maxSessid := rfl

/-- What a call that only sends leaves of the tables. -/
abbrev Sent (g g' : ConnObjMgr) : Prop := Kept ConnObj.SameRead g g'

theorem Sent.refl (g : ConnObjMgr) : Sent g g := ⟨fun h => ⟨_, h, .refl _⟩, id, .rfl, rfl⟩

theorem Sent.trans {g₁ g₂ g₃ : ConnObjMgr} (h : Sent g₁ g₂) (h' : Sent g₂ g₃) : Sent g₁ g₃ where
  conn hc := by
    obtain ⟨c₂, hc₂, hsame₂⟩ := h'.conn hc
    obtain ⟨c₁, hc₁, hsame₁⟩ := h.conn hc₂
    exact ⟨c₁, hc₁, hsame₁.trans hsame₂⟩
  mem hmem := h'.mem (h.mem hmem)
  fd := h'.fd.trans h.fd
  maxSessid := h'.maxSessid.trans h.maxSessid

theorem Sent.sameIds (h : Sent g g') : Kept ConnObj.SameIds g g' := h.mono fun _ _ hsame => hsame.toSameIds

theorem sent_sendAt {pid : Int} {c : ConnObj} (hc : g.connMap[pid]? = some c) {buf : Option Bytes}
    {ws : List WriteRes} {quits : List Int} {bytes : Bytes} (h : g.sendAt pid c buf ws = .ok (g', quits, bytes)) :
    Sent g g' := by
  obtain ⟨out, hout, h⟩ := bind_eq_ok.mp h
  have hkept := kept_replace ConnObj.SameRead.refl hc (ConnObj.send_sameRead hout)
  cases hres : out.result <;>
  · rw [hres] at h
    cases h
    exact ⟨hkept.conn, hkept.mem, hkept.fd, hkept.maxSessid⟩

theorem sent_sendMsg {pid : Int} {pmem : Bytes} {ws : List WriteRes} {quits : List Int}
    (h : g.sendMsg pid pmem ws = .ok (g', quits)) : Sent g g' := by
  unfold sendMsg at h
  split at h
  · cases h
    exact .refl _
  · next p hp =>
    obtain ⟨⟨g₁, quits₁, bytes⟩, hsend, h⟩ := bind_eq_ok.mp h
    cases h
    exact sent_sendAt hp hsend

theorem sent_sendMsgAllLoop {pmem : Bytes} {ws : Int → List WriteRes} {es : List (Int × Int)} {quits : List Int}
    (hg : g.Coherent) (hes : ∀ e ∈ es, g.connFdMap[e.1]? = some e.2)
    (h : sendMsgAllLoop pmem ws es g = .ok (g', quits)) : Sent g g' := by
  induction es generalizing g quits with
  | nil =>
    cases h
    exact .refl _
  | cons e es ih =>
    rw [List.forall_mem_cons] at hes
    rw [sendMsgAllLoop] at h
    split at h
    · next hnone =>
      obtain ⟨c, hc, -⟩ := hg.conn_of_fd hes.1
      cases hnone.symm.trans hc
    · next p hp =>
      obtain ⟨⟨g₁, quits₁, bytes⟩, hsend, h⟩ := bind_eq_ok.mp h
      obtain ⟨⟨g₂, quits₂⟩, hloop, h⟩ := bind_eq_ok.mp h
      cases h
      have hkept := sent_sendAt hp hsend
      exact hkept.trans (ih (hkept.sameIds.coherent hg) (fun e' he' => hkept.fd.mpr (hes.2 e' he')) hloop)

theorem sent_sendMsgAll {pmem : Bytes} {ws : Int → List WriteRes} {quits : List Int} (hg : g.Coherent)
    (h : g.sendMsgAll pmem ws = .ok (g', quits)) : Sent g g' :=
  sent_sendMsgAllLoop hg (fun _ he => Std.TreeMap.mem_toList_iff_getElem?_eq_some.mp he) h

theorem sent_processAllWriteLoop {ws : Int → List WriteRes} {es : List (Int × Int)} {quits : List Int}
    (h : processAllWriteLoop ws es g = .ok (g', quits)) : Sent g g' := by
  have hwrite : ∀ (g : ConnObjMgr) (m : Std.TreeMap Int Int), Sent g { g with writeFdMap := m } := fun g m =>
    ⟨fun h => ⟨_, h, .refl _⟩, id, .rfl, rfl⟩
  induction es generalizing g quits with
  | nil =>
    cases h
    exact .refl _
  | cons e es ih =>
    rw [processAllWriteLoop] at h
    split at h
    · exact (hwrite g _).trans (ih h)
    · next p hp =>
      obtain ⟨⟨g₁, quits₁, bytes⟩, hsend, h⟩ := bind_eq_ok.mp h
      obtain ⟨⟨g₂, quits₂⟩, hloop, h⟩ := bind_eq_ok.mp h
      cases h
      exact ((sent_sendAt hp hsend).trans (hwrite g₁ _)).trans (ih hloop)

end ConnObjMgr

/-! ## The steps -/

namespace NetLoop

def start (bNet : Bool) : NetLoop := ⟨⟨[], ∅, bNet, .new⟩, .idle, ∅, []⟩

def setMgr (w : NetLoop) (mgr : ConnObjMgr) : NetLoop := { w with server := { w.server with mgr } }

/-- `netServer::appendSt` -/
def appendSt (w : NetLoop) (o : NetOp) : NetLoop :=
  { w with server := { w.server with netQueue := w.server.netQueue ++ [o] } }

def onSock (w : NetLoop) (fd : Int) (f : Socket → Socket) : NetLoop :=
  match w.socks[fd]? with
  | none => w
  | some s => { w with socks := w.socks.insert fd (f s) }

/-- `netServer::appendConnClose` -/
def appendConnClose (w : NetLoop) (fd : Int) : NetLoop :=
  (w.onSock fd fun s => { s with quit := true }).appendSt (.quitConn fd)

/-- `netServer::appendDataIn` -/
def appendDataIn (w : NetLoop) (fd : Int) : NetLoop :=
  (w.onSock fd fun s => { s with reported := s.unread.length }).appendSt (.dataIn fd)

/-- `connObjMgr::DelConn` -/
def delConn (w : NetLoop) (fd : Int) (btimeOut : Bool) : NetLoop :=
  match w.server.mgr.getConn fd with
  | none => w
  | some p =>
    let (mgr, regs) := w.server.mgr.delConn fd btimeOut
    { w.setMgr mgr with socks := w.socks.erase p.fd, regs := w.regs ++ regs }

/-- The loop over `m_netQueue`. -/
def drainLoop : List NetOp → NetLoop → List (Int × PeerAddr) → NetLoop
  | [], w, listNew => { w with server := { w.server with netQueue := [] }, phase := .drained listNew }
  | .newConn fd paddr :: q, w, listNew => drainLoop q w (listNew ++ [(fd, paddr)])
  | .dataIn fd :: q, w, listNew =>
    drainLoop q { w with server := { w.server with readFdMap := w.server.readFdMap.insert fd true } } listNew
  | .quitConn fd :: q, w, listNew => drainLoop q (w.delConn fd false) listNew

/-- `connObj::OnRead` of the connection that the loop over `m_readFdMap` has come to. -/
def readConn (w : NetLoop) (fd : Int) (fds delLst : List Int) (addr : Nat) (sec : Int) (r : ReadRes) :
    Except Fault NetLoop :=
  match w.server.mgr.getConn fd with
  | none => return { w with phase := .reading fds (delLst ++ [fd]) }
  | some c => do
    let out ← c.onRead addr sec r
    let w := w.setMgr { w.server.mgr with connMap := w.server.mgr.connMap.insert c.pid out.conn }
    let k := if c.bclose then 0 else r.bytes.length
    let w := w.onSock c.fd fun s => { s with unread := s.unread.drop k, reported := s.reported - k }
    let w := out.quits.foldl appendConnClose w
    return { w with phase := .reading fds (if out.ret = 0 then delLst ++ [fd] else delLst) }

/-- A `send`: the manager, and the descriptors that are to be closed. -/
def sent (w : NetLoop) (r : ConnObjMgr × List Int) : NetLoop := r.2.foldl appendConnClose (w.setMgr r.1)

/-- One action; where it is not the turn of one of the main loop's, nothing. -/
def step (w : NetLoop) (o : LoopOp) : Except Fault NetLoop :=
  match o, w.phase with
  | .accept fd paddr, _ => return { w with socks := w.socks.insert fd ⟨[], 0, false, false⟩ }.appendSt (.newConn fd paddr)
  | .arrive fd bs, _ => return w.onSock fd fun s => { s with unread := s.unread ++ bs }
  | .shutdown fd, _ => return w.onSock fd fun s => { s with eof := true }
  | .dataIn fd, _ => return w.appendDataIn fd
  | .hangUp fd, _ => return w.appendConnClose fd
  | .drain, .idle => return drainLoop w.server.netQueue w []
  | .create, .drained listNew => do
    let (mgr, regs) ← w.server.mgr.createConnBatch w.server.bNet listNew
    return { w.setMgr mgr with phase := .reading w.server.readFdMap.keys [], regs := w.regs ++ regs }
  | .read addr sec r, .reading (fd :: fds) delLst => w.readConn fd fds delLst addr sec r
  | .erase, .reading [] delLst =>
    return { w with
      server := { w.server with readFdMap := delLst.foldl (fun m fd => m.erase fd) w.server.readFdMap }
      phase := .serving }
  | .processAllWrite ws, .serving => w.sent <$> w.server.mgr.processAllWrite ws
  | .sendMsg pid pmem ws, .serving => w.sent <$> w.server.mgr.sendMsg pid pmem ws
  | .sendMsgAll pmem ws, .serving => w.sent <$> w.server.mgr.sendMsgAll pmem ws
  | .closeCliConn fd, .serving => return w.delConn fd false
  | .chkConnTimeout nowsec, .serving =>
    return { (w.server.mgr.timeouts nowsec).foldl (fun w p => w.delConn p.fd true) w with phase := .idle }
  | _, _ => return w

variable {w w' : NetLoop} {fd : Int}

@[simp] theorem onSock_server (w : NetLoop) (fd : Int) (f : Socket → Socket) : (w.onSock fd f).server = w.server := by
  unfold onSock
  split <;> rfl

@[simp] theorem onSock_phase (w : NetLoop) (fd : Int) (f : Socket → Socket) : (w.onSock fd f).phase = w.phase := by
  unfold onSock
  split <;> rfl

@[simp] theorem onSock_regs (w : NetLoop) (fd : Int) (f : Socket → Socket) : (w.onSock fd f).regs = w.regs := by
  unfold onSock
  split <;> rfl

theorem onSock_eq_some {f : Socket → Socket} {fd' : Int} {s' : Socket} :
    (w.onSock fd f).socks[fd']? = some s' ↔
      (fd' = fd ∧ ∃ s, w.socks[fd]? = some s ∧ s' = f s) ∨ (fd' ≠ fd ∧ w.socks[fd']? = some s') := by
  unfold onSock
  split
  · next hnone =>
    by_cases heq : fd' = fd
    · subst heq
      simp [hnone]
    · simp [heq]
  · next s hs =>
    rw [insert_eq_some]
    simp [hs]

theorem foldl_appendConnClose (w : NetLoop) (quits : List Int) :
    (quits.foldl appendConnClose w).server = { w.server with
      netQueue := w.server.netQueue ++ quits.map NetOp.quitConn } ∧
    (quits.foldl appendConnClose w).phase = w.phase ∧ (quits.foldl appendConnClose w).regs = w.regs := by
  induction quits generalizing w with
  | nil => simp
  | cons fd quits ih =>
    obtain ⟨hserver, hphase, hregs⟩ := ih (w.appendConnClose fd)
    rw [List.foldl_cons, hserver, hphase, hregs]
    simp [appendConnClose, appendSt]

/-- What deleting a connection does outside of the sockets. -/
theorem delConn_server (w : NetLoop) (fd : Int) (btimeOut : Bool) :
    (w.delConn fd btimeOut).server = { w.server with mgr := (w.server.mgr.delConn fd btimeOut).1 } ∧
      (w.delConn fd btimeOut).phase = w.phase ∧
      (w.delConn fd btimeOut).regs = w.regs ++ (w.server.mgr.delConn fd btimeOut).2 := by
  unfold delConn
  split
  · next hnone =>
    rw [ConnObjMgr.delConn_of_getConn_none hnone]
    exact ⟨rfl, rfl, (List.append_nil _).symm⟩
  · exact ⟨rfl, rfl, rfl⟩

/-- Emptying the queue is what `NetServer.drainQueue` does, with the sockets. -/
theorem drainLoop_eq (q : List NetOp) (w : NetLoop) (listNew : List (Int × PeerAddr)) :
    (drainLoop q w listNew).server = (NetServer.drainQueue q w.server listNew).1 ∧
      (drainLoop q w listNew).phase = .drained (NetServer.drainQueue q w.server listNew).2.1 ∧
      (drainLoop q w listNew).regs = w.regs ++ (NetServer.drainQueue q w.server listNew).2.2 := by
  induction q generalizing w listNew with
  | nil => exact ⟨rfl, rfl, (List.append_nil _).symm⟩
  | cons o q ih =>
    cases o with
    | newConn fd paddr => exact ih w _
    | dataIn fd => exact ih { w with server := { w.server with readFdMap := w.server.readFdMap.insert fd true } } _
    | quitConn fd =>
      obtain ⟨hserver, -, hregs⟩ := w.delConn_server fd false
      have h := ih (w.delConn fd false) listNew
      rw [hserver, hregs, List.append_assoc] at h
      exact h

/-- What one action does. A call that sends is one case, whichever it is. -/
inductive Stepped (w : NetLoop) : LoopOp → NetLoop → Prop
  | accept (fd : Int) (paddr : PeerAddr) :
    Stepped w (.accept fd paddr) ({ w with socks := w.socks.insert fd ⟨[], 0, false, false⟩ }.appendSt (.newConn fd paddr))
  | arrive (fd : Int) (bs : Bytes) : Stepped w (.arrive fd bs) (w.onSock fd fun s => { s with unread := s.unread ++ bs })
  | shutdown (fd : Int) : Stepped w (.shutdown fd) (w.onSock fd fun s => { s with eof := true })
  | dataIn (fd : Int) : Stepped w (.dataIn fd) (w.appendDataIn fd)
  | hangUp (fd : Int) : Stepped w (.hangUp fd) (w.appendConnClose fd)
  | drain (hphase : w.phase = .idle) : Stepped w .drain (drainLoop w.server.netQueue w [])
  | create {listNew : List (Int × PeerAddr)} {mgr : ConnObjMgr} {regs : List RegConn}
    (hphase : w.phase = .drained listNew) (h : w.server.mgr.createConnBatch w.server.bNet listNew = .ok (mgr, regs)) :
    Stepped w .create { w.setMgr mgr with phase := .reading w.server.readFdMap.keys [], regs := w.regs ++ regs }
  | read {fd : Int} {fds delLst : List Int} {addr : Nat} {sec : Int} {r : ReadRes} {w' : NetLoop}
    (hphase : w.phase = .reading (fd :: fds) delLst) (h : w.readConn fd fds delLst addr sec r = .ok w') :
    Stepped w (.read addr sec r) w'
  | erase {delLst : List Int} (hphase : w.phase = .reading [] delLst) :
    Stepped w .erase { w with
      server := { w.server with readFdMap := delLst.foldl (fun m fd => m.erase fd) w.server.readFdMap }
      phase := .serving }
  | sent {o : LoopOp} {r : ConnObjMgr × List Int} (hphase : w.phase = .serving) (h : w.server.mgr.Sent r.1) :
    Stepped w o (w.sent r)
  | closeCliConn (fd : Int) (hphase : w.phase = .serving) : Stepped w (.closeCliConn fd) (w.delConn fd false)
  | chkConnTimeout (nowsec : Int) (hphase : w.phase = .serving) :
    Stepped w (.chkConnTimeout nowsec)
      { (w.server.mgr.timeouts nowsec).foldl (fun w p => w.delConn p.fd true) w with phase := .idle }
  | stay (o : LoopOp) : Stepped w o w

theorem stepped (hw : w.server.mgr.Coherent) {o : LoopOp} (h : w.step o = .ok w') : w.Stepped o w' := by
  have hsent : ∀ x : Except Fault (ConnObjMgr × List Int), (∀ r, x = .ok r → w.server.mgr.Sent r.1) →
      w.phase = .serving → w.sent <$> x = .ok w' → w.Stepped o w' := by
    intro x hx hphase heq
    cases x with
    | error e => cases heq
    | ok r => cases heq; exact .sent hphase (hx r rfl)
  unfold step at h
  split at h
  · cases h; exact .accept _ _
  · cases h; exact .arrive _ _
  · cases h; exact .shutdown _
  · cases h; exact .dataIn _
  · cases h; exact .hangUp _
  · next hphase => cases h; exact .drain hphase
  · next hphase =>
    obtain ⟨⟨mgr, regs⟩, hcreate, h⟩ := bind_eq_ok.mp h
    cases h
    exact .create hphase hcreate
  · next hphase => exact .read hphase h
  · next hphase => cases h; exact .erase hphase
  · next hphase => exact hsent _ (fun r hr => ConnObjMgr.sent_processAllWriteLoop hr) hphase h
  · next hphase => exact hsent _ (fun r hr => ConnObjMgr.sent_sendMsg hr) hphase h
  · next hphase => exact hsent _ (fun r hr => ConnObjMgr.sent_sendMsgAll hw hr) hphase h
  · next hphase => cases h; exact .closeCliConn _ hphase
  · next hphase => cases h; exact .chkConnTimeout _ hphase
  · cases h; exact .stay _

theorem readConn_kept (hw : w.server.mgr.Coherent) {fds delLst : List Int} {addr : Nat} {sec : Int} {r : ReadRes}
    (h : w.readConn fd fds delLst addr sec r = .ok w') :
    w.server.mgr.Kept ConnObj.SameIds w'.server.mgr ∧ w'.regs = w.regs ∧ w'.server.bNet = w.server.bNet := by
  unfold readConn at h
  split at h
  · cases h
    exact ⟨⟨fun hc => ⟨_, hc, .refl _⟩, id, .rfl, rfl⟩, rfl, rfl⟩
  · next c hc =>
    obtain ⟨pid, hpid, hmap⟩ := Option.bind_eq_some_iff.mp hc
    obtain ⟨d, hd, -, hdpid⟩ := hw.conn_of_fd hpid
    cases hd.symm.trans hmap
    obtain ⟨out, hout, h⟩ := bind_eq_ok.mp h
    cases h
    obtain ⟨hserver, -, hregs⟩ := foldl_appendConnClose ((w.setMgr { w.server.mgr with
      connMap := w.server.mgr.connMap.insert c.pid out.conn }).onSock c.fd fun s =>
        { s with unread := s.unread.drop (if c.bclose then 0 else r.bytes.length),
                 reported := s.reported - (if c.bclose then 0 else r.bytes.length) }) out.quits
    dsimp only
    rw [hserver, hregs]
    simp only [onSock_server, onSock_regs]
    refine ⟨?_, rfl, rfl⟩
    rw [hdpid]
    exact ConnObjMgr.kept_replace ConnObj.SameIds.refl hd (ConnObj.onRead_sameIds hout)

end NetLoop

end KcpServer
