import KcpServer.NetLoop
import KcpServer.ReadProgress

/-!
# No lost edge

The kernel reports arriving bytes once, so a descriptor must stay in `m_readFdMap` until `read` has found its socket
empty. `no_lost_edge` : whatever the epoll thread does in a pass, the socket of a registered connection that holds
reported bytes is in `m_readFdMap`, or its `DATA_IN` is queued.

* `onRead_ret_zero` : when `OnRead` gives up a descriptor;
* `Edges` : the invariant, in every phase of a pass.
-/

namespace KcpServer
open Lib

/-- What `read` for at most `n` bytes may return: bytes from the front of the unread ones, nothing where nothing is asked
for or the peer has shut down, `EAGAIN` where nothing is unread, or an error. -/
def Socket.Answers (s : Socket) (n : Nat) : ReadRes → Prop
  | .data bs => bs.length ≤ n ∧ bs <+: s.unread ∧ (bs = [] → n = 0 ∨ s.unread = [] ∧ s.eof = true)
  | .again => 0 < n ∧ s.unread = []
  | .error => True

/-! ## One `OnRead` -/

namespace ConnObj

/-- A connection whose buffer is full has just read. -/
structure Filled (c : ConnObj) : Prop where
  bclose : c.bclose = false
  netOffset_le : c.netOffset ≤ RECV_BUFFER_SIZE
  full : c.netOffset = RECV_BUFFER_SIZE → c.chkReadZero = false

theorem Filled.sameRead {c c' : ConnObj} (hc : c.Filled) (h : c.SameRead c') : c'.Filled :=
  ⟨h.bclose.trans hc.bclose, h.netOffset.symm ▸ hc.netOffset_le, fun hfull =>
    h.chkReadZero.trans (hc.full (h.netOffset.symm.trans hfull))⟩

/-- How `_OnRead` returns 0 or 1, and what it leaves otherwise. -/
theorem _onRead_filled {c c' : ConnObj} (hc : c.Filled) {s : Socket} {r : ReadRes}
    (hr : s.Answers (RECV_BUFFER_SIZE - c.netOffset) r) {ret : Int} {quits : List Int}
    (h : c._onRead r = .ok (c', ret, quits)) : c'.Filled ∧
      (r = .again ∨ (c.fd ∈ quits ∧ (r = .error ∨ r = .data [] ∧ c.netOffset < RECV_BUFFER_SIZE)) ∨
        ret = 3 ∧ ∃ bs, r = .data bs ∧ c'.netOffset = c.netOffset + bs.length) := by
  have hR : RECV_BUFFER_SIZE = 4096 := rfl
  have hB : BUFFER_SIZE = 32768 := rfl
  have hsame := _onRead_sameIds h
  have hle := hc.netOffset_le
  unfold _onRead at h
  rw [if_neg (by rw [hc.bclose]; decide)] at h
  cases r with
  | error =>
    cases h
    exact ⟨hc, .inr (.inl ⟨List.mem_singleton_self _, .inl rfl⟩)⟩
  | again =>
    cases h
    have hpos := hr.1
    exact ⟨⟨hc.bclose, hle, fun hfull => by dsimp only at hfull; omega⟩, .inl rfl⟩
  | data bs =>
    obtain ⟨hlen, -, -⟩ := hr
    obtain ⟨m, -, h⟩ := bind_eq_ok.mp h
    dsimp only at h
    split at h
    · next hzero =>
      cases h
      have hlt : c.netOffset < RECV_BUFFER_SIZE := by
        refine lt_of_le_of_ne hle fun hfull => ?_
        rw [hc.full hfull] at hzero
        cases hzero.2
      refine ⟨⟨hc.bclose, hle, hc.full⟩, .inr (.inl ⟨List.mem_singleton_self _, .inr ⟨?_, hlt⟩⟩)⟩
      rw [List.length_eq_zero_iff.mp hzero.1]
    · rw [if_pos (by omega)] at h
      cases h
      refine ⟨⟨hc.bclose, ?_, fun _ => rfl⟩, .inr (.inr ⟨rfl, bs, rfl, rfl⟩)⟩
      dsimp only
      omega

theorem parseBuff_filled {c c' : ConnObj} (hc : c.Filled) {addr : Nat} {sec : Int} {parsed : Bool} {msgs : List Msg}
    {quits : List Int} (h : c.parseBuff addr sec = .ok (parsed, c', msgs, quits)) :
    c'.Filled ∧ (parsed = false ↔ c.netOffset = 0) := by
  unfold parseBuff at h
  split at h
  · next h0 =>
    cases h
    exact ⟨hc, iff_of_true rfl h0⟩
  · next h0 =>
    obtain ⟨out, hout, h⟩ := bind_eq_ok.mp h
    cases h
    obtain ⟨-, -, hoff⟩ := parseLoop_left hc.netOffset_le hout
    have hle := hc.netOffset_le
    refine ⟨⟨hc.bclose, le_trans hoff hle, fun hfull => hc.full ?_⟩, iff_of_false (by decide) h0⟩
    dsimp only at hfull
    omega

theorem resetBuffer_filled {c c' : ConnObj} (hc : c.Filled) (h : c.resetBuffer = .ok c') : c'.Filled := by
  have hle := hc.netOffset_le
  have hR : RECV_BUFFER_SIZE = 4096 := rfl
  unfold resetBuffer at h
  split at h
  · cases h
    exact ⟨hc.bclose, Nat.zero_le _, fun hfull => by dsimp only at hfull; omega⟩
  · obtain ⟨m, -, h⟩ := bind_eq_ok.mp h
    cases h
    refine ⟨hc.bclose, ?_, fun hfull => hc.full ?_⟩
    · dsimp only
      omega
    · dsimp only at hfull
      omega

/-- An `OnRead` that returns 0 has seen the socket empty, the end of the stream or an error; at an error it has queued a
`QUIT_CONN`. -/
theorem onRead_ret_zero {c : ConnObj} (hc : c.Filled) {s : Socket} {r : ReadRes}
    (hr : s.Answers (RECV_BUFFER_SIZE - c.netOffset) r) {addr : Nat} {sec : Int} {out : ReadOut}
    (h : c.onRead addr sec r = .ok out) : out.conn.Filled ∧
      (out.ret = 0 → r = .again ∨ (r = .error ∧ c.fd ∈ out.quits) ∨ r = .data [] ∧ c.netOffset < RECV_BUFFER_SIZE) := by
  have hR : RECV_BUFFER_SIZE = 4096 := rfl
  unfold onRead at h
  rw [if_neg (by rw [hc.bclose]; decide)] at h
  obtain ⟨⟨c₁, ret, quits⟩, hread, h⟩ := bind_eq_ok.mp h
  obtain ⟨⟨parsed, c₂, msgs, quits'⟩, hparse, h⟩ := bind_eq_ok.mp h
  obtain ⟨c₃, hreset, h⟩ := bind_eq_ok.mp h
  cases h
  obtain ⟨hfilled₁, hcases⟩ := _onRead_filled hc hr hread
  obtain ⟨hfilled₂, hparsed⟩ := parseBuff_filled hfilled₁ hparse
  refine ⟨resetBuffer_filled hfilled₂ hreset, fun hzero => ?_⟩
  rcases hcases with hagain | ⟨hquit, herr | hend⟩ | ⟨rfl, bs, rfl, hoff⟩
  · exact .inl hagain
  · exact .inr (.inl ⟨herr, List.mem_append_left _ hquit⟩)
  · exact .inr (.inr hend)
  · -- the parser gives up only an empty buffer
    have hnot : parsed = false := by
      by_contra hne
      rw [Bool.not_eq_false] at hne
      subst hne
      cases hzero
    rw [hparsed] at hnot
    have hbs : bs = [] := List.length_eq_zero_iff.mp (by omega)
    exact .inr (.inr ⟨by rw [hbs], by omega⟩)

/-- A descriptor that is given up has nothing left to read, or is about to be closed. -/
theorem onRead_given_up {c : ConnObj} (hc : c.Filled) {s : Socket} {r : ReadRes}
    (hr : s.Answers (RECV_BUFFER_SIZE - c.netOffset) r) {addr : Nat} {sec : Int} {out : ReadOut}
    (h : c.onRead addr sec r = .ok out) (hzero : out.ret = 0) : s.unread = [] ∨ c.fd ∈ out.quits := by
  rcases (onRead_ret_zero hc hr h).2 hzero with rfl | ⟨-, hquit⟩ | ⟨rfl, hlt⟩
  · exact .inl hr.2
  · exact .inr hquit
  · obtain ⟨-, -, hend⟩ := hr
    rcases hend rfl with hfull | ⟨hempty, -⟩
    · omega
    · exact .inl hempty

end ConnObj

/-! ## The queue -/

namespace NetOp

/-- A `DATA_IN` for the descriptor is queued, with no `NEW_CONN` for it behind. -/
def Reports (fd : Int) (q : List NetOp) : Prop := ∃ q₁ q₂, q = q₁ ++ .dataIn fd :: q₂ ∧ fd ∉ news q₂

variable {fd : Int} {q : List NetOp} {o : NetOp}

theorem news_append (q q' : List NetOp) : news (q ++ q') = news q ++ news q' := List.filterMap_append

theorem Reports.append (h : Reports fd q) (ho : fd ∉ news [o]) : Reports fd (q ++ [o]) := by
  obtain ⟨q₁, q₂, rfl, hq₂⟩ := h
  refine ⟨q₁, q₂ ++ [o], by simp, ?_⟩
  rw [news_append, List.mem_append, not_or]
  exact ⟨hq₂, ho⟩

theorem reports_dataIn (fd : Int) (q : List NetOp) : Reports fd (q ++ [.dataIn fd]) := ⟨q, [], rfl, by simp [news]⟩

/-- The report is the operation taken from the queue, or it is still queued. -/
theorem reports_cons (h : Reports fd (o :: q)) : (o = .dataIn fd ∧ fd ∉ news q) ∨ Reports fd q := by
  obtain ⟨q₁, q₂, heq, hq₂⟩ := h
  cases q₁ with
  | nil =>
    cases heq
    exact .inl ⟨rfl, hq₂⟩
  | cons o' q₁ =>
    cases heq
    exact .inr ⟨q₁, q₂, rfl, hq₂⟩

theorem Reports.mem (h : Reports fd q) : .dataIn fd ∈ q := by
  obtain ⟨q₁, q₂, rfl, -⟩ := h
  simp

end NetOp

/-! ## The invariant -/

/-- The descriptors that a pass is about to register. -/
def Phase.listNew : Phase → List Int
  | .drained listNew => listNew.map Prod.fst
  | _ => []

/-- The descriptors that a pass is about to take out of `m_readFdMap`. -/
def Phase.delLst : Phase → List Int
  | .reading _ delLst => delLst
  | _ => []

namespace NetLoop
open NetOp

/-- The kernel's part: `read` returns what the socket holds, and `EBADF` where the descriptor is not open. -/
def Allowed (w : NetLoop) : LoopOp → Prop
  | .read _ _ r => ∀ fd fds delLst c, w.phase = .reading (fd :: fds) delLst → w.server.mgr.getConn fd = some c →
      match w.socks[fd]? with
      | some s => s.Answers (RECV_BUFFER_SIZE - c.netOffset) r
      | none => r = .error
  | _ => True

/-- Where a registered connection without a `QUIT_CONN` has reported bytes to read, a pass will read them. -/
def NoLostEdge (w : NetLoop) : Prop :=
  ∀ fd pid s, w.server.mgr.connFdMap[fd]? = some pid → w.socks[fd]? = some s → s.quit = false → 0 < s.reported →
    fd ∈ w.server.readFdMap ∨ .dataIn fd ∈ w.server.netQueue

structure Edges (w : NetLoop) : Prop where
  coherent : w.server.mgr.Coherent
  filled : ∀ {pid : Int} {c : ConnObj}, w.server.mgr.connMap[pid]? = some c → c.Filled
  reported_le : ∀ {fd : Int} {s : Socket}, w.socks[fd]? = some s → s.reported ≤ s.unread.length
  /-- an open socket is registered, or will be -/
  known : ∀ {fd : Int}, fd ∈ w.socks → fd ∈ news w.server.netQueue ∨ fd ∈ w.phase.listNew ∨ w.server.mgr.Live fd
  edge : ∀ {fd : Int} {s : Socket}, w.socks[fd]? = some s → s.quit = false → 0 < s.reported →
    Reports fd w.server.netQueue ∨
      (fd ∈ w.server.readFdMap ∧ fd ∉ w.phase.delLst ∧ fd ∉ news w.server.netQueue)

theorem edges_start (bNet : Bool) : (start bNet).Edges where
  coherent := ConnObjMgr.coherent_new
  filled h := by simp [start, ConnObjMgr.new] at h
  reported_le h := by simp [start] at h
  known h := by simp [start] at h
  edge h := by simp [start] at h

variable {w w' : NetLoop}

theorem Edges.noLostEdge (hw : w.Edges) : w.NoLostEdge := by
  intro fd pid s _ hs hquit hpos
  rcases hw.edge hs hquit hpos with h | ⟨hread, -⟩
  · exact .inr h.mem
  · exact .inl hread

/-- The main loop may move on as long as it forgets no new connection, and gives up no descriptor whose socket it owes a
read. -/
theorem Edges.setPhase (hw : w.Edges) {p : Phase} (hnew : ∀ fd ∈ w.phase.listNew, fd ∈ p.listNew)
    (hdel : ∀ fd s, w.socks[fd]? = some s → s.quit = false → 0 < s.reported → fd ∉ w.phase.delLst →
      fd ∉ news w.server.netQueue → fd ∉ p.delLst) : Edges { w with phase := p } := by
  refine ⟨hw.coherent, hw.filled, hw.reported_le, fun {fd} hmem => ?_, fun {fd s} hs hq hp => ?_⟩
  · exact (hw.known hmem).imp_right fun h => h.imp_left (hnew fd)
  · rcases hw.edge hs hq hp with hrep | ⟨hread, hnot, hfresh⟩
    · exact .inl hrep
    · exact .inr ⟨hread, hdel fd s hs hq hp hnot hfresh, hfresh⟩

/-- A socket may change in what it holds, as long as it has no more reported bytes than before. -/
theorem edges_onSock (hw : w.Edges) (fd : Int) {f : Socket → Socket} (hquit : ∀ s, (f s).quit = false → s.quit = false)
    (hle : ∀ s, s.reported ≤ s.unread.length → (f s).reported ≤ (f s).unread.length)
    (hpos : ∀ s, 0 < (f s).reported → 0 < s.reported) : (w.onSock fd f).Edges := by
  refine ⟨by simpa using hw.coherent, fun {pid c} hc => ?_, fun {fd' s} hs => ?_, fun {fd'} hmem => ?_,
    fun {fd' s} hs hq hp => ?_⟩
  · rw [onSock_server] at hc
    exact hw.filled hc
  · rcases onSock_eq_some.mp hs with ⟨rfl, s₀, hs₀, rfl⟩ | ⟨-, hs⟩
    · exact hle s₀ (hw.reported_le hs₀)
    · exact hw.reported_le hs
  · simp only [onSock_server, onSock_phase]
    apply hw.known
    obtain ⟨s, hs⟩ := mem_iff_exists.mp hmem
    rcases onSock_eq_some.mp hs with ⟨rfl, s₀, hs₀, -⟩ | ⟨-, hs⟩
    · exact mem_iff_exists.mpr ⟨s₀, hs₀⟩
    · exact mem_iff_exists.mpr ⟨s, hs⟩
  · simp only [onSock_server, onSock_phase]
    rcases onSock_eq_some.mp hs with ⟨rfl, s₀, hs₀, rfl⟩ | ⟨-, hs⟩
    · exact hw.edge hs₀ (hquit s₀ hq) (hpos s₀ hp)
    · exact hw.edge hs hq hp

theorem edges_appendConnClose (hw : w.Edges) (fd : Int) : (w.appendConnClose fd).Edges := by
  have h := edges_onSock hw fd (f := fun s => { s with quit := true }) (by simp) (fun s h => h) (fun s h => h)
  have hnews : news ((w.onSock fd fun s => { s with quit := true }).server.netQueue ++ [.quitConn fd]) =
      news (w.onSock fd fun s => { s with quit := true }).server.netQueue := by
    rw [news_append]
    exact List.append_nil _
  refine ⟨h.coherent, h.filled, h.reported_le, fun hmem => ?_, fun hs hquit hpos => ?_⟩
  · rcases h.known hmem with hnew | hrest
    · exact .inl (hnews ▸ hnew)
    · exact .inr hrest
  · rcases h.edge hs hquit hpos with hrep | ⟨hread, hdel, hnew⟩
    · exact .inl (hrep.append (by simp [news]))
    · exact .inr ⟨hread, hdel, fun hmem => hnew (hnews ▸ hmem)⟩

theorem edges_quits (hw : w.Edges) (quits : List Int) : (quits.foldl appendConnClose w).Edges := by
  induction quits generalizing w with
  | nil => exact hw
  | cons fd quits ih => exact ih (edges_appendConnClose hw fd)

theorem edges_appendDataIn (hw : w.Edges) (fd : Int) : (w.appendDataIn fd).Edges := by
  have hnews : news (w.server.netQueue ++ [.dataIn fd]) = news w.server.netQueue := by
    rw [news_append]
    exact List.append_nil _
  unfold appendDataIn appendSt
  refine ⟨by simpa using hw.coherent, fun {pid c} hc => ?_, fun {fd' s} hs => ?_, fun {fd'} hmem => ?_,
    fun {fd' s} hs hq hp => ?_⟩
  · simp only [onSock_server] at hc
    exact hw.filled hc
  · rcases onSock_eq_some.mp hs with ⟨rfl, s₀, hs₀, rfl⟩ | ⟨-, hs⟩
    · exact le_rfl
    · exact hw.reported_le hs
  · simp only [onSock_server, onSock_phase, hnews]
    apply hw.known
    obtain ⟨s, hs⟩ := mem_iff_exists.mp hmem
    rcases onSock_eq_some.mp hs with ⟨rfl, s₀, hs₀, -⟩ | ⟨-, hs⟩
    · exact mem_iff_exists.mpr ⟨s₀, hs₀⟩
    · exact mem_iff_exists.mpr ⟨s, hs⟩
  · simp only [onSock_server, onSock_phase, hnews]
    rcases onSock_eq_some.mp hs with ⟨rfl, -⟩ | ⟨-, hs⟩
    · exact .inl (reports_dataIn fd' _)
    · exact (hw.edge hs hq hp).imp_left fun hrep => hrep.append (by simp [news])

/-- A connection is accepted: its socket has nothing to read yet. -/
theorem edges_accept (hw : w.Edges) {fd : Int} (paddr : PeerAddr) :
    Edges ({ w with socks := w.socks.insert fd ⟨[], 0, false, false⟩ }.appendSt (.newConn fd paddr)) := by
  refine ⟨hw.coherent, hw.filled, fun {fd' s} hs => ?_, fun {fd'} hmem => ?_, fun {fd' s} hs hq hp => ?_⟩
  · rcases insert_eq_some.mp hs with ⟨-, rfl⟩ | ⟨-, hs⟩
    · exact le_rfl
    · exact hw.reported_le hs
  · obtain ⟨s, hs⟩ := mem_iff_exists.mp hmem
    simp only [appendSt, news_append, List.mem_append]
    rcases insert_eq_some.mp hs with ⟨rfl, -⟩ | ⟨-, hs⟩
    · exact .inl (.inr (by simp [news]))
    · exact (hw.known (mem_iff_exists.mpr ⟨s, hs⟩)).imp_left .inl
  · rcases insert_eq_some.mp hs with ⟨-, rfl⟩ | ⟨hne, hs⟩
    · cases hp
    · have hnot : fd' ∉ news [.newConn fd paddr] := by simpa [news] using hne
      simp only [appendSt, news_append, List.mem_append, not_or]
      rcases hw.edge hs hq hp with hrep | ⟨hread, hdel, hnew⟩
      · exact .inl (hrep.append hnot)
      · exact .inr ⟨hread, hdel, hnew, hnot⟩

/-- A connection that is deleted takes its socket with it. -/
theorem edges_delConn (hw : w.Edges) (fd : Int) (btimeOut : Bool) : (w.delConn fd btimeOut).Edges := by
  unfold delConn
  split
  · exact hw
  · next c hc =>
    obtain ⟨hcoh, -, hlive⟩ := ConnObjMgr.coherent_delConn hw.coherent fd btimeOut
    obtain ⟨pid, hpid, hmap⟩ := Option.bind_eq_some_iff.mp hc
    obtain ⟨d, hd, hdfd, -⟩ := hw.coherent.conn_of_fd hpid
    cases hd.symm.trans hmap
    subst hdfd
    have hsub : ∀ {pid : Int} {c' : ConnObj}, (w.server.mgr.delConn c.fd btimeOut).1.connMap[pid]? = some c' →
        w.server.mgr.connMap[pid]? = some c' := by
      intro pid c' hc'
      rw [ConnObjMgr.delConn_of_getConn hc] at hc'
      exact (erase_eq_some.mp hc').2
    refine ⟨hcoh, fun hc' => hw.filled (hsub hc'), fun hs => hw.reported_le (erase_eq_some.mp hs).2,
      fun {fd'} hmem => ?_, fun hs hq hp => hw.edge (erase_eq_some.mp hs).2 hq hp⟩
    obtain ⟨s, hs⟩ := mem_iff_exists.mp hmem
    obtain ⟨hne, hs⟩ := erase_eq_some.mp hs
    exact (hw.known (mem_iff_exists.mpr ⟨s, hs⟩)).imp_right fun h => h.imp_right fun h => (hlive fd').mpr ⟨hne, h⟩

theorem edges_setMgr (hw : w.Edges) {g : ConnObjMgr} (hk : w.server.mgr.Kept ConnObj.SameIds g)
    (hfilled : ∀ {pid : Int} {c : ConnObj}, g.connMap[pid]? = some c → c.Filled) : (w.setMgr g).Edges where
  coherent := hk.coherent hw.coherent
  filled := hfilled
  reported_le := hw.reported_le
  known hmem := by
    refine (hw.known hmem).imp_right fun h => h.imp_right fun h => ?_
    obtain ⟨pid, hpid⟩ := (ConnObjMgr.live_iff hw.coherent).mp h
    exact (ConnObjMgr.live_iff (hk.coherent hw.coherent)).mpr ⟨pid, hk.fd.mpr hpid⟩
  edge := hw.edge

theorem edges_sent (hw : w.Edges) {r : ConnObjMgr × List Int} (h : w.server.mgr.Sent r.1) : (w.sent r).Edges := by
  refine edges_quits (edges_setMgr hw h.sameIds fun hc' => ?_) r.2
  obtain ⟨c, hc, hsame⟩ := h.conn hc'
  exact (hw.filled hc).sameRead hsame

theorem delConn_frame (w : NetLoop) (q : List NetOp) (p : Phase) (fd : Int) (btimeOut : Bool) :
    delConn { w with server := { w.server with netQueue := q }, phase := p } fd btimeOut =
      { w.delConn fd btimeOut with
        server := { (w.delConn fd btimeOut).server with netQueue := q }
        phase := p } := by
  unfold delConn
  dsimp only
  split <;> rfl

/-- Emptying the queue; in front of the loop the queue stands for what it still has to take. -/
theorem edges_drainLoop {q : List NetOp} {listNew : List (Int × PeerAddr)}
    (hw : Edges { w with server := { w.server with netQueue := q }, phase := .drained listNew }) :
    (drainLoop q w listNew).Edges := by
  induction q generalizing w listNew with
  | nil => exact hw
  | cons o q ih =>
    cases o with
    | newConn fd paddr =>
      refine ih ⟨hw.coherent, hw.filled, hw.reported_le, fun hmem => ?_, fun hs hq hp => ?_⟩
      · simp only [Phase.listNew, List.map_append, List.mem_append]
        rcases hw.known hmem with hnew | hlist | hlive
        · rcases List.mem_cons.mp hnew with rfl | hnew
          · exact .inr (.inl (.inr (List.mem_singleton_self _)))
          · exact .inl hnew
        · exact .inr (.inl (.inl hlist))
        · exact .inr (.inr hlive)
      · rcases hw.edge hs hq hp with hrep | ⟨hread, -, hnew⟩
        · rcases reports_cons hrep with ⟨heq, -⟩ | hrep
          · cases heq
          · exact .inl hrep
        · exact .inr ⟨hread, List.not_mem_nil, fun hmem => hnew (List.mem_cons_of_mem _ hmem)⟩
    | dataIn fd =>
      refine ih (w := { w with server := { w.server with readFdMap := w.server.readFdMap.insert fd true } })
        ⟨hw.coherent, hw.filled, hw.reported_le, hw.known, fun hs hq hp => ?_⟩
      rcases hw.edge hs hq hp with hrep | ⟨hread, hdel, hnew⟩
      · rcases reports_cons hrep with ⟨heq, hnew⟩ | hrep
        · cases heq
          exact .inr ⟨by simp, List.not_mem_nil, hnew⟩
        · exact .inl hrep
      · exact .inr ⟨Std.TreeMap.mem_insert.mpr (.inr hread), hdel, hnew⟩
    | quitConn fd =>
      have h := edges_delConn hw fd false
      rw [delConn_frame] at h
      refine ih ⟨h.coherent, h.filled, h.reported_le, h.known, fun hs hq hp => ?_⟩
      rcases h.edge hs hq hp with hrep | hread
      · rcases reports_cons hrep with ⟨heq, -⟩ | hrep
        · cases heq
        · exact .inl hrep
      · exact .inr hread

theorem filled_createConnBatch {g g' : ConnObjMgr} {bNet : Bool} {plist : List (Int × PeerAddr)} {regs : List RegConn}
    (hg : ∀ {pid : Int} {c : ConnObj}, g.connMap[pid]? = some c → c.Filled)
    (h : g.createConnBatch bNet plist = .ok (g', regs)) {pid : Int} {c : ConnObj} (hc : g'.connMap[pid]? = some c) :
    c.Filled := by
  induction plist generalizing g regs with
  | nil =>
    cases h
    exact hg hc
  | cons p plist ih =>
    obtain ⟨⟨g₁, regs₁⟩, h₁, h⟩ := bind_eq_ok.mp h
    obtain ⟨⟨g₂, regs₂⟩, h₂, h⟩ := bind_eq_ok.mp h
    cases h
    refine ih (fun {pid c} hc => ?_) h₂
    have hmax := ConnObjMgr.maxSessid_lt_of_createConn h₁
    rw [ConnObjMgr.createConn, if_neg (by omega)] at h₁
    cases h₁
    rcases insert_eq_some.mp hc with ⟨-, rfl⟩ | ⟨-, hc⟩
    · have hR : (0 : Nat) ≠ RECV_BUFFER_SIZE := by decide
      cases bNet <;> exact ⟨rfl, Nat.zero_le _, fun hfull => absurd hfull hR⟩
    · exact hg hc

/-- The new connections are registered before anything is read. -/
theorem edges_create (hw : w.Edges) {listNew : List (Int × PeerAddr)} (hphase : w.phase = .drained listNew)
    {g : ConnObjMgr} {regs : List RegConn} (h : w.server.mgr.createConnBatch w.server.bNet listNew = .ok (g, regs)) :
    Edges { w.setMgr g with phase := .reading w.server.readFdMap.keys [], regs := w.regs ++ regs } := by
  obtain ⟨hcoh, -, hlive⟩ := ConnObjMgr.coherent_createConnBatch hw.coherent h
  refine ⟨hcoh, filled_createConnBatch hw.filled h, hw.reported_le, fun {fd} hmem => ?_, fun hs hq hp => ?_⟩
  · rcases hw.known hmem with hnew | hlist | hl
    · exact .inl hnew
    · rw [hphase] at hlist
      exact .inr (.inr ((hlive fd).mpr (.inl hlist)))
    · exact .inr (.inr ((hlive fd).mpr (.inr hl)))
  · rcases hw.edge hs hq hp with hrep | ⟨hread, -, hnew⟩
    · exact .inl hrep
    · exact .inr ⟨hread, List.not_mem_nil, hnew⟩

theorem quit_of_mem {quits : List Int} {fd : Int} (hfd : fd ∈ quits) {s : Socket}
    (hs : (quits.foldl appendConnClose w).socks[fd]? = some s) : s.quit = true := by
  have hkeep : ∀ (quits : List Int) (w : NetLoop), (∀ s, w.socks[fd]? = some s → s.quit = true) →
      ∀ s, (quits.foldl appendConnClose w).socks[fd]? = some s → s.quit = true := by
    intro quits
    induction quits with
    | nil => exact fun w h => h
    | cons fd' quits ih =>
      refine fun w h => ih (w.appendConnClose fd') fun s hs => ?_
      rcases onSock_eq_some.mp hs with ⟨rfl, s₀, -, rfl⟩ | ⟨-, hs⟩
      · rfl
      · exact h s hs
  induction quits generalizing w with
  | nil => cases hfd
  | cons fd' quits ih =>
    rcases List.mem_cons.mp hfd with rfl | hfd
    · refine hkeep quits (w.appendConnClose fd) (fun s hs => ?_) s hs
      rcases onSock_eq_some.mp hs with ⟨-, s₀, -, rfl⟩ | ⟨hne, -⟩
      · rfl
      · exact absurd rfl hne
    · exact ih hfd hs

theorem sock_of_quits {quits : List Int} {fd : Int} {s : Socket}
    (hs : (quits.foldl appendConnClose w).socks[fd]? = some s) :
    ∃ s₀, w.socks[fd]? = some s₀ ∧ s.unread = s₀.unread ∧ s.reported = s₀.reported := by
  induction quits generalizing w with
  | nil => exact ⟨s, hs, rfl, rfl⟩
  | cons fd' quits ih =>
    obtain ⟨s₁, hs₁, hunread, hrep⟩ := ih hs
    rcases onSock_eq_some.mp hs₁ with ⟨rfl, s₀, hs₀, rfl⟩ | ⟨-, hs₁⟩
    · exact ⟨s₀, hs₀, hunread, hrep⟩
    · exact ⟨s₁, hs₁, hunread, hrep⟩

/-- A descriptor that no connection is registered for is given up: an open socket that is not announced is registered by
now. -/
theorem edges_unregistered (hw : w.Edges) {fd : Int} {fds delLst : List Int}
    (hphase : w.phase = .reading (fd :: fds) delLst) (hnone : w.server.mgr.getConn fd = none) :
    Edges { w with phase := .reading fds (delLst ++ [fd]) } := by
  apply hw.setPhase
  · rw [hphase]
    exact fun fd' h => h
  · intro fd' s hs _ _ hdel hnew
    rw [hphase] at hdel
    rw [Phase.delLst, List.mem_append, List.mem_singleton, not_or]
    refine ⟨hdel, ?_⟩
    rintro rfl
    rcases hw.known (mem_iff_exists.mpr ⟨s, hs⟩) with hmem | hmem | hlive
    · exact hnew hmem
    · rw [hphase] at hmem
      exact List.not_mem_nil hmem
    · rw [ConnObjMgr.Live, hnone] at hlive
      cases hlive

theorem edges_onRead (hw : w.Edges) {c c' : ConnObj} (hc : w.server.mgr.connMap[c.pid]? = some c) (hids : c.SameIds c')
    (hfilled : c'.Filled) (k : Nat) (quits : List Int) :
    Edges (quits.foldl appendConnClose
      ((w.setMgr { w.server.mgr with connMap := w.server.mgr.connMap.insert c.pid c' }).onSock c.fd
        fun s => { s with unread := s.unread.drop k, reported := s.reported - k })) := by
  have hkept := ConnObjMgr.kept_replace ConnObj.SameIds.refl hc hids
  have hmgr := edges_setMgr hw hkept fun {pid d} hd => by
    rcases insert_eq_some.mp hd with ⟨-, rfl⟩ | ⟨-, hd⟩
    · exact hfilled
    · exact hw.filled hd
  apply edges_quits
  apply edges_onSock hmgr c.fd
  · exact fun s h => h
  · intro s hle
    dsimp only
    rw [List.length_drop]
    omega
  · intro s hpos
    dsimp only at hpos
    omega

theorem edges_readConn (hw : w.Edges) {fd : Int} {fds delLst : List Int} (hphase : w.phase = .reading (fd :: fds) delLst)
    {addr : Nat} {sec : Int} {r : ReadRes} (hr : w.Allowed (.read addr sec r))
    (h : w.readConn fd fds delLst addr sec r = .ok w') : w'.Edges := by
  unfold readConn at h
  split at h
  · next hnone =>
    cases h
    exact edges_unregistered hw hphase hnone
  · next c hc =>
    obtain ⟨pid, hpid, hmap⟩ := Option.bind_eq_some_iff.mp hc
    obtain ⟨d, hd, hdfd, hdpid⟩ := hw.coherent.conn_of_fd hpid
    cases hd.symm.trans hmap
    subst hdfd hdpid
    have hans := hr c.fd fds delLst c hphase hc
    have hsome : ∃ s : Socket, s.Answers (RECV_BUFFER_SIZE - c.netOffset) r := by
      split at hans
      · next s _ => exact ⟨s, hans⟩
      · exact ⟨⟨[], 0, false, false⟩, hans ▸ trivial⟩
    obtain ⟨out, hout, h⟩ := bind_eq_ok.mp h
    cases h
    obtain ⟨s₁, hs₁⟩ := hsome
    obtain ⟨hfilled, -⟩ := ConnObj.onRead_ret_zero (hw.filled hd) hs₁ hout
    rw [(hw.filled hd).bclose, if_neg (by decide)]
    have hread := edges_onRead hw hd (ConnObj.onRead_sameIds hout) hfilled r.bytes.length out.quits
    apply hread.setPhase
    · rw [(foldl_appendConnClose _ _).2.1, onSock_phase, setMgr, hphase]
      exact fun fd' h => h
    · intro fd' s hs hq hp hdel _
      rw [(foldl_appendConnClose _ _).2.1, onSock_phase, setMgr, hphase] at hdel
      split
      · next hzero =>
        rw [Phase.delLst, List.mem_append, List.mem_singleton, not_or]
        refine ⟨hdel, ?_⟩
        rintro rfl
        obtain ⟨s₂, hs₂, -, hrep⟩ := sock_of_quits hs
        rcases onSock_eq_some.mp hs₂ with ⟨-, s₀, hs₀, rfl⟩ | ⟨hne, -⟩
        · change w.socks[c.fd]? = some s₀ at hs₀
          rw [hs₀] at hans
          rcases ConnObj.onRead_given_up (hw.filled hd) hans hout hzero with hempty | hquit
          · have hle := hw.reported_le hs₀
            rw [hempty, List.length_nil] at hle
            dsimp only at hrep
            omega
          · rw [quit_of_mem hquit hs] at hq
            cases hq
        · exact hne rfl
      · exact hdel

theorem edges_erase (hw : w.Edges) {delLst : List Int} (hphase : w.phase = .reading [] delLst) :
    Edges { w with
      server := { w.server with readFdMap := delLst.foldl (fun m fd => m.erase fd) w.server.readFdMap }
      phase := .serving } := by
  have herase : ∀ (l : List Int) (m : Std.TreeMap Int Bool) (fd : Int), fd ∈ m → fd ∉ l →
      fd ∈ l.foldl (fun m fd => m.erase fd) m := by
    intro l
    induction l with
    | nil => exact fun m fd hm _ => hm
    | cons fd' l ih =>
      intro m fd hm hl
      rw [List.mem_cons, not_or] at hl
      refine ih _ fd (Std.TreeMap.mem_erase.mpr ⟨?_, hm⟩) hl.2
      rw [Ne, compare_eq_iff_eq]
      exact fun heq => hl.1 heq.symm
  refine ⟨hw.coherent, hw.filled, hw.reported_le, fun {fd} hmem => ?_, fun hs hq hp => ?_⟩
  · have := hw.known hmem
    rwa [hphase] at this
  · rcases hw.edge hs hq hp with hrep | ⟨hread, hdel, hnew⟩
    · exact .inl hrep
    · rw [hphase] at hdel
      exact .inr ⟨herase _ _ _ hread hdel, List.not_mem_nil, hnew⟩

theorem edges_timeouts (hw : w.Edges) (ps : List ConnObj) :
    (ps.foldl (fun w p => w.delConn p.fd true) w).Edges ∧
      (ps.foldl (fun w p => w.delConn p.fd true) w).phase = w.phase := by
  induction ps generalizing w with
  | nil => exact ⟨hw, rfl⟩
  | cons p ps ih =>
    obtain ⟨hedges, hphase⟩ := ih (edges_delConn hw p.fd true)
    exact ⟨hedges, hphase.trans (w.delConn_server p.fd true).2.1⟩

theorem edges_stepped (hw : w.Edges) {o : LoopOp} (ho : w.Allowed o) (h : w.Stepped o w') : w'.Edges := by
  cases h with
  | accept fd paddr => exact edges_accept hw paddr
  | arrive fd bs =>
    refine edges_onSock hw fd (fun s h => h) (fun s hle => ?_) (fun s h => h)
    rw [List.length_append]
    exact le_trans hle (Nat.le_add_right _ _)
  | shutdown fd => exact edges_onSock hw fd (fun s h => h) (fun s h => h) (fun s h => h)
  | dataIn fd => exact edges_appendDataIn hw fd
  | hangUp fd => exact edges_appendConnClose hw fd
  | drain hphase =>
    apply edges_drainLoop
    apply hw.setPhase
    · rw [hphase]
      exact fun fd h => h
    · exact fun fd s _ _ _ _ _ => List.not_mem_nil
  | create hphase hcreate => exact edges_create hw hphase hcreate
  | read hphase hread => exact edges_readConn hw hphase ho hread
  | erase hphase => exact edges_erase hw hphase
  | sent _ hsent => exact edges_sent hw hsent
  | closeCliConn fd => exact edges_delConn hw fd false
  | chkConnTimeout nowsec hphase =>
    obtain ⟨h, hsame⟩ := edges_timeouts hw (w.server.mgr.timeouts nowsec)
    rw [hphase] at hsame
    apply h.setPhase
    · rw [hsame]
      exact fun fd h => h
    · exact fun fd s _ _ _ _ _ => List.not_mem_nil
  | stay => exact hw

/-- **No lost edge.** Whatever the network and the epoll thread do beside the passes of the main loop: in every state
the socket of a registered connection without a `QUIT_CONN` that holds reported bytes is in `m_readFdMap` or has a
`DATA_IN` queued, and an `OnRead` in a pass returns 0 only where `read` has reported `EAGAIN`, an error, or the end of the
stream. -/
theorem no_lost_edge {bNet : Bool} (h : Reach step Allowed (start bNet) w) : w.NoLostEdge ∧
    ∀ fd c s addr sec r out, w.server.mgr.getConn fd = some c → w.socks[fd]? = some s →
      s.Answers (RECV_BUFFER_SIZE - c.netOffset) r → c.onRead addr sec r = .ok out → out.ret = 0 →
      r = .again ∨ r = .error ∨ (r = .data [] ∧ s.unread = [] ∧ s.eof = true) := by
  have hw : w.Edges := by
    apply h.invariant (edges_start bNet)
    intro w o w' hw ho hs
    exact edges_stepped hw ho (stepped hw.coherent hs)
  refine ⟨hw.noLostEdge, fun fd c s addr sec r out hc _ hr hout hzero => ?_⟩
  obtain ⟨pid, -, hmap⟩ := Option.bind_eq_some_iff.mp hc
  rcases (ConnObj.onRead_ret_zero (hw.filled hmap) hr hout).2 hzero with hagain | ⟨herr, -⟩ | ⟨rfl, hlt⟩
  · exact .inl hagain
  · exact .inr (.inl herr)
  · refine .inr (.inr ⟨rfl, ?_⟩)
    obtain ⟨-, -, hend⟩ := hr
    exact (hend rfl).resolve_left (by omega)

/-- A client connects and sends two bytes; the next pass is about to read them. -/
theorem no_lost_edge_two : ∃ w s, Reach step Allowed (start true) w ∧ w.phase = .reading [5] [] ∧
    w.socks[(5 : Int)]? = some s ∧ s.reported = 2 ∧ 5 ∈ w.server.readFdMap := by
  obtain ⟨w, hw, hphase, hsock, hfd, hque⟩ : ∃ w, run step (start true) [.accept 5 NetServer.peerAddr,
      .arrive 5 [1, 2], .dataIn 5, .drain, .create] = .ok w ∧ w.phase = .reading [5] [] ∧
      w.socks[(5 : Int)]? = some ⟨[1, 2], 2, false, false⟩ ∧ w.server.mgr.connFdMap[(5 : Int)]? = some 1 ∧
      w.server.netQueue = [] := ⟨_, rfl, rfl, rfl, rfl, rfl⟩
  have hreach : Reach step Allowed (start true) w := by
    refine Reach.refl.run (fun s o ho => ?_) hw
    simp only [List.mem_cons, List.not_mem_nil, or_false] at ho
    rcases ho with rfl | rfl | rfl | rfl | rfl <;> trivial
  refine ⟨w, _, hreach, hphase, hsock, rfl, ?_⟩
  rcases (no_lost_edge hreach).1 5 1 _ hfd hsock rfl (by decide) with hread | hmem
  · exact hread
  · rw [hque] at hmem
    cases hmem

end NetLoop

end KcpServer
