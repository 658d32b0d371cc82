import KcpServer.Core.Register
import KcpServer.Kcp.Sections

/-!
# Messages that are left behind

A datagram sets `m_bread`, and the next `OnDealMsg` clears it and takes one message. What else the datagram has brought
stays in the queue, and without another one no `OnDealMsg` looks at it.

* `updateKcp_spec` : what `KCPServer::Update` makes of flag and queue, in every session that is open behind it;
* `noneStranded_updateKcp_iff` : which sessions have a message left behind;
* `stranded_reach` : for how long;
* `noneStranded_reach` : the runs in which there is none.
-/

namespace KcpServer
open Lib

namespace UDPConn

/-- A message waits in the queue, and the flag is not set. -/
def Stranded (c : UDPConn) : Prop := c.bread = false ∧ ∃ m ms, c.kcp = some (m :: ms)

/-- If there is something to read, it is at most one message, of a size that `OnDealMsg` accepts. -/
def OneWaiting (c : UDPConn) : Prop := c.bread = true → ∀ ms, c.kcp = some ms →
  ms = [] ∨ ∃ m, ms = [m] ∧ 0 < m.length ∧ m.length ≤ BUFF_CACHE_SIZE

/-- Flag, queue and offset are what they were. -/
structure Kept (c c' : UDPConn) : Prop where
  bread : c'.bread = c.bread
  kcp : c'.kcp = c.kcp
  offset : c'.offset = c.offset

/-- What `OnDealMsg` makes of them, at offset 0. -/
structure Dealt (c c' : UDPConn) : Prop where
  bread : c'.bread = false
  kcp : c'.kcp = if c.bread then c.kcp.map leftOver else c.kcp
  offset : c'.offset = 0

variable {c c' c'' : UDPConn}

theorem Kept.refl (c : UDPConn) : Kept c c := ⟨rfl, rfl, rfl⟩

theorem Kept.trans (h : Kept c c') (h' : Kept c' c'') : Kept c c'' :=
  ⟨h'.bread.trans h.bread, h'.kcp.trans h.kcp, h'.offset.trans h.offset⟩

theorem Kept.dealt (h : Kept c c') (h' : Dealt c' c'') : Dealt c c'' := by
  refine ⟨h'.bread, ?_, h'.offset⟩
  rw [h'.kcp, h.bread, h.kcp]

theorem Dealt.kept (h : Dealt c c') (h' : Kept c' c'') : Dealt c c'' :=
  ⟨h'.bread.trans h.bread, h'.kcp.trans h.kcp, h'.offset.trans h.offset⟩

theorem Kept.stranded (h : Kept c c') (hc : c.Stranded) : c'.Stranded := by
  rwa [Stranded, h.bread, h.kcp]

/-- A message that is left behind stays so. -/
theorem Dealt.stranded (h : Dealt c c') (hc : c.Stranded) : c'.Stranded := by
  refine ⟨h.bread, ?_⟩
  rw [h.kcp, if_neg (by simp [hc.1])]
  exact hc.2

/-- Messages are left behind exactly if there was more to read than one. -/
theorem Dealt.stranded_iff (h : Dealt c c') (hc : ¬ c.Stranded) : c'.Stranded ↔ ¬ c.OneWaiting := by
  have hkcp := h.kcp
  constructor
  · rintro ⟨-, m, ms, hleft⟩ hone
    rw [hleft] at hkcp
    by_cases hread : c.bread = true
    · rw [if_pos hread, eq_comm, Option.map_eq_some_iff] at hkcp
      obtain ⟨ms', hms', hleft'⟩ := hkcp
      rw [leftOver_eq_nil.mpr (hone hread ms' hms')] at hleft'
      cases hleft'
    · rw [if_neg hread] at hkcp
      exact hc ⟨Bool.not_eq_true _ ▸ hread, m, ms, hkcp.symm⟩
  · intro hmore
    simp only [OneWaiting, Classical.not_imp, not_forall] at hmore
    obtain ⟨hread, ms, hms, hmore⟩ := hmore
    rw [if_pos hread, hms] at hkcp
    obtain ⟨m, ms', hleft⟩ := List.exists_cons_of_ne_nil fun hnil => hmore (leftOver_eq_nil.mp hnil)
    exact ⟨h.bread, m, ms', hkcp.trans (congrArg some hleft)⟩

/-- An `OnDealMsg` that returns clears the flag and takes at most one message. -/
theorem onDealMsg_left {ret : Int} {call : Option KcpCall} (hoff : c.offset = 0)
    (h : c.onDealMsg = .ok (c', ret, call)) : Dealt c c' := by
  rcases onDealMsg_cases h with ⟨hread, rfl⟩ | ⟨hread, ms, ms', cacheBuf, offset, hkcp, rfl, hleft⟩
  · exact ⟨hread, by simp [hread], hoff⟩
  · obtain ⟨rfl, rfl⟩ := hleft hoff
    exact ⟨rfl, by simp [hread, hkcp], rfl⟩

end UDPConn

/-! ## Sessions that stay open -/

namespace KCPServer
variable {s t u : KCPServer}

/-- What is open in `t` is open in `s`, and its flag, queue and offset are the same. -/
def Keeps (s t : KCPServer) : Prop :=
  ∀ (fd : Int) (p : Nat), t.mapConn[fd]? = some p → s.mapConn[fd]? = some p ∧ UDPConn.Kept (s.conns p) (t.conns p)

theorem Keeps.refl (s : KCPServer) : Keeps s s := fun _ _ hp => ⟨hp, .refl _⟩

theorem Keeps.trans (h : Keeps s t) (h' : Keeps t u) : Keeps s u := by
  intro fd p hp
  obtain ⟨hp, hkept'⟩ := h' fd p hp
  obtain ⟨hp, hkept⟩ := h fd p hp
  exact ⟨hp, hkept.trans hkept'⟩

theorem Registry.ne_of_ne (hs : s.Registry) {fd fd' : Int} {p q : Nat} (hp : s.mapConn[fd]? = some p)
    (hq : s.mapConn[fd']? = some q) (hne : fd' ≠ fd) : q ≠ p := by
  rintro rfl
  exact hne ((hs.conn hq).1.symm.trans (hs.conn hp).1)

theorem keeps_release (hs : s.Registry) {fd : Int} {p : Nat} (hp : s.mapConn[fd]? = some p) : Keeps s (s.release fd p) := by
  intro fd' q hq
  obtain ⟨hne, hq⟩ := erase_eq_some.mp hq
  have hconns : (s.release fd p).conns q = s.conns q := Heap.set_of_ne _ (hs.ne_of_ne hp hq hne) _
  exact ⟨hq, hconns ▸ .refl _⟩

theorem keeps_delConn (hs : s.Registry) (fd : Int) : Keeps s (s.delConn fd) := by
  rcases s.delConn_eq fd with heq | ⟨p, hp, heq⟩
  · rw [heq]
    exact .refl s
  · rw [heq]
    exact keeps_release hs hp

theorem keeps_closeConn (hs : s.Registry) (sessid : Int) : Keeps s (s.closeConn sessid) := by
  rcases closeConn_eq hs sessid with ⟨-, heq⟩ | ⟨p, hp, heq⟩
  · rw [heq]
    exact .refl s
  · rw [heq]
    exact keeps_release hs (hs.sess hp).2

theorem keeps_bindConn (s : KCPServer) (sessid : Int) : Keeps s (s.bindConn sessid).1 := by
  unfold bindConn
  split
  · exact .refl s
  · next p _ =>
    intro fd q hq
    refine ⟨hq, ?_⟩
    by_cases hqp : q = p
    · subst hqp
      dsimp only
      rw [Heap.set_self]
      exact ⟨rfl, rfl, rfl⟩
    · dsimp only
      rw [Heap.set_of_ne _ hqp]
      exact .refl _

theorem keeps_delTimeout (hs : s.Registry) : Keeps s s.delTimeout := by
  unfold delTimeout
  split
  · exact .refl s
  · next fd _ _ => exact keeps_delConn hs fd

theorem keeps_scanTimeout (s : KCPServer) (ms : Nat) : Keeps s (s.scanTimeout ms) := by
  unfold scanTimeout
  split
  · exact .refl s
  · split <;> exact .refl s

theorem createConn_kept (hs : s.Registry) {clifd : Int} {buf : Bytes} {msgs : List Bytes} {ms : Nat} {fd : Int} {p : Nat}
    (hp : (s.createConn clifd buf msgs ms).mapConn[fd]? = some p) :
    clifd = fd ∧ ((s.createConn clifd buf msgs ms).conns p).bread = true ∧
        ((s.createConn clifd buf msgs ms).conns p).offset = 0 ∨
      s.mapConn[fd]? = some p ∧ (s.createConn clifd buf msgs ms).conns p = s.conns p := by
  obtain ⟨q, c, -, hconn, -, hnew, hsame, hother, -⟩ := createConn_spec hs clifd buf msgs ms
  rw [hconn] at hp
  rcases insert_eq_some.mp hp with ⟨rfl, rfl⟩ | ⟨-, hp⟩
  · rw [hnew]
    exact .inl ⟨rfl, rfl, rfl⟩
  · exact .inr ⟨hp, hsame p (hs.conn hp).2.2 (hother fd p hp)⟩

theorem processMsg_read (hs : s.Registry) {clifd : Int} {msgs : List Bytes} {fd : Int} {p : Nat}
    (hp : s.mapConn[fd]? = some p) :
    clifd = fd ∧ ((s.processMsg clifd msgs).conns p).bread = true ∧
        ((s.processMsg clifd msgs).conns p).offset = (s.conns p).offset ∨
      (s.processMsg clifd msgs).conns p = s.conns p := by
  unfold processMsg
  split
  · exact .inr rfl
  · next q hq =>
    by_cases hfd : clifd = fd
    · subst hfd
      rw [hp] at hq
      cases hq
      simp [UDPConn.onRead]
    · exact .inr (Heap.set_of_ne _ (hs.ne_of_ne hq hp (Ne.symm hfd)) _)

end KCPServer

/-! ## Steps of a node -/

namespace GameNode
variable {pb : Pb} {g g' : GameNode} {o : GameOp}

theorem keeps_setSessid {m m' : PlayerMgr} {kcp kcp' : KCPServer} {p c : Nat} {id pid : Int} (hs : kcp.Registry)
    (h : m.setSessid kcp p id pid = .ok (m', kcp', c)) : kcp.Keeps kcp' := by
  obtain ⟨-, -, rfl⟩ := PlayerMgr.setSessid_eq_ok.mp h
  refine KCPServer.Keeps.trans ?_ (KCPServer.keeps_bindConn _ id)
  rw [PlayerMgr.closeOld_eq]
  split
  · exact .refl kcp
  · exact KCPServer.keeps_closeConn hs _

/-- No step but a new session and those of `KCPServer` touches a flag or a queue. -/
theorem keeps_stepped (hs : g.kcp.Registry) (ho : ∀ clifd buf msgs ms, o ≠ .createConn clifd buf msgs ms)
    (h : Stepped pb g o g') : g.kcp.Keeps g'.kcp := by
  cases h with
  | createConn clifd buf msgs ms => exact absurd rfl (ho clifd buf msgs ms)
  | scanTimeout ms => exact KCPServer.keeps_scanTimeout _ ms
  | delTimeout => exact KCPServer.keeps_delTimeout hs
  | quiet hq => exact hq.kcp ▸ .refl _
  | register hmsg hroom hrid hset => exact keeps_setSessid hs hset
  | newRoom hbody hlen hopen henter =>
    subst henter
    change g.kcp.Keeps (GameNode.enterNews _ _ _).kcp
    rw [enterNews_kcp, hopen.kcp]
    exact .refl _
  | badRoom hopen =>
    rw [hopen.kcp]
    exact .refl _
  | offline hp hq => exact hq.kcp ▸ KCPServer.keeps_closeConn hs _
  | enter hroom hp => exact .refl _
  | update hpass =>
    rw [hpass.removes.kcp]
    refine (removePs_invariant (I := fun _ kcp => kcp.Registry ∧ g.kcp.Keeps kcp) _ ⟨hs, .refl _⟩ ?_).2
    rintro pm kcp ⟨hreg, hkeeps⟩ rid - p hp
    rw [PlayerMgr.removeP_of_some hp]
    exact ⟨KCPServer.registry_closeConn hreg _, hkeeps.trans (KCPServer.keeps_closeConn hreg _)⟩

/-! ## `KCPServer::Update` -/

def dealCall (pb : Pb) (g : GameNode) : Option KcpCall → Except Fault GameNode
  | none => .ok g
  | some obj => Prod.fst <$> g.processKcp pb obj

/-- What `KCPServer::Update` does with the session on `fd`; `ikcp_update` hands nothing over. -/
def updateConn (pb : Pb) (g : GameNode) (fd : Int) : Except Fault GameNode :=
  match g.kcp.mapConn[fd]? with
  | none => return g
  | some p => do
    let (c, _, call) ← (g.kcp.conns p).onDealMsg
    let g ← { g with kcp := { g.kcp with conns := g.kcp.conns.set p c } }.dealCall pb call
    -- the iterator goes on from this entry
    if fd ∈ g.kcp.mapConn then
      return g
    else
      .error .bounds

/-- The loop of `KCPServer::Update`, over the descriptors that are open when it starts: a handler closes sessions and opens
none. -/
def updateConns (pb : Pb) : GameNode → List Int → Except Fault GameNode
  | g, [] => return g
  | g, fd :: fds => do
    let g ← g.updateConn pb fd
    g.updateConns pb fds

/-- `KCPServer::Update` -/
def updateKcp (pb : Pb) (g : GameNode) : Except Fault GameNode := g.updateConns pb g.kcp.mapConn.keys

/-- Every open session is at the front of its cache. -/
def AtFront (g : GameNode) : Prop := ∀ (fd : Int) (p : Nat), g.kcp.mapConn[fd]? = some p → (g.kcp.conns p).offset = 0

/-- What becomes of the sessions when those on `fds` are dealt with. -/
structure DealtOn (fds : List Int) (g g' : GameNode) : Prop where
  hosting : g'.rm.Hosting
  registry : g'.kcp.Registry
  sessions : ∀ (fd : Int) (p : Nat), g'.kcp.mapConn[fd]? = some p → g.kcp.mapConn[fd]? = some p ∧
    (fd ∈ fds → (g.kcp.conns p).Dealt (g'.kcp.conns p)) ∧ (fd ∉ fds → (g.kcp.conns p).Kept (g'.kcp.conns p))

theorem dealCall_spec (hhost : g.rm.Hosting) (hs : g.kcp.Registry) {call : Option KcpCall}
    (h : g.dealCall pb call = .ok g') : g'.rm.Hosting ∧ g'.kcp.Registry ∧ g.kcp.Keeps g'.kcp := by
  cases call with
  | none =>
    cases h
    exact ⟨hhost, hs, .refl _⟩
  | some obj =>
    obtain ⟨⟨g₁, outs⟩, hproc, h⟩ := bind_eq_ok.mp h
    cases h
    have hstep := stepped_kcp hproc
    exact ⟨hosting_stepped hhost hstep, registry_stepped hs (o := .kcp obj) trivial hstep, keeps_stepped hs (by simp) hstep⟩

theorem updateConn_spec (hhost : g.rm.Hosting) (hs : g.kcp.Registry) (hfront : g.AtFront) {fd : Int}
    (h : g.updateConn pb fd = .ok g') : DealtOn [fd] g g' := by
  unfold updateConn at h
  split at h
  · next hnone =>
    cases h
    refine ⟨hhost, hs, fun fd' q hq => ⟨hq, fun hmem => ?_, fun _ => .refl _⟩⟩
    rw [List.mem_singleton.mp hmem, hnone] at hq
    cases hq
  next p hp =>
  obtain ⟨⟨c, ret, call⟩, hdeal, h⟩ := bind_eq_ok.mp h
  obtain ⟨g₁, hcall, h⟩ := bind_eq_ok.mp h
  dsimp only at hcall
  split at h
  swap
  · cases h
  cases h
  have hdealt := UDPConn.onDealMsg_left (hfront fd p hp) hdeal
  have hused : g.kcp.Used { g.kcp with conns := g.kcp.conns.set p c } :=
    KCPServer.used_set _ (KCPServer.onDealMsg_touched hdeal).1
  obtain ⟨hhost', hs', hkeeps⟩ := dealCall_spec (g := { g with kcp := { g.kcp with conns := g.kcp.conns.set p c } }) hhost
    (KCPServer.registry_used hs hused) hcall
  refine ⟨hhost', hs', fun fd' q hq => ?_⟩
  obtain ⟨hq, hkept⟩ := hkeeps fd' q hq
  refine ⟨hq, fun hmem => ?_, fun hmem => ?_⟩
  · rw [List.mem_singleton.mp hmem, hp] at hq
    cases hq
    rw [Heap.set_self] at hkept
    exact hdealt.kept hkept
  · rwa [Heap.set_of_ne _ (hs.ne_of_ne hp hq (by simpa using hmem))] at hkept

theorem DealtOn.atFront {fds : List Int} (h : DealtOn fds g g') (hfront : g.AtFront) : g'.AtFront := by
  intro fd p hp
  obtain ⟨hp, hdealt, hkept⟩ := h.sessions fd p hp
  by_cases hmem : fd ∈ fds
  · exact (hdealt hmem).offset
  · exact (hkept hmem).offset.trans (hfront fd p hp)

theorem DealtOn.trans {fd : Int} {fds : List Int} {g'' : GameNode} (hfd : fd ∉ fds) (h : DealtOn [fd] g g')
    (h' : DealtOn fds g' g'') : DealtOn (fd :: fds) g g'' := by
  refine ⟨h'.hosting, h'.registry, fun fd' p hp => ?_⟩
  obtain ⟨hp, hdealt', hkept'⟩ := h'.sessions fd' p hp
  obtain ⟨hp, hdealt, hkept⟩ := h.sessions fd' p hp
  refine ⟨hp, fun hmem => ?_, fun hmem => ?_⟩
  · rcases List.mem_cons.mp hmem with rfl | hmem
    · exact (hdealt List.mem_cons_self).kept (hkept' hfd)
    · have hne : fd' ∉ [fd] := fun hfd' => hfd (List.mem_singleton.mp hfd' ▸ hmem)
      exact (hkept hne).dealt (hdealt' hmem)
  · rw [List.mem_cons, not_or] at hmem
    exact (hkept (by simpa using hmem.1)).trans (hkept' hmem.2)

theorem updateConns_spec {fds : List Int} (hfds : fds.Nodup) (hhost : g.rm.Hosting) (hs : g.kcp.Registry)
    (hfront : g.AtFront) (h : g.updateConns pb fds = .ok g') : DealtOn fds g g' := by
  induction fds generalizing g with
  | nil =>
    cases h
    exact ⟨hhost, hs, fun fd p hp => ⟨hp, by simp, fun _ => .refl _⟩⟩
  | cons fd fds ih =>
    obtain ⟨hfd, hfds⟩ := List.nodup_cons.mp hfds
    obtain ⟨g₁, hconn, h⟩ := bind_eq_ok.mp h
    have hfirst := updateConn_spec hhost hs hfront hconn
    exact hfirst.trans hfd (ih hfds hfirst.hosting hfirst.registry (hfirst.atFront hfront) h)

/-- A session that is open behind an `Update` has been dealt with once. -/
theorem updateKcp_spec (hhost : g.rm.Hosting) (hs : g.kcp.Registry) (hfront : g.AtFront)
    (h : g.updateKcp pb = .ok g') : g'.rm.Hosting ∧ g'.kcp.Registry ∧ ∀ (fd : Int) (p : Nat),
      g'.kcp.mapConn[fd]? = some p → g.kcp.mapConn[fd]? = some p ∧ (g.kcp.conns p).Dealt (g'.kcp.conns p) := by
  have hupd := updateConns_spec Std.TreeMap.nodup_keys hhost hs hfront h
  refine ⟨hupd.hosting, hupd.registry, fun fd p hp => ?_⟩
  obtain ⟨hp, hdealt, -⟩ := hupd.sessions fd p hp
  exact ⟨hp, hdealt (Std.TreeMap.mem_keys.mpr (mem_iff_exists.mpr ⟨p, hp⟩))⟩

end GameNode

/-! ## Runs -/

/-- A datagram of a session, an `Update`, or any other step of the node. -/
inductive SessionOp
  | node (o : GameOp)
  | processMsg (clifd : Int) (msgs : Option (List Bytes))
  | updateKcp

namespace GameNode
variable {pb : Pb} {g g' : GameNode}

def sessionStep (pb : Pb) (g : GameNode) : SessionOp → Except Fault GameNode
  | .node o => g.step pb o
  | .processMsg _ none => return g
  | .processMsg clifd (some msgs) => return { g with kcp := g.kcp.processMsg clifd msgs }
  | .updateKcp => g.updateKcp pb

/-- What the surroundings of a node do. -/
def SessionEnv (g : GameNode) : SessionOp → Prop
  | .node o => g.Env o
  | _ => True

/-- **No message is left behind**: an open session with a message in its queue has its flag set. -/
def NoneStranded (g : GameNode) : Prop := ∀ (fd : Int) (p : Nat), g.kcp.mapConn[fd]? = some p →
  ∀ m ms, (g.kcp.conns p).kcp = some (m :: ms) → (g.kcp.conns p).bread = true

/-- No open session has more than one message to read. -/
def OneEach (g : GameNode) : Prop :=
  ∀ (fd : Int) (p : Nat), g.kcp.mapConn[fd]? = some p → (g.kcp.conns p).OneWaiting

theorem noneStranded_iff : g.NoneStranded ↔
    ∀ (fd : Int) (p : Nat), g.kcp.mapConn[fd]? = some p → ¬ (g.kcp.conns p).Stranded := by
  refine forall₂_congr fun fd p => imp_congr_right fun _ => ?_
  constructor
  · rintro h ⟨hfalse, m, ms, hkcp⟩
    simp [h m ms hkcp] at hfalse
  · intro h m ms hkcp
    by_contra hread
    exact h ⟨Bool.not_eq_true _ ▸ hread, m, ms, hkcp⟩

/-- What every step keeps. -/
structure Reading (g : GameNode) : Prop where
  hosting : g.rm.Hosting
  registry : g.kcp.Registry
  front : g.AtFront

theorem reading_new : Reading .new where
  hosting := hosting_new
  registry := KCPServer.registry_withPool _
  front _ _ hp := nomatch Std.TreeMap.getElem?_emptyc.symm.trans hp

section Step
variable {o : SessionOp} {fd : Int} {p : Nat}

/-- The datagrams of a session, the first one included. -/
def Wakes (fd : Int) : SessionOp → Prop
  | .node (.createConn clifd _ _ _) => clifd = fd
  | .processMsg clifd (some _) => clifd = fd
  | _ => False

/-- What a step does to a session that is open behind it: a datagram sets its flag, an `Update` deals with it, and all else
leaves it alone. -/
theorem session_cases (h : g.Reading) (hstep : g.sessionStep pb o = .ok g') (hp : g'.kcp.mapConn[fd]? = some p) :
    Wakes fd o ∧ (g'.kcp.conns p).bread = true ∧ (g'.kcp.conns p).offset = 0 ∨
      g.kcp.mapConn[fd]? = some p ∧ ((g.kcp.conns p).Kept (g'.kcp.conns p) ∨
        o = .updateKcp ∧ (g.kcp.conns p).Dealt (g'.kcp.conns p)) := by
  cases o with
  | node o =>
    have hstepped := stepped h.hosting hstep
    by_cases ho : ∀ clifd buf msgs ms, o ≠ .createConn clifd buf msgs ms
    · obtain ⟨hp, hkept⟩ := keeps_stepped h.registry ho hstepped fd p hp
      exact .inr ⟨hp, .inl hkept⟩
    · push Not at ho
      obtain ⟨clifd, buf, msgs, ms, rfl⟩ := ho
      cases hstep
      rcases KCPServer.createConn_kept h.registry hp with hnew | ⟨hp, heq⟩
      · exact .inl hnew
      · exact .inr ⟨hp, .inl (heq ▸ .refl _)⟩
  | processMsg clifd msgs =>
    cases msgs with
    | none =>
      cases hstep
      exact .inr ⟨hp, .inl (.refl _)⟩
    | some msgs =>
      cases hstep
      have hp : g.kcp.mapConn[fd]? = some p := (KCPServer.used_processMsg g.kcp clifd msgs).mapConn ▸ hp
      rcases KCPServer.processMsg_read h.registry hp with ⟨hfd, hread, hoff⟩ | hsame
      · exact .inl ⟨hfd, hread, hoff.trans (h.front fd p hp)⟩
      · exact .inr ⟨hp, .inl (hsame ▸ .refl _)⟩
  | updateKcp =>
    obtain ⟨-, -, hsess⟩ := updateKcp_spec h.hosting h.registry h.front hstep
    obtain ⟨hp, hdealt⟩ := hsess fd p hp
    exact .inr ⟨hp, .inr ⟨rfl, hdealt⟩⟩

theorem reading_step (h : g.Reading) (henv : g.SessionEnv o) (hstep : g.sessionStep pb o = .ok g') : g'.Reading := by
  have hfront : g'.AtFront := by
    intro fd p hp
    rcases session_cases h hstep hp with ⟨-, -, hoff⟩ | ⟨hp, hkept | ⟨-, hdealt⟩⟩
    · exact hoff
    · exact hkept.offset.trans (h.front fd p hp)
    · exact hdealt.offset
  cases o with
  | node o =>
    have hstepped := stepped h.hosting hstep
    exact ⟨hosting_stepped h.hosting hstepped, registry_stepped h.registry henv hstepped, hfront⟩
  | processMsg clifd msgs =>
    cases msgs with
    | none =>
      cases hstep
      exact h
    | some msgs =>
      cases hstep
      exact ⟨h.hosting, KCPServer.registry_used h.registry (KCPServer.used_processMsg _ _ _), hfront⟩
  | updateKcp =>
    obtain ⟨hhost, hs, -⟩ := updateKcp_spec h.hosting h.registry h.front hstep
    exact ⟨hhost, hs, hfront⟩

/-- What an `Update` leaves behind: in a session that stays open, whatever there was to read but one message. -/
theorem noneStranded_updateKcp_iff (h : g.Reading) (hnone : g.NoneStranded) (hupd : g.updateKcp pb = .ok g') :
    g'.NoneStranded ↔ ∀ (fd : Int) (p : Nat), g'.kcp.mapConn[fd]? = some p → (g.kcp.conns p).OneWaiting := by
  obtain ⟨-, -, hsess⟩ := updateKcp_spec h.hosting h.registry h.front hupd
  rw [noneStranded_iff] at hnone ⊢
  refine forall₂_congr fun fd p => forall_congr' fun hp => ?_
  obtain ⟨hp, hdealt⟩ := hsess fd p hp
  rw [hdealt.stranded_iff (hnone fd p hp), not_not]

theorem noneStranded_step (h : g.Reading) (hnone : g.NoneStranded) (hone : o = .updateKcp → g.OneEach)
    (hstep : g.sessionStep pb o = .ok g') : g'.NoneStranded := by
  by_cases ho : o = .updateKcp
  · subst ho
    refine (noneStranded_updateKcp_iff h hnone hstep).mpr fun fd p hp => hone rfl fd p ?_
    exact ((updateKcp_spec h.hosting h.registry h.front hstep).2.2 fd p hp).1
  · intro fd p hp m ms hkcp
    rcases session_cases h hstep hp with ⟨-, hread, -⟩ | ⟨hp, hkept | ⟨hupd, -⟩⟩
    · exact hread
    · exact hkept.bread.trans (hnone fd p hp m ms (hkept.kcp.symm.trans hkcp))
    · exact absurd hupd ho

end Step

/-- A message that is left behind once is left behind by every later `Update`, until there is another datagram. -/
theorem stranded_reach {fd : Int} (hg : g.Reading)
    (hstranded : ∀ p, g.kcp.mapConn[fd]? = some p → (g.kcp.conns p).Stranded)
    (h : Reach (sessionStep pb) (fun g o => g.SessionEnv o ∧ ¬ Wakes fd o) g g') :
    ∀ p, g'.kcp.mapConn[fd]? = some p → (g'.kcp.conns p).Stranded := by
  have hinv : g'.Reading ∧ ∀ p, g'.kcp.mapConn[fd]? = some p → (g'.kcp.conns p).Stranded := by
    refine h.invariant (I := fun g => g.Reading ∧ ∀ p, g.kcp.mapConn[fd]? = some p → (g.kcp.conns p).Stranded)
      ⟨hg, hstranded⟩ ?_
    rintro g o g' ⟨hg, hstranded⟩ ⟨henv, hwakes⟩ hstep
    refine ⟨reading_step hg henv hstep, fun p hp => ?_⟩
    rcases session_cases hg hstep hp with ⟨hwakes', -⟩ | ⟨hp, hkept | ⟨-, hdealt⟩⟩
    · exact absurd hwakes' hwakes
    · exact hkept.stranded (hstranded p hp)
    · exact hdealt.stranded (hstranded p hp)
  exact hinv.2

theorem reading_reach
    (h : Reach (sessionStep pb) (fun g o => g.SessionEnv o ∧ (o = .updateKcp → g.OneEach)) .new g) :
    g.Reading ∧ g.NoneStranded := by
  refine h.invariant (I := fun g => g.Reading ∧ g.NoneStranded) ⟨reading_new, ?_⟩ ?_
  · exact fun _ _ hp => nomatch Std.TreeMap.getElem?_emptyc.symm.trans hp
  · rintro g o g' ⟨hg, hnone⟩ ⟨henv, hone⟩ hstep
    exact ⟨reading_step hg henv hstep, noneStranded_step hg hnone hone hstep⟩

/-- **When no message is left behind.** In every run of a node in which each `Update` finds at most one message waiting in
every open session that is to be read, and that of a size from 1 to 16384, every open session with a message in its queue
has its flag set. -/
theorem noneStranded_reach
    (h : Reach (sessionStep pb) (fun g o => g.SessionEnv o ∧ (o = .updateKcp → g.OneEach)) .new g) : g.NoneStranded :=
  (reading_reach h).2

/-! ## A datagram with two messages -/

/-- A command with an empty body, for a room that is not there. -/
def command : Bytes := [0, 0, 0, 0, 208, 7, 0, 0, 5, 0, 0, 0, 1, 0, 0, 0]

/-- A session, and a datagram of which `ikcp_input` makes `msgs`. -/
def oneDatagram (msgs : List Bytes) : List SessionOp := [.node (.createConn 7 [] [] 0), .processMsg 7 (some msgs)]

/-- The datagram has been read. -/
@[mk_iff]
structure Arrived (g : GameNode) (msgs : List Bytes) : Prop where
  keys : g.kcp.mapConn.keys = [7]
  conn : g.kcp.mapConn[(7 : Int)]? = some 0
  kcp : (g.kcp.conns 0).kcp = some msgs
  bread : (g.kcp.conns 0).bread = true
  offset : (g.kcp.conns 0).offset = 0
  rooms : g.rm.idMap.isEmpty = true

instance (g : GameNode) (msgs : List Bytes) : Decidable (Arrived g msgs) :=
  decidable_of_iff _ (arrived_iff g msgs).symm

/-- What the runs below are tested for: there is no `Update` in them. -/
def noUpdate (g : GameNode) : SessionOp → Bool
  | .node o => decide (g.Env o)
  | .processMsg _ _ => true
  | .updateKcp => false

theorem exists_arrived (msgs : List Bytes)
    (h : (runIf (sessionStep ridParser) noUpdate .new (oneDatagram msgs)).any (fun g => decide (Arrived g msgs)) = true) :
    ∃ g, Reach (sessionStep ridParser) (fun g o => g.SessionEnv o ∧ (o = .updateKcp → g.OneEach)) .new g ∧
      Arrived g msgs := by
  have hallowed : ∀ g o, noUpdate g o = true → g.SessionEnv o ∧ (o = .updateKcp → g.OneEach) := by
    intro g o ho
    cases o with
    | node o => exact ⟨show g.Env o from of_decide_eq_true ho, by simp⟩
    | processMsg clifd msgs => exact ⟨trivial, by simp⟩
    | updateKcp => cases ho
  obtain ⟨g, hg, harrived⟩ := Reach.of_runIf_any hallowed h
  exact ⟨g, hg, of_decide_eq_true harrived⟩

theorem Arrived.updateKcp {msgs : List Bytes} (h : Arrived g (command :: msgs)) (m : Bytes) : ∃ g' g'',
    g.updateKcp ridParser = .ok g' ∧ g'.kcp.mapConn[(7 : Int)]? = some 0 ∧
      g'.sessionStep ridParser (.processMsg 7 (some [m])) = .ok g'' ∧ Arrived g'' (msgs ++ [m]) := by
  have hlen : (g.kcp.conns 0).cachedLen command = 0 := rfl
  obtain ⟨c, ret, call, hdeal, -, -⟩ := UDPConn.dealsSafely h.kcp h.bread h.offset (by decide) (by decide)
    (.inr (by rw [hlen]; rfl))
  have hdealt := UDPConn.onDealMsg_left h.offset hdeal
  have hkcp : c.kcp = some msgs := by
    rw [hdealt.kcp, if_pos h.bread, h.kcp]
    rfl
  have hroom : ∀ k : Int, g.rm.idMap[k]? = none := fun k =>
    Option.eq_none_iff_forall_ne_some.mpr fun r hr => not_isEmpty hr h.rooms
  set g' : GameNode := { g with kcp := { g.kcp with conns := g.kcp.conns.set 0 c } }
  have hcall : g'.dealCall ridParser call = .ok g' := by
    cases call with
    | none => rfl
    | some obj =>
      simp only [dealCall, processKcp, RoomMgr.getRoom, show g'.rm = g.rm from rfl, hroom]
      rfl
  have hmem : (7 : Int) ∈ g.kcp.mapConn := mem_iff_exists.mpr ⟨0, h.conn⟩
  have hupd : g.updateKcp ridParser = .ok g' := by
    rw [GameNode.updateKcp, h.keys, updateConns, updateConn, h.conn]
    dsimp only
    rw [hdeal, ok_bind]
    dsimp only
    rw [hcall, ok_bind, if_pos hmem]
    rfl
  have hread : g'.kcp.processMsg 7 [m] = { g'.kcp with conns := g'.kcp.conns.set 0 (c.onRead [m]) } := by
    rw [KCPServer.processMsg, show g'.kcp.mapConn[(7 : Int)]? = some 0 from h.conn]
    dsimp only
    rw [Heap.set_self]
  refine ⟨g', { g' with kcp := g'.kcp.processMsg 7 [m] }, hupd, h.conn, rfl, ?_⟩
  rw [hread]
  refine ⟨h.keys, h.conn, ?_, ?_, ?_, h.rooms⟩
  · rw [Heap.set_self, UDPConn.onRead, hkcp]
    rfl
  · rw [Heap.set_self]
    rfl
  · rw [Heap.set_self]
    exact hdealt.offset

theorem Arrived.oneEach (h : Arrived g [command]) : g.OneEach := by
  intro fd p hp _ ms hms
  have hfd : fd ∈ g.kcp.mapConn.keys := Std.TreeMap.mem_keys.mpr (mem_iff_exists.mpr ⟨p, hp⟩)
  rw [h.keys, List.mem_singleton] at hfd
  rw [hfd, h.conn] at hp
  cases hp
  rw [h.kcp] at hms
  cases hms
  exact .inr ⟨command, rfl, by decide, by decide⟩

set_option maxRecDepth 100000 in
/-- The second message of a datagram is left behind. -/
theorem not_noneStranded : ∃ g g', Reach (sessionStep ridParser) SessionEnv .new g ∧
    g.sessionStep ridParser .updateKcp = .ok g' ∧ ¬ g'.NoneStranded := by
  obtain ⟨g, hg, harrived⟩ := exists_arrived [command, command] (by decide +kernel)
  obtain ⟨g', -, hupd, hp, -⟩ := harrived.updateKcp []
  refine ⟨g, g', hg.mono fun _ _ ho => ho.1, hupd, fun hnone => ?_⟩
  obtain ⟨hread, hbefore⟩ := reading_reach hg
  have hone := (noneStranded_updateKcp_iff hread hbefore hupd).mp hnone 7 0 hp
  simpa using hone harrived.bread _ harrived.kcp

set_option maxRecDepth 100000 in
/-- Two datagrams with one message each, and an `Update` behind each. -/
theorem noneStranded_twice : ∃ g g' g'' g₃, Reach (sessionStep ridParser)
    (fun g o => g.SessionEnv o ∧ (o = .updateKcp → g.OneEach)) .new g ∧
      g.sessionStep ridParser .updateKcp = .ok g' ∧ g'.NoneStranded ∧
      g'.sessionStep ridParser (.processMsg 7 (some [command])) = .ok g'' ∧
      g''.sessionStep ridParser .updateKcp = .ok g₃ ∧ g₃.kcp.mapConn[(7 : Int)]? = some 0 ∧ g₃.NoneStranded := by
  obtain ⟨g, hg, harrived⟩ := exists_arrived [command] (by decide +kernel)
  obtain ⟨g', g'', hupd, -, hread, harrived'⟩ := harrived.updateKcp command
  obtain ⟨g₃, -, hupd', hp, -⟩ := harrived'.updateKcp []
  have hg' := hg.step (o := SessionOp.updateKcp) ⟨trivial, fun _ => harrived.oneEach⟩ hupd
  have hg'' := hg'.step (o := SessionOp.processMsg 7 (some [command])) ⟨trivial, by simp⟩ hread
  have hg₃ := hg''.step (o := SessionOp.updateKcp) ⟨trivial, fun _ => harrived'.oneEach⟩ hupd'
  exact ⟨g, g', g'', g₃, hg, hupd, noneStranded_reach hg', hread, hupd', hp, noneStranded_reach hg₃⟩

end GameNode

end KcpServer
