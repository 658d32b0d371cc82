import KcpServer.Kcp.Server
import KcpServer.Kcp.DealMsg
import KcpServer.Lib.Transition

/-!
# The critical sections of `KCPServer`

Its mutex is taken section by section: `OnCheckTimeout` finds the sessions that have timed out in one section and deletes
each in a later one, `closeConn` looks its session up in one section and deletes a descriptor in another. In between, the
other thread goes on.

* `Change` : what a section other than `createConn` does;
* `sound_reach` : the two maps and the pool, between any two sections.
-/

namespace KcpServer
open Lib

/-- Where the main thread's `closeConn` stands: outside, behind its first section, or with the descriptor read. -/
inductive Closing
  | idle
  | found (sessid : Int) (pconn : Nat)
  | del (sessid fd : Int)

/-- `KCPServer`, and the call of `closeConn` in progress. -/
structure KcpThreads where
  server : KCPServer
  closing : Closing

/-- The sections. The epoll thread: a datagram from a new client, a datagram of a session, the scan for timeouts, and
each deletion that follows; `msgs` is what `ikcp_input` makes of a datagram. The main thread: a message dealt with,
`playerObj::setSessid` as a 2004 calls it, where `old` is the player's session before, `rawCloseConn`, and the parts of
`closeConn`. -/
inductive KcpOp
  | createConn (clifd : Int) (buf : Bytes) (msgs : List Bytes) (ms : Nat)
  | processMsg (clifd : Int) (msgs : List Bytes)
  | scanTimeout (ms : Nat)
  | delTimeout
  | dealMsg (fd : Int)
  | setSessid (old sessid : Int)
  | rawCloseConn (sessid : Int)
  | closeLookup (sessid : Int)
  | closeFd
  | closeDel

namespace KCPServer

/-- `KCPServer::processMsg` -/
def processMsg (s : KCPServer) (clifd : Int) (msgs : List Bytes) : KCPServer :=
  match s.mapConn[clifd]? with
  | none => s
  | some p => { s with conns := s.conns.set p ((s.conns p).onRead msgs) }

/-- What `KCPServer::Update` does with one session. -/
def dealMsg (s : KCPServer) (fd : Int) : Except Fault KCPServer :=
  match s.mapConn[fd]? with
  | none => return s
  | some p => do
    let (c, _, _) ← (s.conns p).onDealMsg
    return { s with conns := s.conns.set p c }

/-- The calls of `playerObj::setSessid`. -/
def setSessid (s : KCPServer) (old sessid : Int) : Except Fault KCPServer := do
  let s := if old ≠ 0 then s.rawCloseConn old else s
  let (s, ref) := s.bindConn sessid
  assert ref.isSome
  return s

end KCPServer

namespace KcpThreads

def start (n : Nat) : KcpThreads := ⟨.withPool n, .idle⟩

def step (w : KcpThreads) : KcpOp → Except Fault KcpThreads
  | .createConn clifd buf msgs ms => return { w with server := w.server.createConn clifd buf msgs ms }
  | .processMsg clifd msgs => return { w with server := w.server.processMsg clifd msgs }
  | .scanTimeout ms => return { w with server := w.server.scanTimeout ms }
  | .delTimeout => return { w with server := w.server.delTimeout }
  | .dealMsg fd => do return { w with server := ← w.server.dealMsg fd }
  | .setSessid old sessid => do return { w with server := ← w.server.setSessid old sessid }
  | .rawCloseConn sessid => return { w with server := w.server.rawCloseConn sessid }
  | .closeLookup sessid =>
    match w.server.rawGetConn sessid with
    | none => return { w with closing := .idle }
    | some pconn => return { w with closing := .found sessid pconn }
  | .closeFd =>
    match w.closing with
    | .found sessid pconn => return { w with closing := .del sessid (w.server.conns pconn).fd }
    | _ => return w
  | .closeDel =>
    match w.closing with
    | .del _ fd => return ⟨w.server.delConn fd, .idle⟩
    | _ => return w

/-- A new client's descriptor is not open. -/
def Allowed (w : KcpThreads) : KcpOp → Prop
  | .createConn clifd _ _ _ => clifd ∉ w.server.mapConn
  | _ => True

end KcpThreads

/-! ## What a section does -/

namespace KCPServer

variable {s t u : KCPServer}

/-- What may happen to an object while it is registered. -/
structure Touched (c c' : UDPConn) : Prop where
  id : c'.id = c.id
  fd : c'.fd = c.fd
  kcp : c'.kcp.isSome = c.kcp.isSome

/-- The registered objects are used, nothing else. -/
structure Used (s t : KCPServer) : Prop where
  conns : ∀ q, Touched (s.conns q) (t.conns q)
  next : t.conns.next = s.conns.next
  mapConn : t.mapConn = s.mapConn
  mapSessFd : t.mapSessFd = s.mapSessFd
  pool : t.pool = s.pool
  sessId : t.sessId = s.sessId

/-- A section other than `createConn` uses the registered objects, and may release one before. -/
def Change (s t : KCPServer) : Prop := Used s t ∨ ∃ fd p, s.mapConn[fd]? = some p ∧ Used (s.release fd p) t

theorem Touched.refl (c : UDPConn) : Touched c c := ⟨rfl, rfl, rfl⟩

theorem Used.refl (s : KCPServer) : Used s s := ⟨fun _ => .refl _, rfl, rfl, rfl, rfl, rfl⟩

theorem Used.trans (h : Used s t) (h' : Used t u) : Used s u where
  conns q := ⟨(h'.conns q).id.trans (h.conns q).id, (h'.conns q).fd.trans (h.conns q).fd,
    (h'.conns q).kcp.trans (h.conns q).kcp⟩
  next := h'.next.trans h.next
  mapConn := h'.mapConn.trans h.mapConn
  mapSessFd := h'.mapSessFd.trans h.mapSessFd
  pool := h'.pool.trans h.pool
  sessId := h'.sessId.trans h.sessId

theorem Change.used (h : Change s t) (h' : Used t u) : Change s u := by
  rcases h with h | ⟨fd, p, hp, h⟩
  · exact .inl (h.trans h')
  · exact .inr ⟨fd, p, hp, h.trans h'⟩

/-- A section other than `createConn` registers nothing, and the objects keep their ids and descriptors. -/
theorem Change.fields (h : Change s t) (q : Nat) : (t.conns q).id = (s.conns q).id ∧ (t.conns q).fd = (s.conns q).fd ∧
    t.conns.next = s.conns.next ∧ (∀ fd : Int, t.mapConn[fd]? = some q → s.mapConn[fd]? = some q) ∧
    ∀ sid : Int, t.mapSessFd[sid]? = some q → s.mapSessFd[sid]? = some q := by
  rcases h with h | ⟨fd, p, -, h⟩
  · refine ⟨(h.conns q).id, (h.conns q).fd, h.next, fun fd hq => ?_, fun sid hq => ?_⟩
    · rwa [h.mapConn] at hq
    · rwa [h.mapSessFd] at hq
  · obtain ⟨hid, hfd⟩ := s.release_fields fd p q
    refine ⟨(h.conns q).id.trans hid, (h.conns q).fd.trans hfd, h.next, fun fd' hq => ?_, fun sid hq => ?_⟩
    · rw [h.mapConn] at hq
      exact (erase_eq_some.mp hq).2
    · rw [h.mapSessFd] at hq
      exact (erase_eq_some.mp hq).2

theorem Change.sessId (h : Change s t) : t.sessId = s.sessId := by
  rcases h with h | ⟨fd, p, -, h⟩ <;> exact h.sessId

theorem change_delConn (s : KCPServer) (fd : Int) : Change s (s.delConn fd) := by
  rcases s.delConn_eq fd with heq | ⟨p, hp, heq⟩
  · rw [heq]
    exact .inl (.refl s)
  · rw [heq]
    exact .inr ⟨fd, p, hp, .refl _⟩

theorem change_rawCloseConn (s : KCPServer) (sessid : Int) : Change s (s.rawCloseConn sessid) := by
  rw [rawCloseConn_eq_closeConn]
  unfold closeConn
  split
  · exact .inl (.refl s)
  · exact change_delConn s _

theorem change_delTimeout (s : KCPServer) : Change s s.delTimeout := by
  unfold delTimeout
  split
  · exact .inl (.refl s)
  · next fd delQue _ => exact (change_delConn s fd).used ⟨fun _ => .refl _, rfl, rfl, rfl, rfl, rfl⟩

theorem used_set (s : KCPServer) {p : Nat} {c : UDPConn} (h : Touched (s.conns p) c) :
    Used s { s with conns := s.conns.set p c } := by
  refine ⟨fun q => ?_, rfl, rfl, rfl, rfl, rfl⟩
  dsimp only
  by_cases hq : q = p
  · rw [hq, Heap.set_self]
    exact h
  · rw [Heap.set_of_ne _ hq]
    exact .refl _

theorem used_processMsg (s : KCPServer) (clifd : Int) (msgs : List Bytes) : Used s (s.processMsg clifd msgs) := by
  unfold processMsg
  split
  · exact .refl s
  · exact used_set s ⟨rfl, rfl, by simp [UDPConn.onRead]⟩

theorem used_bindConn (s : KCPServer) (sessid : Int) : Used s (s.bindConn sessid).1 := by
  unfold bindConn
  split
  · exact .refl s
  · exact used_set s ⟨rfl, rfl, rfl⟩

theorem used_scanTimeout (s : KCPServer) (ms : Nat) : Used s (s.scanTimeout ms) := by
  unfold scanTimeout
  split
  · exact ⟨fun _ => .refl _, rfl, rfl, rfl, rfl, rfl⟩
  · split
    · exact ⟨fun _ => .refl _, rfl, rfl, rfl, rfl, rfl⟩
    · exact .refl s

theorem onDealMsg_touched {c c' : UDPConn} {ret : Int} {call : Option KcpCall}
    (h : c.onDealMsg = .ok (c', ret, call)) : Touched c c' ∧ c'.bind = c.bind := by
  rcases UDPConn.onDealMsg_cases h with ⟨-, rfl⟩ | ⟨-, ms, ms', cacheBuf, offset, hkcp, rfl, -⟩
  · exact ⟨.refl _, rfl⟩
  · exact ⟨⟨rfl, rfl, by simp [hkcp]⟩, rfl⟩

theorem used_dealMsg {fd : Int} (h : s.dealMsg fd = .ok t) :
    Used s t ∧ t.delQue = s.delQue ∧ ∀ q, (t.conns q).bind = (s.conns q).bind := by
  unfold dealMsg at h
  split at h
  · cases h
    exact ⟨.refl s, rfl, fun _ => rfl⟩
  · next p hp =>
    obtain ⟨⟨c, ret, call⟩, hdeal, h⟩ := bind_eq_ok.mp h
    cases h
    obtain ⟨htouched, hbind⟩ := onDealMsg_touched hdeal
    refine ⟨used_set s htouched, rfl, fun q => ?_⟩
    dsimp only
    by_cases hq : q = p
    · rw [hq, Heap.set_self]
      exact hbind
    · rw [Heap.set_of_ne _ hq]

theorem setSessid_eq {old sessid : Int} (h : s.setSessid old sessid = .ok t) :
    ∃ u, (u = s ∨ u = s.rawCloseConn old) ∧ t = (u.bindConn sessid).1 ∧ ∃ p, u.mapSessFd[sessid]? = some p := by
  obtain ⟨u, hu, h⟩ : ∃ u, (u = s ∨ u = s.rawCloseConn old) ∧
      (do assert (u.bindConn sessid).2.isSome; return (u.bindConn sessid).1) = Except.ok t := by
    unfold setSessid at h
    dsimp only at h
    split at h
    · exact ⟨_, .inr rfl, h⟩
    · exact ⟨_, .inl rfl, h⟩
  obtain ⟨_, hassert, h⟩ := bind_eq_ok.mp h
  cases h
  refine ⟨u, hu, rfl, ?_⟩
  rw [assert_eq_ok] at hassert
  unfold bindConn at hassert
  split at hassert
  · cases hassert
  · next p hp => exact ⟨p, hp⟩

theorem change_setSessid {old sessid : Int} (h : s.setSessid old sessid = .ok t) : Change s t := by
  obtain ⟨u, hu, rfl, -⟩ := setSessid_eq h
  have hchange : Change s u := by
    rcases hu with rfl | rfl
    · exact .inl (.refl u)
    · exact change_rawCloseConn s old
  exact hchange.used (used_bindConn u sessid)

end KCPServer

namespace KcpThreads
variable {w w' : KcpThreads}

/-! ### The parts of `closeConn` -/

theorem closeLookup_cases {sessid : Int} (h : w.step (.closeLookup sessid) = .ok w') :
    w' = ⟨w.server, .idle⟩ ∨ ∃ p, w.server.mapSessFd[sessid]? = some p ∧ w' = ⟨w.server, .found sessid p⟩ := by
  unfold step at h
  dsimp only at h
  split at h
  · cases h
    exact .inl rfl
  · next p hp =>
    cases h
    exact .inr ⟨p, hp, rfl⟩

theorem closeFd_cases (h : w.step .closeFd = .ok w') :
    w' = w ∨ ∃ sessid p, w.closing = .found sessid p ∧ w' = ⟨w.server, .del sessid (w.server.conns p).fd⟩ := by
  unfold step at h
  dsimp only at h
  split at h
  · next sessid p hclosing =>
    cases h
    exact .inr ⟨sessid, p, hclosing, rfl⟩
  · cases h
    exact .inl rfl

theorem closeDel_cases (h : w.step .closeDel = .ok w') :
    w' = w ∨ ∃ sessid fd, w.closing = .del sessid fd ∧ w' = ⟨w.server.delConn fd, .idle⟩ := by
  unfold step at h
  dsimp only at h
  split at h
  · next sessid fd hclosing =>
    cases h
    exact .inr ⟨sessid, fd, hclosing, rfl⟩
  · cases h
    exact .inl rfl

/-- A section other than `createConn` is a change that leaves the `closeConn` in progress alone, or a part of it that goes
ahead. -/
theorem step_cases {o : KcpOp} (ho : ∀ clifd buf msgs ms, o ≠ .createConn clifd buf msgs ms) (h : w.step o = .ok w') :
    (w.server.Change w'.server ∧ w'.closing = w.closing) ∨ w' = ⟨w.server, .idle⟩ ∨
      (∃ sessid p, w.server.mapSessFd[sessid]? = some p ∧ w' = ⟨w.server, .found sessid p⟩) ∨
      (∃ sessid p, w.closing = .found sessid p ∧ w' = ⟨w.server, .del sessid (w.server.conns p).fd⟩) ∨
      ∃ sessid fd, w.closing = .del sessid fd ∧ w' = ⟨w.server.delConn fd, .idle⟩ := by
  cases o with
  | createConn clifd buf msgs ms => exact absurd rfl (ho clifd buf msgs ms)
  | processMsg clifd msgs =>
    cases h
    exact .inl ⟨.inl (KCPServer.used_processMsg _ _ _), rfl⟩
  | scanTimeout ms =>
    cases h
    exact .inl ⟨.inl (KCPServer.used_scanTimeout _ _), rfl⟩
  | delTimeout =>
    cases h
    exact .inl ⟨KCPServer.change_delTimeout _, rfl⟩
  | dealMsg fd =>
    obtain ⟨s, hs, h⟩ := bind_eq_ok.mp h
    cases h
    exact .inl ⟨.inl (KCPServer.used_dealMsg hs).1, rfl⟩
  | setSessid old sessid =>
    obtain ⟨s, hs, h⟩ := bind_eq_ok.mp h
    cases h
    exact .inl ⟨KCPServer.change_setSessid hs, rfl⟩
  | rawCloseConn sessid =>
    cases h
    exact .inl ⟨KCPServer.change_rawCloseConn _ _, rfl⟩
  | closeLookup sessid =>
    rcases closeLookup_cases h with hidle | ⟨p, hp, hfound⟩
    · exact .inr (.inl hidle)
    · exact .inr (.inr (.inl ⟨sessid, p, hp, hfound⟩))
  | closeFd =>
    rcases closeFd_cases h with rfl | hdel
    · exact .inl ⟨.inl (.refl _), rfl⟩
    · exact .inr (.inr (.inr (.inl hdel)))
  | closeDel =>
    rcases closeDel_cases h with rfl | hidle
    · exact .inl ⟨.inl (.refl _), rfl⟩
    · exact .inr (.inr (.inr (.inr hidle)))

theorem change_step {o : KcpOp} (ho : ∀ clifd buf msgs ms, o ≠ .createConn clifd buf msgs ms) (h : w.step o = .ok w') :
    w.server.Change w'.server := by
  rcases step_cases ho h with ⟨hc, -⟩ | rfl | ⟨-, -, -, rfl⟩ | ⟨-, -, -, rfl⟩ | ⟨-, fd, -, rfl⟩
  · exact hc
  · exact .inl (.refl _)
  · exact .inl (.refl _)
  · exact .inl (.refl _)
  · exact KCPServer.change_delConn _ fd

theorem Allowed.none {clifd : Int} {buf : Bytes} {msgs : List Bytes} {ms : Nat}
    (h : w.Allowed (.createConn clifd buf msgs ms)) : w.server.mapConn[clifd]? = none := by
  rw [Option.eq_none_iff_forall_ne_some]
  exact fun p hp => h (mem_iff_exists.mpr ⟨p, hp⟩)

end KcpThreads

/-! ## The registry between the sections -/

namespace KCPServer
variable {s t : KCPServer}

theorem registry_used (hs : s.Registry) (h : Used s t) : t.Registry where
  free := by
    rw [h.pool]
    exact ⟨hs.free.nodup, fun p hp => h.next ▸ hs.free.lt_next p hp⟩
  sess hc := by
    rw [h.mapSessFd] at hc
    rw [(h.conns _).id, (h.conns _).fd, h.mapConn]
    exact hs.sess hc
  conn hc := by
    rw [h.mapConn] at hc
    rw [(h.conns _).fd, h.pool, h.next]
    exact hs.conn hc

theorem registry_change (hs : s.Registry) (h : Change s t) : t.Registry := by
  rcases h with h | ⟨fd, p, hp, h⟩
  · exact registry_used hs h
  · exact registry_used (registry_release hs hp) h

/-- Who is registered under a descriptor is registered under a session, with a control block; the pooled objects have
none, and the session ids count up. -/
structure Paired (s : KCPServer) : Prop extends Registry s where
  pair : ∀ {fd : Int} {c : Nat}, s.mapConn[fd]? = some c → s.mapSessFd[(s.conns c).id]? = some c
  live : ∀ {fd : Int} {c : Nat}, s.mapConn[fd]? = some c → (s.conns c).kcp.isSome = true
  dead : ∀ c ∈ s.pool, (s.conns c).kcp = none
  id_le : ∀ {sid : Int} {c : Nat}, s.mapSessFd[sid]? = some c → sid ≤ s.sessId
  sessId_nonneg : 0 ≤ s.sessId

theorem paired_withPool (n : Nat) : (withPool n).Paired where
  toRegistry := registry_withPool n
  pair h := by simp [withPool] at h
  live h := by simp [withPool] at h
  dead c _ := rfl
  id_le h := by simp [withPool] at h
  sessId_nonneg := le_rfl

theorem paired_used (hs : s.Paired) (h : Used s t) : t.Paired where
  toRegistry := registry_used hs.toRegistry h
  pair hc := by
    rw [h.mapConn] at hc
    rw [(h.conns _).id, h.mapSessFd]
    exact hs.pair hc
  live hc := by
    rw [h.mapConn] at hc
    rw [(h.conns _).kcp]
    exact hs.live hc
  dead c hc := by
    rw [h.pool] at hc
    rw [← Option.isNone_iff_eq_none, ← Option.not_isSome, (h.conns c).kcp, hs.dead c hc]
    rfl
  id_le hc := by
    rw [h.mapSessFd] at hc
    rw [h.sessId]
    exact hs.id_le hc
  sessId_nonneg := h.sessId ▸ hs.sessId_nonneg

theorem paired_release (hs : s.Paired) {fd : Int} {p : Nat} (h : s.mapConn[fd]? = some p) : (s.release fd p).Paired := by
  have hne : ∀ {fd' : Int} {c : Nat}, (s.release fd p).mapConn[fd']? = some c → c ≠ p ∧ s.mapConn[fd']? = some c := by
    intro fd' c hc
    obtain ⟨hfd, hold⟩ := erase_eq_some.mp hc
    refine ⟨?_, hold⟩
    rintro rfl
    exact hfd ((hs.conn hold).1.symm.trans (hs.conn h).1)
  have hconns : ∀ c, c ≠ p → (s.release fd p).conns c = s.conns c := fun c hc => Heap.set_of_ne _ hc _
  refine ⟨registry_release hs.toRegistry h, fun {fd' c} hc => ?_, fun {fd' c} hc => ?_, fun c hc => ?_,
    fun hc => hs.id_le (erase_eq_some.mp hc).2, hs.sessId_nonneg⟩
  · obtain ⟨hcp, hc⟩ := hne hc
    rw [hconns c hcp]
    apply erase_of_entry (hs.pair hc)
    rw [hs.pair h]
    exact fun hsome => hcp (Option.some.inj hsome).symm
  · obtain ⟨hcp, hc⟩ := hne hc
    rw [hconns c hcp]
    exact hs.live hc
  · by_cases hcp : c = p
    · subst hcp
      unfold release
      dsimp only
      rw [Heap.set_self]
      rfl
    · rw [hconns c hcp]
      rcases List.mem_append.mp hc with hc | hc
      · exact hs.dead c hc
      · exact absurd (List.mem_singleton.mp hc) hcp

theorem paired_change (hs : s.Paired) (h : Change s t) : t.Paired := by
  rcases h with h | ⟨fd, p, hp, h⟩
  · exact paired_used hs h
  · exact paired_used (paired_release hs hp) h

/-- What `createConn` does: the object it takes is registered nowhere, and the others stay as they are. -/
theorem createConn_spec (hs : s.Registry) (clifd : Int) (buf : Bytes) (msgs : List Bytes) (ms : Nat) :
    ∃ p c, (pop s.conns s.pool .new).1 = p ∧
      (s.createConn clifd buf msgs ms).mapConn = s.mapConn.insert clifd p ∧
      (s.createConn clifd buf msgs ms).mapSessFd = s.mapSessFd.insert (int32 (s.sessId + 1)) p ∧
      (s.createConn clifd buf msgs ms).conns p = UDPConn.init c clifd (int32 (s.sessId + 1)) buf msgs ms ∧
      (∀ q < s.conns.next, q ≠ p → (s.createConn clifd buf msgs ms).conns q = s.conns q) ∧
      (∀ (fd : Int) (q : Nat), s.mapConn[fd]? = some q → q ≠ p) ∧
      (∀ q ∈ (s.createConn clifd buf msgs ms).pool, q ∈ s.pool ∧ q ≠ p) ∧
      s.conns.next ≤ (s.createConn clifd buf msgs ms).conns.next := by
  obtain ⟨pcon, conns, pool, hpop⟩ : ∃ pcon conns pool, pop s.conns s.pool .new = (pcon, conns, pool) := ⟨_, _, _, rfl⟩
  obtain ⟨-, -, hnot, horigin, hle, hsub, hsame, -⟩ := hs.free.pop _ hpop
  refine ⟨pcon, conns pcon, by rw [hpop], ?_⟩
  unfold createConn
  rw [hpop]
  refine ⟨rfl, rfl, Heap.set_self _ _ _, fun q hq hne => ?_, fun fd q hq => ?_, fun q hq => ⟨hsub q hq, ?_⟩, hle⟩
  · dsimp only
    rw [Heap.set_of_ne _ hne, hsame q hq]
  · rintro rfl
    obtain ⟨-, hqpool, hqlt⟩ := hs.conn hq
    rcases horigin with hin | hnext
    · exact hqpool hin
    · omega
  · rintro rfl
    exact hnot hq

theorem paired_createConn (hs : s.Paired) {clifd : Int} (hfd : s.mapConn[clifd]? = none) (hid : s.sessId + 1 < 2 ^ 31)
    (buf : Bytes) (msgs : List Bytes) (ms : Nat) : (s.createConn clifd buf msgs ms).Paired := by
  have hpos := hs.sessId_nonneg
  have hint : int32 (s.sessId + 1) = s.sessId + 1 := int32_of_range (by omega) (by omega)
  obtain ⟨p, c₀, -, hconn, hsess, hnew, hsame, hfresh, hpool, -⟩ := createConn_spec hs.toRegistry clifd buf msgs ms
  have hold : ∀ {fd : Int} {c : Nat}, s.mapConn[fd]? = some c → (s.createConn clifd buf msgs ms).conns c = s.conns c :=
    fun hc => hsame _ (hs.conn hc).2.2 (hfresh _ _ hc)
  refine ⟨registry_createConn hs.toRegistry hfd buf msgs ms, fun {fd c} hc => ?_, fun {fd c} hc => ?_, fun c hc => ?_,
    fun {sid c} hc => ?_, ?_⟩
  · rw [hconn] at hc
    rw [hsess]
    rcases insert_eq_some.mp hc with ⟨rfl, rfl⟩ | ⟨-, hc⟩
    · rw [hnew]
      exact insert_eq_some.mpr (.inl ⟨rfl, rfl⟩)
    · rw [hold hc]
      have hle := hs.id_le (hs.pair hc)
      exact insert_eq_some.mpr (.inr ⟨by omega, hs.pair hc⟩)
  · rw [hconn] at hc
    rcases insert_eq_some.mp hc with ⟨rfl, rfl⟩ | ⟨-, hc⟩
    · rw [hnew]
      rfl
    · rw [hold hc]
      exact hs.live hc
  · obtain ⟨hin, hne⟩ := hpool c hc
    rw [hsame c (hs.free.lt_next c hin) hne]
    exact hs.dead c hin
  · rw [hsess] at hc
    show sid ≤ s.sessId + 1
    rcases insert_eq_some.mp hc with ⟨rfl, -⟩ | ⟨-, hc⟩
    · omega
    · have hle := hs.id_le hc
      omega
  · show 0 ≤ s.sessId + 1
    omega

end KCPServer

namespace KcpThreads
open KCPServer

/-- What holds between any two sections: the two maps hold the same objects, each under its own descriptor and its own
session id, once, with a control block and outside of the pool; the pool holds each object once, without one. -/
structure Sound (s : KCPServer) : Prop where
  same : ∀ c : Nat, (∃ fd : Int, s.mapConn[fd]? = some c) ↔ ∃ sid : Int, s.mapSessFd[sid]? = some c
  fd_eq : ∀ (fd : Int) (c : Nat), s.mapConn[fd]? = some c → (s.conns c).fd = fd
  id_eq : ∀ (sid : Int) (c : Nat), s.mapSessFd[sid]? = some c → (s.conns c).id = sid
  distinct : ∀ (fd fd' : Int) (c : Nat), s.mapConn[fd]? = some c → s.mapConn[fd']? = some c → fd = fd'
  distinct_id : ∀ (sid sid' : Int) (c : Nat), s.mapSessFd[sid]? = some c → s.mapSessFd[sid']? = some c → sid = sid'
  live : ∀ (fd : Int) (c : Nat), s.mapConn[fd]? = some c → (s.conns c).kcp.isSome = true ∧ c ∉ s.pool
  pool_nodup : s.pool.Nodup
  dead : ∀ c ∈ s.pool, (s.conns c).kcp = none

theorem sound_of_paired {s : KCPServer} (hs : s.Paired) : Sound s where
  same c := by
    constructor
    · rintro ⟨fd, hc⟩
      exact ⟨_, hs.pair hc⟩
    · rintro ⟨sid, hc⟩
      exact ⟨_, (hs.sess hc).2⟩
  fd_eq fd c hc := (hs.conn hc).1
  id_eq sid c hc := (hs.sess hc).1
  distinct fd fd' c hc hc' := (hs.conn hc).1.symm.trans (hs.conn hc').1
  distinct_id sid sid' c hc hc' := (hs.sess hc).1.symm.trans (hs.sess hc').1
  live fd c hc := ⟨hs.live hc, (hs.conn hc).2.1⟩
  pool_nodup := hs.free.nodup
  dead := hs.dead

/-- The session ids do not run out. -/
def Counted (w : KcpThreads) : KcpOp → Prop
  | .createConn _ _ _ _ => w.server.sessId + 1 < 2 ^ 31
  | _ => True

variable {w w' : KcpThreads}

theorem paired_step (hw : w.server.Paired) {o : KcpOp} (ho : w.Allowed o) (hcount : w.Counted o)
    (h : w.step o = .ok w') : w'.server.Paired := by
  by_cases hcreate : ∃ clifd buf msgs ms, o = .createConn clifd buf msgs ms
  · obtain ⟨clifd, buf, msgs, ms, rfl⟩ := hcreate
    cases h
    exact paired_createConn hw ho.none hcount buf msgs ms
  · apply paired_change hw
    exact change_step (fun clifd buf msgs ms heq => hcreate ⟨clifd, buf, msgs, ms, heq⟩) h

theorem registry_step (hw : w.server.Registry) {o : KcpOp} (ho : w.Allowed o) (h : w.step o = .ok w') :
    w'.server.Registry := by
  by_cases hcreate : ∃ clifd buf msgs ms, o = .createConn clifd buf msgs ms
  · obtain ⟨clifd, buf, msgs, ms, rfl⟩ := hcreate
    cases h
    exact registry_createConn hw ho.none buf msgs ms
  · apply registry_change hw
    exact change_step (fun clifd buf msgs ms heq => hcreate ⟨clifd, buf, msgs, ms, heq⟩) h

/-- **The registry between the sections.** However the sections of the two threads are interleaved, for new descriptors
that are not open and fewer than `2 ^ 31` sessions. -/
theorem sound_reach (n : Nat) (h : Reach step (fun w o => w.Allowed o ∧ w.Counted o) (start n) w) : Sound w.server := by
  apply sound_of_paired
  apply h.invariant (I := fun w => w.server.Paired)
  · exact paired_withPool n
  · intro w o w' hw ho hs
    exact paired_step hw ho.1 ho.2 hs

/-- The descriptor and the object of a session that has been closed are given to the next client. -/
theorem sound_client : ∃ w, Reach step (fun w o => w.Allowed o ∧ w.Counted o) (start 1) w ∧
    w.server.mapSessFd[(1 : Int)]? = none ∧ w.server.mapSessFd[(2 : Int)]? = some 0 ∧
    w.server.mapConn[(5 : Int)]? = some 0 ∧ Sound w.server := by
  have hfree : Allowed ⟨((withPool 1).createConn 5 [1, 0, 0, 0] [] 1000).rawCloseConn 1, .idle⟩
      (.createConn 5 [2, 0, 0, 0] [] 2000) := by
    unfold Allowed
    decide
  have hnew : (start 1).Allowed (.createConn 5 [1, 0, 0, 0] [] 1000) := by
    show (5 : Int) ∉ (∅ : Std.TreeMap Int Nat)
    exact Std.TreeMap.not_mem_emptyc
  have hcreate : (start 1).step (.createConn 5 [1, 0, 0, 0] [] 1000) =
      .ok ⟨(withPool 1).createConn 5 [1, 0, 0, 0] [] 1000, .idle⟩ := rfl
  have h₁ := Reach.refl.step (P := fun w o => Allowed w o ∧ Counted w o) (o := KcpOp.createConn 5 _ _ _)
    ⟨hnew, by unfold Counted; decide⟩ hcreate
  have h₂ := h₁.step (o := KcpOp.rawCloseConn 1) ⟨trivial, trivial⟩ rfl
  have h₃ := h₂.step (o := KcpOp.createConn 5 [2, 0, 0, 0] [] 2000) ⟨hfree, by unfold Counted; decide⟩ rfl
  exact ⟨_, h₃, rfl, rfl, rfl, sound_reach 1 h₃⟩

end KcpThreads

end KcpServer
