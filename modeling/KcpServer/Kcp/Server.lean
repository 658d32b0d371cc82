import KcpServer.Kcp.Conn
import KcpServer.Lib.Heap
import KcpServer.Lib.Map

/-!
# `KCPServer`: the KCP sessions of a game node

`UDPConn` objects are reused through a pool; a session is found by its id in `m_mapSessFd` and by its descriptor in
`m_mapConn`. `Registry` is what every operation keeps, also when the session ids, `int` values of a `long` counter, have
wrapped around and one overwrites another.
-/

namespace KcpServer
open Lib

def KCP_UDPCONN_SIZE : Nat := 8192

def KCP_CONN_TIMEOUT_FREQ_MS : Nat := 1000 * 2

/-- `KCPServer`, with the `UDPConn` objects and `delQue`, the queue of a call of `OnCheckTimeout` that has left its first
critical section. -/
structure KCPServer where
  conns : Heap UDPConn
  mapConn : Std.TreeMap Int Nat
  mapSessFd : Std.TreeMap Int Nat
  pool : List Nat
  sessId : Int
  lastTick : Nat
  delQue : List Int

namespace KCPServer

/-- A `KCPServer` without sessions and with `n` objects in the pool. -/
def withPool (n : Nat) : KCPServer where
  conns := .replicate n .new
  mapConn := ∅
  mapSessFd := ∅
  pool := List.range n
  sessId := 0
  lastTick := 0
  delQue := []

/-- `KCPServer::KCPServer` of a game node, which fills the pool. -/
def new : KCPServer := withPool KCP_UDPCONN_SIZE

/-- `KCPServer::rawGetConn` -/
def rawGetConn (s : KCPServer) (sessid : Int) : Option Nat := s.mapSessFd[sessid]?

/-- What `rawCloseConn` and `delConn` do with the entry `fd -> p` of `m_mapConn`, `pushUDPConn` included. -/
def release (s : KCPServer) (fd : Int) (p : Nat) : KCPServer :=
  { s with
    mapConn := s.mapConn.erase fd
    mapSessFd := s.mapSessFd.erase (s.conns p).id
    conns := s.conns.set p (s.conns p).close
    pool := s.pool ++ [p] }

/-- `KCPServer::delConn` -/
def delConn (s : KCPServer) (fd : Int) : KCPServer :=
  match s.mapConn[fd]? with
  | none => s
  | some p => s.release fd p

/-- `KCPServer::rawCloseConn` -/
def rawCloseConn (s : KCPServer) (sessid : Int) : KCPServer :=
  match s.rawGetConn sessid with
  | none => s
  | some pconn =>
    match s.mapConn[(s.conns pconn).fd]? with
    | none => s
    | some p => s.release (s.conns pconn).fd p

/-- `KCPServer::closeConn`, called with nothing else going on. -/
def closeConn (s : KCPServer) (sessid : Int) : KCPServer :=
  match s.rawGetConn sessid with
  | none => s
  | some pconn => s.delConn (s.conns pconn).fd

/-- `KCPServer::BindConn` -/
def bindConn (s : KCPServer) (sessid : Int) : KCPServer × Option Nat :=
  match s.rawGetConn sessid with
  | none => (s, none)
  | some pconn => ({ s with conns := s.conns.set pconn (s.conns pconn).setBind }, some pconn)

/-- `KCPServer::createConn`; `msgs` is what `ikcp_input` makes of the first datagram, `ms` is the clock. -/
def createConn (s : KCPServer) (clifd : Int) (buf : Bytes) (msgs : List Bytes) (ms : Nat) : KCPServer :=
  let sessId := s.sessId + 1
  let (pcon, conns, pool) := pop s.conns s.pool .new
  { s with
    sessId, pool
    conns := conns.set pcon ((conns pcon).init clifd (int32 sessId) buf msgs ms)
    mapConn := s.mapConn.insert clifd pcon
    mapSessFd := s.mapSessFd.insert (int32 sessId) pcon }

/-- The first critical section of `KCPServer::OnCheckTimeout`. -/
def scanTimeout (s : KCPServer) (ms : Nat) : KCPServer :=
  if s.lastTick = 0 then
    { s with lastTick := ms }
  else if uint32 (ms - s.lastTick : Int) > KCP_CONN_TIMEOUT_FREQ_MS then
    { s with
      delQue := (s.mapConn.toList.filter fun e => (s.conns e.2).onCheckTimeout ms).map Prod.fst
      lastTick := ms }
  else
    s

/-- The next `delConn` of `KCPServer::OnCheckTimeout`. -/
def delTimeout (s : KCPServer) : KCPServer :=
  match s.delQue with
  | [] => s
  | fd :: delQue => { s.delConn fd with delQue }

/-! ## The registry -/

/-- `m_mapSessFd`, `m_mapConn` and the pool: who is registered under a session id is registered under its descriptor,
who is registered under a descriptor is not in the pool. -/
structure Registry (s : KCPServer) : Prop where
  free : FreeList s.conns s.pool
  sess : ∀ {sid : Int} {c : Nat}, s.mapSessFd[sid]? = some c →
    (s.conns c).id = sid ∧ s.mapConn[(s.conns c).fd]? = some c
  conn : ∀ {fd : Int} {c : Nat}, s.mapConn[fd]? = some c → (s.conns c).fd = fd ∧ c ∉ s.pool ∧ c < s.conns.next

theorem registry_withPool (n : Nat) : (withPool n).Registry where
  free := FreeList.range _ _
  sess h := nomatch Std.TreeMap.getElem?_emptyc.symm.trans h
  conn h := nomatch Std.TreeMap.getElem?_emptyc.symm.trans h

variable {s : KCPServer}

/-- Both ways of closing a session delete its descriptor's entry. -/
theorem rawCloseConn_eq_closeConn (s : KCPServer) (sessid : Int) : s.rawCloseConn sessid = s.closeConn sessid := by
  unfold rawCloseConn closeConn delConn
  rfl

theorem Registry.not_mem_pool (hs : s.Registry) {sid : Int} {c : Nat} (h : s.mapSessFd[sid]? = some c) : c ∉ s.pool :=
  (hs.conn (hs.sess h).2).2.1

theorem release_fields (s : KCPServer) (fd : Int) (p q : Nat) :
    ((s.release fd p).conns q).id = (s.conns q).id ∧ ((s.release fd p).conns q).fd = (s.conns q).fd := by
  by_cases hq : q = p
  · subst hq
    simp [release, UDPConn.close]
  · simp [release, Heap.set_of_ne _ hq]

theorem registry_release (hs : s.Registry) {fd : Int} {p : Nat} (h : s.mapConn[fd]? = some p) :
    (s.release fd p).Registry := by
  obtain ⟨hpfd, hpool, hlt⟩ := hs.conn h
  have hfield := s.release_fields fd p
  refine ⟨(hs.free.set p _).push hpool hlt, fun {sid c} hc => ?_, fun {fd' c} hc => ?_⟩
  · obtain ⟨hne, hc⟩ := erase_eq_some.mp hc
    obtain ⟨hid, hconn⟩ := hs.sess hc
    rw [(hfield c).1, (hfield c).2]
    refine ⟨hid, erase_eq_some.mpr ⟨?_, hconn⟩⟩
    intro hfd
    rw [hfd, h] at hconn
    cases hconn
    exact hne hid.symm
  · obtain ⟨hne, hc⟩ := erase_eq_some.mp hc
    obtain ⟨hcfd, hcpool, hclt⟩ := hs.conn hc
    rw [(hfield c).2]
    refine ⟨hcfd, ?_, hclt⟩
    intro hmem
    rcases List.mem_append.mp hmem with hmem | hmem
    · exact hcpool hmem
    · rw [List.mem_singleton.mp hmem] at hcfd
      exact hne (hcfd.symm.trans hpfd)

theorem delConn_eq (s : KCPServer) (fd : Int) :
    s.delConn fd = s ∨ ∃ p, s.mapConn[fd]? = some p ∧ s.delConn fd = s.release fd p := by
  unfold delConn
  split
  · exact Or.inl rfl
  · next p hp => exact Or.inr ⟨p, hp, rfl⟩

theorem registry_delConn (hs : s.Registry) (fd : Int) : (s.delConn fd).Registry := by
  rcases s.delConn_eq fd with heq | ⟨p, hp, heq⟩
  · rw [heq]; exact hs
  · rw [heq]; exact registry_release hs hp

theorem closeConn_eq (hs : s.Registry) (sessid : Int) : (s.mapSessFd[sessid]? = none ∧ s.closeConn sessid = s) ∨
    ∃ p, s.mapSessFd[sessid]? = some p ∧ s.closeConn sessid = s.release (s.conns p).fd p := by
  unfold closeConn rawGetConn
  cases h : s.mapSessFd[sessid]? with
  | none => exact Or.inl ⟨rfl, rfl⟩
  | some p =>
    refine Or.inr ⟨p, rfl, ?_⟩
    dsimp only
    rw [delConn, (hs.sess h).2]

theorem registry_closeConn (hs : s.Registry) (sessid : Int) : (s.closeConn sessid).Registry := by
  rcases closeConn_eq hs sessid with ⟨-, heq⟩ | ⟨p, hp, heq⟩
  · rw [heq]; exact hs
  · rw [heq]; exact registry_release hs (hs.sess hp).2

/-- What closing a session leaves registered: the same as before, without that session. -/
theorem mapSessFd_closeConn (hs : s.Registry) (sessid sid : Int) (c : Nat) :
    (s.closeConn sessid).mapSessFd[sid]? = some c ↔ sid ≠ sessid ∧ s.mapSessFd[sid]? = some c := by
  rcases closeConn_eq hs sessid with ⟨hnone, heq⟩ | ⟨p, hp, heq⟩
  · rw [heq]
    refine ⟨fun h => ⟨?_, h⟩, fun h => h.2⟩
    rintro rfl
    rw [hnone] at h
    cases h
  · rw [heq]
    change (s.mapSessFd.erase (s.conns p).id)[sid]? = some c ↔ _
    rw [erase_eq_some, (hs.sess hp).1]

theorem mapConn_closeConn (hs : s.Registry) {sessid fd : Int} {c : Nat} (hc : s.mapConn[fd]? = some c) :
    (s.closeConn sessid).mapConn[fd]? = some c ∨ s.mapSessFd[sessid]? = some c := by
  rcases closeConn_eq hs sessid with ⟨-, heq⟩ | ⟨p, hp, heq⟩
  · rw [heq]
    exact Or.inl hc
  · rw [heq]
    by_cases hfd : fd = (s.conns p).fd
    · subst hfd
      rw [(hs.sess hp).2] at hc
      cases hc
      exact Or.inr hp
    · exact Or.inl (erase_eq_some.mpr ⟨hfd, hc⟩)

theorem bindConn_fields (s : KCPServer) (sessid : Int) (q : Nat) :
    ((s.bindConn sessid).1.conns q).id = (s.conns q).id ∧ ((s.bindConn sessid).1.conns q).fd = (s.conns q).fd := by
  unfold bindConn
  split
  · exact ⟨rfl, rfl⟩
  · next p hp =>
    by_cases hq : q = p
    · subst hq
      simp [UDPConn.setBind]
    · simp [Heap.set_of_ne _ hq]

theorem registry_bindConn (hs : s.Registry) (sessid : Int) : (s.bindConn sessid).1.Registry := by
  unfold bindConn
  split
  · exact hs
  · next p hp =>
    have hfield := s.bindConn_fields sessid
    simp only [bindConn, hp] at hfield
    refine ⟨hs.free.set p _, fun {sid c} hc => ?_, fun {fd c} hc => ?_⟩
    · dsimp only
      rw [(hfield c).1, (hfield c).2]
      exact hs.sess hc
    · dsimp only
      rw [(hfield c).2]
      exact hs.conn hc

theorem registry_createConn (hs : s.Registry) {clifd : Int} (hfd : s.mapConn[clifd]? = none) (buf : Bytes)
    (msgs : List Bytes) (ms : Nat) : (s.createConn clifd buf msgs ms).Registry := by
  obtain ⟨pcon, conns, pool, hpop⟩ : ∃ pcon conns pool, pop s.conns s.pool .new = (pcon, conns, pool) := ⟨_, _, _, rfl⟩
  obtain ⟨hfree, hlt, hnot, horigin, hle, hsub, hsame, -⟩ := hs.free.pop _ hpop
  have hnew : ∀ {fd : Int} {c : Nat}, s.mapConn[fd]? = some c → c ≠ pcon := by
    rintro fd c hc rfl
    obtain ⟨-, hcpool, hclt⟩ := hs.conn hc
    rcases horigin with hin | hnext
    · exact hcpool hin
    · omega
  have hold : ∀ {fd : Int} {c : Nat}, s.mapConn[fd]? = some c →
      conns.set pcon ((conns pcon).init clifd (int32 (s.sessId + 1)) buf msgs ms) c = s.conns c := by
    intro fd c hc
    rw [Heap.set_of_ne _ (hnew hc), hsame c (hs.conn hc).2.2]
  rw [createConn, hpop]
  refine ⟨hfree.set _ _, fun {sid c} hc => ?_, fun {fd c} hc => ?_⟩
  · rcases insert_eq_some.mp hc with ⟨rfl, rfl⟩ | ⟨-, hc⟩
    · dsimp only
      rw [Heap.set_self]
      exact ⟨rfl, insert_eq_some.mpr (Or.inl ⟨rfl, rfl⟩)⟩
    · obtain ⟨hid, hconn⟩ := hs.sess hc
      dsimp only
      rw [hold hconn]
      refine ⟨hid, insert_eq_some.mpr (Or.inr ⟨?_, hconn⟩)⟩
      intro heq
      rw [heq, hfd] at hconn
      cases hconn
  · rcases insert_eq_some.mp hc with ⟨rfl, rfl⟩ | ⟨-, hc⟩
    · dsimp only
      rw [Heap.set_self]
      exact ⟨rfl, hnot, hlt⟩
    · obtain ⟨hcfd, hcpool, hclt⟩ := hs.conn hc
      dsimp only
      rw [hold hc]
      exact ⟨hcfd, fun h => hcpool (hsub c h), lt_of_lt_of_le hclt hle⟩

theorem registry_scanTimeout (hs : s.Registry) (ms : Nat) : (s.scanTimeout ms).Registry := by
  unfold scanTimeout
  split
  · exact ⟨hs.free, hs.sess, hs.conn⟩
  · split
    · exact ⟨hs.free, hs.sess, hs.conn⟩
    · exact hs

theorem registry_delTimeout (hs : s.Registry) : s.delTimeout.Registry := by
  unfold delTimeout
  split
  · exact hs
  · next fd delQue _ =>
    have h := registry_delConn hs fd
    exact ⟨h.free, h.sess, h.conn⟩

/-! ## Sessions that stay open -/

/-- A session that is open stays open, with the same object. -/
def StaysOpen (s s' : KCPServer) (sid : Int) : Prop := ∀ c, s.mapSessFd[sid]? = some c → s'.mapSessFd[sid]? = some c

section StaysOpen
variable {s' s'' : KCPServer} {sid : Int}

theorem StaysOpen.refl (s : KCPServer) (sid : Int) : StaysOpen s s sid := fun _ h => h

theorem StaysOpen.trans (h : StaysOpen s s' sid) (h' : StaysOpen s' s'' sid) : StaysOpen s s'' sid :=
  fun c hc => h' c (h c hc)

theorem staysOpen_closeConn (hs : s.Registry) {sessid : Int} (hne : sid ≠ sessid) :
    StaysOpen s (s.closeConn sessid) sid := fun c hc => (mapSessFd_closeConn hs sessid sid c).mpr ⟨hne, hc⟩

theorem mapSessFd_bindConn (s : KCPServer) (sessid : Int) : (s.bindConn sessid).1.mapSessFd = s.mapSessFd := by
  unfold bindConn
  split <;> rfl

theorem mapSessFd_scanTimeout (s : KCPServer) (ms : Nat) : (s.scanTimeout ms).mapSessFd = s.mapSessFd := by
  unfold scanTimeout
  split
  · rfl
  · split <;> rfl

/-- A new session replaces one that has the same `int`. -/
theorem staysOpen_createConn {clifd : Int} {buf : Bytes} {msgs : List Bytes} {ms : Nat}
    (hne : sid ≠ int32 (s.sessId + 1)) : StaysOpen s (s.createConn clifd buf msgs ms) sid :=
  fun _ hc => insert_eq_some.mpr (Or.inr ⟨hne, hc⟩)

theorem staysOpen_delTimeout (h : ∀ fd ∈ s.delQue.head?, ∀ c ∈ s.mapConn[fd]?, sid ≠ (s.conns c).id) :
    StaysOpen s s.delTimeout sid := by
  unfold delTimeout
  split
  · exact .refl s sid
  · next fd delQue hque =>
    rw [hque] at h
    rcases s.delConn_eq fd with heq | ⟨p, hp, heq⟩
    · rw [heq]
      exact .refl s sid
    · rw [heq]
      exact fun c hc => erase_eq_some.mpr ⟨h fd rfl p hp, hc⟩

end StaysOpen

end KCPServer

end KcpServer
