import KcpServer.Tcp.Client
import KcpServer.Lib.Transition

/-!
# The clients under their names and descriptors

`createTcpclient` files a client under its name and under its descriptor; a reconnect gives it another descriptor and
files nothing. `registered_iff` : a client is found until a reconnect gets another descriptor than the one it closes, or a
name is used twice.
-/

namespace KcpServer
open Lib

/-! ## What the calls change -/

namespace TcpClient
variable {name : ServerName} {s s' : SendPool} {c c' : TcpClient}

theorem appendSend_eq {m : RpcMsg} (h : c.appendSend name s m = .ok (s', c')) : ∃ q, c' = { c with send := q } := by
  obtain ⟨⟨s₁, q⟩, -, h⟩ := bind_eq_ok.mp h
  cases h
  exact ⟨q, rfl⟩

theorem onClose_eq {fd : Int} (h : c.onClose name s false fd = .ok (s', c')) :
    ∃ q, c' = { c with sock := fd, send := q } := by
  rw [onClose, if_neg Bool.false_ne_true] at h
  exact appendSend_eq h

/-- The read that finds the connection broken. -/
def Disconnects (c : TcpClient) (r : ReadRes) : Prop := c.recvOffset < RPC_BUFF_SIZE ∧ (r = .error ∨ r = .data [])

/-- A read leaves the name and the descriptor, and calls `DelConn` exactly if it finds the connection broken. -/
theorem onRead_del {r : ReadRes} {ret : Int} {del : Bool} (h : c.onRead r = .ok (c', ret, del)) :
    c'.sock = c.sock ∧ c'.name = c.name ∧ (del = true ↔ c.Disconnects r) := by
  unfold onRead at h
  rw [Disconnects]
  split at h
  · cases h
    refine ⟨rfl, rfl, ?_⟩
    simp
    omega
  · next hroom =>
    cases r with
    | error =>
      cases h
      exact ⟨rfl, rfl, by simpa using hroom⟩
    | again =>
      cases h
      exact ⟨rfl, rfl, by simp⟩
    | data bs =>
      obtain ⟨m, -, h⟩ := bind_eq_ok.mp h
      split at h
      · next hlen =>
        cases h
        exact ⟨rfl, rfl, by simpa [List.length_eq_zero_iff.mp hlen] using hroom⟩
      · next hlen =>
        cases h
        exact ⟨rfl, rfl, by simp [List.length_eq_zero_iff.not.mp hlen]⟩

end TcpClient

namespace TcpClientMgr
variable {name : ServerName} {g g' : TcpClientMgr}

theorem createTcpclient_eq {client : TcpClient} {fd : Int} (h : g.createTcpclient name client fd = .ok g') :
    ∃ c, c.sock = fd ∧ c.name = client.name ∧ g'.clients = (g.clients.alloc c).2 ∧
      g'.mapTcpClient = g.mapTcpClient.insert client.name.bytes fd ∧
      g'.mapFdTcpClient = g.mapFdTcpClient.insert fd g.clients.next := by
  obtain ⟨⟨s, c⟩, hconn, h⟩ := bind_eq_ok.mp h
  obtain ⟨q, rfl⟩ := TcpClient.appendSend_eq hconn
  cases h
  exact ⟨{ client.initSock fd with send := q }, rfl, rfl, rfl, rfl, rfl⟩

/-- A `DelConn` that finds a client reconnects it. -/
theorem delConn_eq {fd newFd : Int} {p : Nat} (hp : g.mapFdTcpClient[fd]? = some p) {b : Bool}
    (h : g.delConn name fd newFd = .ok (g', b)) :
    b = true ∧ ∃ c, c.sock = newFd ∧ c.name = (g.clients p).name ∧ g'.clients = g.clients.set p c ∧
      g'.mapTcpClient = g.mapTcpClient ∧ g'.mapFdTcpClient = g.mapFdTcpClient := by
  rw [delConn, hp] at h
  obtain ⟨⟨s, c⟩, hclose, h⟩ := bind_eq_ok.mp h
  obtain ⟨q, rfl⟩ := TcpClient.onClose_eq hclose
  cases h
  exact ⟨rfl, { g.clients p with sock := newFd, send := q }, rfl, rfl, rfl, rfl, rfl⟩

/-- Every client is found under its descriptor, and its name leads to that descriptor. -/
def Registered (g : TcpClientMgr) : Prop :=
  ∀ p < g.clients.next, g.mapFdTcpClient[(g.clients p).sock]? = some p ∧
    g.mapTcpClient[(g.clients p).name.bytes]? = some (g.clients p).sock

theorem Registered.getTcpClient (h : g.Registered) {p : Nat} (hp : p < g.clients.next) :
    g.getTcpClient (g.clients p).name.bytes = some p := by
  rw [TcpClientMgr.getTcpClient, (h p hp).2, Option.bind_some, getTcpClientByFd, (h p hp).1]

end TcpClientMgr

/-! ## Runs -/

/-- The manager and the descriptors that are open in the process. -/
structure RegWorld where
  mgr : TcpClientMgr
  openFds : Finset Int

/-- A new client is connected; `DelConn` is called; a client reads, and `DelConn`s itself if its connection is broken; a
client gets a message to send; other threads open and close descriptors of theirs. `fd` and `newFd` are what `socket`
returns. -/
inductive RegOp
  | create (client : TcpClient) (fd : Int)
  | delConn (fd newFd : Int)
  | onRead (p : Nat) (r : ReadRes) (newFd : Int)
  | appendSend (p : Nat) (m : RpcMsg)
  | opened (fd : Int)
  | closed (fd : Int)

namespace RegWorld
open TcpClientMgr

/-- `DelConn` closes the client's descriptor and opens another one. -/
def delConn (name : ServerName) (w : RegWorld) (fd newFd : Int) : Except Fault RegWorld := do
  let (mgr, _) ← w.mgr.delConn name fd newFd
  match w.mgr.getTcpClientByFd fd with
  | none => return { w with mgr }
  | some p => return ⟨mgr, insert newFd (w.openFds.erase (w.mgr.clients p).sock)⟩

def step (name : ServerName) (w : RegWorld) : RegOp → Except Fault RegWorld
  | .create client fd => do
    return ⟨← w.mgr.createTcpclient name client fd, insert fd w.openFds⟩
  | .delConn fd newFd => w.delConn name fd newFd
  | .onRead p r newFd => do
    let (c, _, del) ← (w.mgr.clients p).onRead r
    let w := { w with mgr := { w.mgr with clients := w.mgr.clients.set p c } }
    if del then w.delConn name c.sock newFd else return w
  | .appendSend p m => do
    let (sendPool, c) ← (w.mgr.clients p).appendSend name w.mgr.sendPool m
    return { w with mgr := { w.mgr with sendPool, clients := w.mgr.clients.set p c } }
  | .opened fd => return { w with openFds := insert fd w.openFds }
  | .closed fd => return { w with openFds := w.openFds.erase fd }

/-- `socket` returns a descriptor that is not open at that moment, which is after the old one has been closed. -/
def NewFd (w : RegWorld) (fd newFd : Int) : Prop :=
  ∀ p, w.mgr.getTcpClientByFd fd = some p → newFd ∉ w.openFds.erase (w.mgr.clients p).sock

/-- The calls are on created clients, the kernel gives out descriptors that are not open, and the other threads close
none of the clients'. -/
def Allowed (w : RegWorld) : RegOp → Prop
  | .create _ fd => fd ∉ w.openFds
  | .delConn fd newFd => w.NewFd fd newFd
  | .onRead p _ newFd => p < w.mgr.clients.next ∧ w.NewFd (w.mgr.clients p).sock newFd
  | .appendSend p _ => p < w.mgr.clients.next
  | .opened fd => fd ∉ w.openFds
  | .closed fd => ∀ p < w.mgr.clients.next, (w.mgr.clients p).sock ≠ fd

/-- No name is used twice, and a reconnect gets the descriptor that it has just closed. -/
def Same (w : RegWorld) : RegOp → Prop
  | .create client _ => client.name.bytes ∉ w.mgr.mapTcpClient
  | .delConn fd newFd => fd ∈ w.mgr.mapFdTcpClient → newFd = fd
  | .onRead p r newFd => (w.mgr.clients p).Disconnects r → newFd = (w.mgr.clients p).sock
  | _ => True

structure Inv (w : RegWorld) : Prop where
  registered : w.mgr.Registered
  isOpen : ∀ p < w.mgr.clients.next, (w.mgr.clients p).sock ∈ w.openFds
  byFd : ∀ {fd p}, w.mgr.mapFdTcpClient[fd]? = some p → p < w.mgr.clients.next ∧ (w.mgr.clients p).sock = fd
  byName : ∀ {n fd}, w.mgr.mapTcpClient[n]? = some fd → ∃ p < w.mgr.clients.next, (w.mgr.clients p).name.bytes = n

theorem Inv.mono {w w' : RegWorld} (h : w.Inv) (hname : w'.mgr.mapTcpClient = w.mgr.mapTcpClient)
    (hfd : w'.mgr.mapFdTcpClient = w.mgr.mapFdTcpClient) (hnext : w'.mgr.clients.next = w.mgr.clients.next)
    (hsame : ∀ p, (w'.mgr.clients p).sock = (w.mgr.clients p).sock ∧ (w'.mgr.clients p).name = (w.mgr.clients p).name)
    (hopen : ∀ p < w.mgr.clients.next, (w.mgr.clients p).sock ∈ w'.openFds) : w'.Inv where
  registered p hp := by
    obtain ⟨hs, hn⟩ := hsame p
    rw [hs, hn, hname, hfd]
    exact h.registered p (hnext ▸ hp)
  isOpen p hp := by
    rw [(hsame p).1]
    exact hopen p (hnext ▸ hp)
  byFd hp := by
    rw [hfd] at hp
    rw [hnext, (hsame _).1]
    exact h.byFd hp
  byName hn := by
    rw [hname] at hn
    obtain ⟨p, hp, hpn⟩ := h.byName hn
    refine ⟨p, hnext ▸ hp, ?_⟩
    rw [(hsame p).2]
    exact hpn

theorem inv_set {w : RegWorld} (h : w.Inv) {p : Nat} {c : TcpClient} (hsock : c.sock = (w.mgr.clients p).sock)
    (hname : c.name = (w.mgr.clients p).name) (sendPool : SendPool) :
    Inv { w with mgr := { w.mgr with sendPool, clients := w.mgr.clients.set p c } } := by
  apply h.mono
  · rfl
  · rfl
  · rfl
  · intro q
    by_cases hq : q = p
    · subst hq
      simp [hsock, hname]
    · simp [Heap.set_of_ne _ hq]
  · exact h.isOpen

theorem inv_create {name : ServerName} {w w' : RegWorld} (h : w.Inv) {client : TcpClient} {fd : Int}
    (hfd : fd ∉ w.openFds) (hnew : client.name.bytes ∉ w.mgr.mapTcpClient)
    (hs : w.step name (.create client fd) = .ok w') : w'.Inv := by
  obtain ⟨g, hg, hs⟩ := bind_eq_ok.mp hs
  cases hs
  obtain ⟨c, hsock, hname, hclients, hmapName, hmapFd⟩ := createTcpclient_eq hg
  have hold : ∀ p < w.mgr.clients.next, g.clients p = w.mgr.clients p ∧ (w.mgr.clients p).sock ≠ fd ∧
      (w.mgr.clients p).name.bytes ≠ client.name.bytes := by
    intro p hp
    refine ⟨by rw [hclients, Heap.alloc_of_lt _ hp], ?_, ?_⟩
    · rintro rfl
      exact hfd (h.isOpen p hp)
    · intro heq
      apply hnew
      rw [← heq]
      exact mem_iff_exists.mpr ⟨_, (h.registered p hp).2⟩
  have hself : g.clients w.mgr.clients.next = c := by rw [hclients, Heap.alloc_self]
  have hnext : g.clients.next = w.mgr.clients.next + 1 := by rw [hclients, Heap.alloc_next]
  refine ⟨?_, ?_, ?_, ?_⟩
  · intro p hp
    rcases Nat.lt_succ_iff_lt_or_eq.mp (hnext ▸ hp) with hp | rfl
    · obtain ⟨heq, hfd', hname'⟩ := hold p hp
      simp only [heq, hmapName, hmapFd]
      rw [getElem?_insert_of_ne hfd', getElem?_insert_of_ne hname']
      exact h.registered p hp
    · simp [hself, hmapName, hmapFd, hsock, hname]
  · intro p hp
    rcases Nat.lt_succ_iff_lt_or_eq.mp (hnext ▸ hp) with hp | rfl
    · simp only [(hold p hp).1]
      exact Finset.mem_insert_of_mem (h.isOpen p hp)
    · simp [hself, hsock]
  · intro fd' p hp
    simp only [hmapFd, hnext] at hp ⊢
    rcases insert_eq_some.mp hp with ⟨rfl, rfl⟩ | ⟨-, hp⟩
    · exact ⟨Nat.lt_succ_self _, by rw [hself, hsock]⟩
    · obtain ⟨hlt, hsock'⟩ := h.byFd hp
      exact ⟨by omega, by rw [(hold p hlt).1, hsock']⟩
  · intro n fd' hn
    simp only [hmapName, hnext] at hn ⊢
    rcases insert_eq_some.mp hn with ⟨rfl, -⟩ | ⟨-, hn⟩
    · exact ⟨_, Nat.lt_succ_self _, by rw [hself, hname]⟩
    · obtain ⟨p, hp, hpn⟩ := h.byName hn
      exact ⟨p, by omega, by rw [(hold p hp).1, hpn]⟩

/-- A name that is used again: the client that had it is not found any more. -/
theorem not_registered_create {name : ServerName} {w w' : RegWorld} (h : w.Inv) {client : TcpClient} {fd : Int}
    (hfd : fd ∉ w.openFds) (hused : client.name.bytes ∈ w.mgr.mapTcpClient)
    (hs : w.step name (.create client fd) = .ok w') : ¬ w'.mgr.Registered := by
  obtain ⟨g, hg, hs⟩ := bind_eq_ok.mp hs
  cases hs
  obtain ⟨c, hsock, hname, hclients, hmapName, hmapFd⟩ := createTcpclient_eq hg
  obtain ⟨fd', hfd'⟩ := mem_iff_exists.mp hused
  obtain ⟨p, hp, hpn⟩ := h.byName hfd'
  intro hreg
  have hlt : p < g.clients.next := by
    rw [hclients, Heap.alloc_next]
    omega
  have hfound := (hreg p hlt).2
  simp only [hclients, Heap.alloc_of_lt _ hp, hmapName, hpn, Std.TreeMap.getElem?_insert_self] at hfound
  apply hfd
  rw [Option.some.inj hfound]
  exact h.isOpen p hp

/-- A reconnect keeps the client registered exactly if it gets the descriptor back that it closes. -/
theorem delConn_iff {name : ServerName} {w w' : RegWorld} (h : w.Inv) {fd newFd : Int}
    (hs : w.delConn name fd newFd = .ok w') :
    ((fd ∈ w.mgr.mapFdTcpClient → newFd = fd) → w'.Inv) ∧
      (w'.mgr.Registered → fd ∈ w.mgr.mapFdTcpClient → newFd = fd) := by
  obtain ⟨⟨g, b⟩, hg, hs⟩ := bind_eq_ok.mp hs
  cases hfind : w.mgr.mapFdTcpClient[fd]? with
  | none =>
    have hnot : fd ∉ w.mgr.mapFdTcpClient := by
      simp [mem_iff_exists, hfind]
    rw [TcpClientMgr.delConn, hfind] at hg
    simp only [getTcpClientByFd, hfind] at hs
    cases hg
    cases hs
    exact ⟨fun _ => h, fun _ hmem => absurd hmem hnot⟩
  | some p =>
    have hmem : fd ∈ w.mgr.mapFdTcpClient := mem_iff_exists.mpr ⟨p, hfind⟩
    obtain ⟨-, c, hsock, hname, hclients, hmapName, hmapFd⟩ := delConn_eq hfind hg
    obtain ⟨hp, rfl⟩ := h.byFd hfind
    simp only [getTcpClientByFd, hfind] at hs
    cases hs
    constructor
    · intro heq
      have hback : newFd = (w.mgr.clients p).sock := heq hmem
      apply h.mono hmapName hmapFd (by rw [hclients, Heap.set_next])
      · intro q
        by_cases hq : q = p
        · subst hq
          simp [hclients, hsock, hname, hback]
        · simp [hclients, Heap.set_of_ne _ hq]
      · intro q hq
        by_cases hqs : (w.mgr.clients q).sock = (w.mgr.clients p).sock
        · rw [hqs, hback]
          exact Finset.mem_insert_self _ _
        · exact Finset.mem_insert_of_mem (Finset.mem_erase.mpr ⟨hqs, h.isOpen q hq⟩)
    · intro hreg _
      by_contra hne
      -- the new descriptor is no key, because every key is open
      obtain ⟨hfound, -⟩ := hreg p (by rw [hclients, Heap.set_next]; exact hp)
      simp only [hclients, Heap.set_self, hsock, hmapFd] at hfound
      obtain ⟨hq, hqs⟩ := h.byFd hfound
      exact hne hqs.symm

/-- A call keeps the clients registered exactly if it meets the condition. -/
theorem step_iff {name : ServerName} {w w' : RegWorld} (h : w.Inv) {o : RegOp} (ho : w.Allowed o)
    (hs : w.step name o = .ok w') : (w.Same o → w'.Inv) ∧ (w'.mgr.Registered → w.Same o) := by
  cases o with
  | create client fd =>
    refine ⟨fun hsame => inv_create h ho hsame hs, fun hreg => ?_⟩
    by_contra hused
    exact not_registered_create h ho (not_not.mp hused) hs hreg
  | delConn fd newFd => exact delConn_iff h hs
  | onRead p r newFd =>
    obtain ⟨⟨c, ret, del⟩, hread, hs⟩ := bind_eq_ok.mp hs
    obtain ⟨hsock, hname, hdel⟩ := TcpClient.onRead_del hread
    have hinv := inv_set h hsock hname w.mgr.sendPool
    cases del with
    | false =>
      cases hs
      refine ⟨fun _ => hinv, fun _ hd => ?_⟩
      exact absurd (hdel.mpr hd) Bool.false_ne_true
    | true =>
      obtain ⟨hkeep, hlose⟩ := delConn_iff hinv hs
      have hmem : c.sock ∈ w.mgr.mapFdTcpClient := by
        rw [hsock]
        exact mem_iff_exists.mpr ⟨p, (h.registered p ho.1).1⟩
      refine ⟨fun hsame => hkeep fun _ => ?_, fun hreg _ => ?_⟩
      · rw [hsock]
        exact hsame (hdel.mp rfl)
      · rw [← hsock]
        exact hlose hreg hmem
  | appendSend p m =>
    obtain ⟨⟨s, c⟩, happ, hs⟩ := bind_eq_ok.mp hs
    obtain ⟨q, rfl⟩ := TcpClient.appendSend_eq happ
    cases hs
    exact ⟨fun _ => inv_set h (c := { w.mgr.clients p with send := q }) rfl rfl s, fun _ => trivial⟩
  | opened fd =>
    cases hs
    refine ⟨fun _ => h.mono rfl rfl rfl (fun p => ⟨rfl, rfl⟩) fun p hp => ?_, fun _ => trivial⟩
    exact Finset.mem_insert_of_mem (h.isOpen p hp)
  | closed fd =>
    cases hs
    refine ⟨fun _ => h.mono rfl rfl rfl (fun p => ⟨rfl, rfl⟩) fun p hp => ?_, fun _ => trivial⟩
    exact Finset.mem_erase.mpr ⟨ho p hp, h.isOpen p hp⟩

/-- No client, and any descriptors open. -/
def start (openFds : Finset Int) : RegWorld := ⟨.new, openFds⟩

theorem inv_start (openFds : Finset Int) : (start openFds).Inv where
  registered p hp := absurd hp (Nat.not_lt_zero p)
  isOpen p hp := absurd hp (Nat.not_lt_zero p)
  byFd hp := by simp [start, TcpClientMgr.new] at hp
  byName hn := by simp [start, TcpClientMgr.new] at hn

/-- **The clients under their names and descriptors.** While no name is used twice and every reconnect gets the
descriptor back that it closes, every client stays registered, and a `DelConn` of its descriptor that returns has
reconnected it. There the next call keeps the clients registered exactly if it meets this condition too. -/
theorem registered_iff (name : ServerName) (openFds : Finset Int) {w : RegWorld}
    (h : Reach (step name) (fun w o => w.Allowed o ∧ w.Same o) (start openFds) w) :
    w.mgr.Registered ∧
    (∀ p < w.mgr.clients.next, ∀ newFd g b, w.mgr.delConn name (w.mgr.clients p).sock newFd = .ok (g, b) →
      b = true ∧ (g.clients p).sock = newFd) ∧
    ∀ o w', w.Allowed o → step name w o = .ok w' → (w'.mgr.Registered ↔ w.Same o) := by
  have hinv : w.Inv := by
    apply h.invariant (inv_start openFds)
    intro w o w' hw ho hs
    exact (step_iff hw ho.1 hs).1 ho.2
  refine ⟨hinv.registered, ?_, ?_⟩
  · intro p hp newFd g b hdel
    obtain ⟨hb, c, hsock, -, hclients, -⟩ := delConn_eq (hinv.registered p hp).1 hdel
    refine ⟨hb, ?_⟩
    rw [hclients, Heap.set_self, hsock]
  · intro o w' ho hs
    obtain ⟨hkeep, hlose⟩ := step_iff hinv ho hs
    exact ⟨hlose, fun hsame => (hkeep hsame).registered⟩

theorem create_gate1 : ∃ p, p.offset = recordSize game1 takeProxy ∧
    (start {0, 1, 2, 3, 4}).step game1 (.create TcpClient.gate1New 5) = .ok
      ⟨{ TcpClientMgr.new with
          mapTcpClient := TcpClientMgr.new.mapTcpClient.insert TcpClient.gate1New.name.bytes 5
          mapFdTcpClient := TcpClientMgr.new.mapFdTcpClient.insert 5 0
          clients := (TcpClientMgr.new.clients.alloc { TcpClient.gate1New with sock := 5, send := ⟨some p, []⟩ }).2
          sendPool := ⟨[], 1⟩ }, insert 5 {0, 1, 2, 3, 4}⟩ := by
  obtain ⟨p, hoff, hcreate⟩ := createTcpclient_gate1
  refine ⟨p, hoff, ?_⟩
  simp only [step, start, hcreate]
  rfl

/-- A reconnect of a client whose current cache has room for another `TakeProxy`. -/
theorem delConn_ok (name : ServerName) (g : TcpClientMgr) {fd : Int} {p : Nat} {c : SendCache} {queue : List SendCache}
    (hp : g.mapFdTcpClient[fd]? = some p) (hsend : (g.clients p).send = ⟨some c, queue⟩)
    (hfit : c.offset + recordSize name takeProxy ≤ RPC_BUFF_SIZE) (newFd : Int) :
    ∃ g' c', g.delConn name fd newFd = .ok (g', true) ∧ (g'.clients p).sock = newFd ∧
      (g'.clients p).send = ⟨some c', queue⟩ ∧ c'.offset = c.offset + recordSize name takeProxy ∧
      g'.clients.next = g.clients.next ∧ g'.mapFdTcpClient = g.mapFdTcpClient := by
  obtain ⟨c', happ, hoff, -⟩ := SendQueue.appendSend_here name g.sendPool queue hfit
  refine ⟨{ g with clients := g.clients.set p { g.clients p with sock := newFd, send := ⟨some c', queue⟩ } }, c', ?_,
    by rw [Heap.set_self], by rw [Heap.set_self], hoff, rfl, rfl⟩
  rw [TcpClientMgr.delConn, hp]
  simp only [TcpClient.onClose, if_neg Bool.false_ne_true, TcpClient.doconnect, TcpClient.appendSend, TcpClient.initSock,
    hsend, happ]
  rfl

/-- `gate1` reads that its connection is broken, and gets descriptor 5 back: it is still registered, and the next
`DelConn` finds and reconnects it. -/
theorem registered_gate1 : ∃ w w' g, Reach (step game1) (fun w o => w.Allowed o ∧ w.Same o) (start {0, 1, 2, 3, 4}) w ∧
    w.mgr.clients.next = 1 ∧ (w.mgr.clients 0).Disconnects .error ∧ w.step game1 (.onRead 0 .error 5) = .ok w' ∧
    w'.mgr.Registered ∧ w'.mgr.delConn game1 (w'.mgr.clients 0).sock 5 = .ok (g, true) ∧ (g.clients 0).sock = 5 := by
  obtain ⟨p, hoff, hcreate⟩ := create_gate1
  have hproxy : recordSize game1 takeProxy = 45 := by decide
  have hR := RPC_BUFF_SIZE_eq
  have hreach := Reach.refl.step (P := fun w o => Allowed w o ∧ Same w o) (o := RegOp.create TcpClient.gate1New 5)
    ⟨by simp [Allowed, start], by simp [Same, start, TcpClientMgr.new]⟩ hcreate
  generalize hw : RegWorld.mk _ _ = w at hcreate hreach
  have hmap : w.mgr.mapFdTcpClient[(5 : Int)]? = some 0 := by simp [← hw]
  have hclient : w.mgr.clients 0 = { TcpClient.gate1New with sock := 5, send := ⟨some p, []⟩ } := by
    rw [← hw]
    exact new_alloc _
  have hsock : (w.mgr.clients 0).sock = 5 := by rw [hclient]
  have hnext : w.mgr.clients.next = 1 := by
    rw [← hw]
    rfl
  have hbroken : (w.mgr.clients 0).Disconnects .error := by
    refine ⟨?_, .inl rfl⟩
    rw [show (w.mgr.clients 0).recvOffset = 0 by rw [hclient]; rfl]
    omega
  have hread : (w.mgr.clients 0).onRead .error = .ok (w.mgr.clients 0, -1, true) := by
    rw [TcpClient.onRead, if_neg (not_le.mpr hbroken.1)]
    rfl
  -- the first reconnect, out of `OnRead`
  obtain ⟨g, c, hdel, hsock', hsend, hoff', hnext', hmap'⟩ := delConn_ok game1 (c := p)
    { w.mgr with clients := w.mgr.clients.set 0 (w.mgr.clients 0) } hmap (by rw [Heap.set_self, hclient]) (by omega) 5
  have hstep : w.step game1 (.onRead 0 .error 5) = .ok ⟨g, insert 5 (w.openFds.erase 5)⟩ := by
    simp only [step, hread, ok_bind, if_true, delConn, hsock, hdel, getTcpClientByFd, hmap, Heap.set_self]
    rfl
  have hallowed : w.Allowed (.onRead 0 .error 5) := by
    refine ⟨by rw [hnext]; decide, fun q hq => ?_⟩
    obtain rfl : q = 0 := Option.some.inj (hq.symm.trans (by rw [hsock]; exact hmap))
    rw [hsock]
    exact Finset.notMem_erase _ _
  have hsame : w.Same (.onRead 0 .error 5) := fun _ => hsock.symm
  have hreach' := hreach.step ⟨hallowed, hsame⟩ hstep
  -- the second one
  have hmap₂ : g.mapFdTcpClient[(5 : Int)]? = some 0 := by rw [hmap']; exact hmap
  obtain ⟨g', c', hdel', -⟩ := delConn_ok game1 g hmap₂ hsend (by omega) 5
  obtain ⟨hreg, hfound, -⟩ := registered_iff game1 _ hreach'
  have hdel' : g.delConn game1 (g.clients 0).sock 5 = .ok (g', true) := by rw [hsock']; exact hdel'
  have hback := hfound 0 (by rw [hnext', Heap.set_next, hnext]; decide) 5 g' true hdel'
  exact ⟨w, _, g', hreach, hnext, hbroken, hstep, hreg, hdel', hback.2⟩

/-- Another thread has closed descriptor 4 when `gate1` is reconnected: it is not found under its descriptor any more, and
the next `DelConn` does nothing. -/
theorem not_registered : ∃ w, Reach (step game1) Allowed (start {0, 1, 2, 3, 4}) w ∧ ¬ w.mgr.Registered ∧
    w.mgr.clients.next = 1 ∧ ∀ newFd, w.mgr.delConn game1 (w.mgr.clients 0).sock newFd = .ok (w.mgr, false) := by
  obtain ⟨p, hoff, hcreate⟩ := create_gate1
  have hreach := Reach.refl.step (P := Allowed) (o := RegOp.create TcpClient.gate1New 5)
    (by simp [Allowed, start]) hcreate
  generalize hw : RegWorld.mk _ _ = w₁ at hcreate hreach
  have hmap : w₁.mgr.mapFdTcpClient = TcpClientMgr.new.mapFdTcpClient.insert 5 0 := by rw [← hw]
  have hclient : w₁.mgr.clients 0 = { TcpClient.gate1New with sock := 5, send := ⟨some p, []⟩ } := by
    rw [← hw]
    exact new_alloc _
  have hone : w₁.mgr.clients.next = 1 := by
    rw [← hw]
    rfl
  have hopen : w₁.openFds = insert 5 {0, 1, 2, 3, 4} := by rw [← hw]
  have hfound : w₁.mgr.mapFdTcpClient[(5 : Int)]? = some 0 := by simp [hmap]
  have hclosed : w₁.step game1 (.closed 4) = .ok { w₁ with openFds := w₁.openFds.erase 4 } := rfl
  have hfree : w₁.Allowed (.closed 4) := by
    intro q hq
    obtain rfl : q = 0 := by omega
    rw [hclient]
    simp
  -- another `TakeProxy` fits behind the first
  have hfit : p.offset + recordSize game1 takeProxy ≤ RPC_BUFF_SIZE := by
    rw [hoff]
    decide
  obtain ⟨g, _, hg, -⟩ := delConn_ok game1 w₁.mgr hfound (by rw [hclient]) hfit 4
  obtain ⟨-, c, hsock, -, hclients, -, hmapFd⟩ := delConn_eq hfound hg
  have hstep : step game1 { w₁ with openFds := w₁.openFds.erase 4 } (.delConn 5 4) =
      .ok ⟨g, insert 4 ((w₁.openFds.erase 4).erase 5)⟩ := by
    simp only [step, delConn, hg, ok_bind, getTcpClientByFd, hfound, hclient]
    rfl
  have hnew : Allowed { w₁ with openFds := w₁.openFds.erase 4 } (.delConn 5 4) := by
    intro q _
    simp [hopen]
  refine ⟨_, (hreach.step hfree hclosed).step hnew hstep, ?_, by simp only [hclients, Heap.set_next, hone], ?_⟩
  · intro hreg
    obtain ⟨hlost, -⟩ := hreg 0 (by simp only [hclients, Heap.set_next, hone]; decide)
    simp only [hclients, Heap.set_self, hsock, hmapFd, hmap] at hlost
    simp [TcpClientMgr.new] at hlost
  · intro newFd
    simp only [hclients, Heap.set_self, hsock]
    have hlost : g.mapFdTcpClient[(4 : Int)]? = none := by simp [hmapFd, hmap, TcpClientMgr.new]
    rw [TcpClientMgr.delConn, hlost]
    rfl

end RegWorld

end KcpServer
