import KcpServer.Kcp.Races

/-!
# `acceptConn`: datagrams from new clients

`m_servFd` is registered edge-triggered, so a call of `acceptConn` has to take everything that waits there. It creates a
session for a datagram that can hold an `ikcp` header, passes over an empty one, and returns at any other.

* `acceptConn_eq` : what a call takes and what it leaves;
* `drained_iff` : when nothing is left;
* `fedToOne_iff` : when all datagrams of a peer are fed to one session.
-/

namespace KcpServer
open Lib

def IKCP_OVERHEAD : Nat := 24

structure SockaddrIn where
  addr : UInt32
  port : UInt16
  deriving DecidableEq

/-- A datagram and its sender. -/
structure Datagram where
  addr : SockaddrIn
  bytes : Bytes
  deriving DecidableEq

namespace Datagram

/-- It can hold an `ikcp` segment. -/
def Long (d : Datagram) : Prop := IKCP_OVERHEAD ≤ d.bytes.length

/-- It is too short for a segment, and not empty. -/
def Short (d : Datagram) : Prop := 0 < d.bytes.length ∧ d.bytes.length < IKCP_OVERHEAD

instance : DecidablePred Long := fun d => inferInstanceAs (Decidable (IKCP_OVERHEAD ≤ d.bytes.length))

instance : DecidablePred Short := fun d => inferInstanceAs (Decidable (0 < d.bytes.length ∧ d.bytes.length < IKCP_OVERHEAD))

theorem Short.not_long {d : Datagram} (h : d.Short) : ¬ d.Long := Nat.not_le.mpr h.2

end Datagram

/-- What else a call of `acceptConn` depends on, one session after another: the descriptor that `socket` returns, none
where it or `bind` fails, what `ikcp_input` of a new control block makes of a datagram, and the clock. -/
structure AcceptEnv where
  socket : Nat → Option Int
  input : Bytes → List Bytes
  ms : Nat → Nat

/-- What a call of `acceptConn` leaves: the server, what still waits on `m_servFd`, and the datagrams that `createConn` has
been called with, each with the object it returned. -/
structure AcceptOut where
  server : KCPServer
  queue : List Datagram
  fed : List (Datagram × Nat)

namespace KCPServer

/-- What `createConn` returns. -/
def createdConn (s : KCPServer) : Nat := (pop s.conns s.pool .new).1

/-- `KCPServer::acceptConn` with the datagrams waiting on `m_servFd`, `k` sockets into the call. `none` is an `exit(1)`. -/
def acceptConn (env : AcceptEnv) (s : KCPServer) (k : Nat) : List Datagram → Option AcceptOut
  -- `recvfrom` fails with `EAGAIN`
  | [] => some ⟨s, [], []⟩
  | d :: queue =>
    let buf := d.bytes.take 4096
    let rret := buf.length
    if rret = 0 then
      -- the inner loop goes on, whatever `errno` is
      acceptConn env s k queue
    else if rret < IKCP_OVERHEAD then
      some ⟨s, queue, []⟩
    else
      match env.socket k with
      | none => none
      | some clifd => do
        let out ← acceptConn env (s.createConn clifd buf (env.input buf) (env.ms k)) (k + 1) queue
        return { out with fed := (d, s.createdConn) :: out.fed }

/-! ## What a call takes -/

section Accept
variable {env : AcceptEnv} {s : KCPServer} {k : Nat} {d : Datagram} {queue : List Datagram} {out : AcceptOut}

theorem acceptConn_empty (h : d.bytes = []) : acceptConn env s k (d :: queue) = acceptConn env s k queue := by
  simp [acceptConn, h]

theorem acceptConn_short (h : d.Short) : acceptConn env s k (d :: queue) = some ⟨s, queue, []⟩ := by
  have hO : IKCP_OVERHEAD = 24 := rfl
  obtain ⟨hpos, hlt⟩ := h
  simp only [acceptConn, List.length_take]
  rw [if_neg (by omega), if_pos (by omega)]

theorem acceptConn_long (h : d.Long) : acceptConn env s k (d :: queue) = (env.socket k).bind fun clifd =>
    (acceptConn env (s.createConn clifd (d.bytes.take 4096) (env.input (d.bytes.take 4096)) (env.ms k)) (k + 1) queue).map
      fun out => { out with fed := (d, s.createdConn) :: out.fed } := by
  have hO : IKCP_OVERHEAD = 24 := rfl
  unfold Datagram.Long at h
  simp only [acceptConn, List.length_take]
  rw [if_neg (by omega), if_neg (by omega)]
  cases env.socket k with
  | none => rfl
  | some clifd =>
    rw [Option.bind_some, Option.map_eq_bind]
    rfl

/-- A property of calls that return: one case for the end of the queue and for each kind of datagram. -/
theorem acceptConn_induction {P : KCPServer → Nat → List Datagram → AcceptOut → Prop}
    (nil : ∀ s k, P s k [] ⟨s, [], []⟩)
    (empty : ∀ s k d queue out, d.bytes = [] → P s k queue out → P s k (d :: queue) out)
    (short : ∀ s k d queue, d.Short → P s k (d :: queue) ⟨s, queue, []⟩)
    (long : ∀ s k d queue clifd out, d.Long → env.socket k = some clifd →
      P (s.createConn clifd (d.bytes.take 4096) (env.input (d.bytes.take 4096)) (env.ms k)) (k + 1) queue out →
      P s k (d :: queue) { out with fed := (d, s.createdConn) :: out.fed })
    (h : acceptConn env s k queue = some out) : P s k queue out := by
  induction queue generalizing s k out with
  | nil =>
    cases h
    exact nil s k
  | cons d queue ih =>
    by_cases hlong : d.Long
    · rw [acceptConn_long hlong, Option.bind_eq_some_iff] at h
      obtain ⟨clifd, hsocket, h⟩ := h
      obtain ⟨out, hrest, rfl⟩ := Option.map_eq_some_iff.mp h
      exact long s k d queue clifd out hlong hsocket (ih hrest)
    · by_cases hempty : d.bytes = []
      · rw [acceptConn_empty hempty] at h
        exact empty s k d queue out hempty (ih h)
      · have hshort : d.Short := ⟨List.length_pos_iff.mpr hempty, Nat.not_le.mp hlong⟩
        rw [acceptConn_short hshort] at h
        cases h
        exact short s k d queue hshort

/-- **What a call takes**: it feeds the datagrams that can hold a segment, up to the first short one, and leaves what is
behind that. -/
theorem acceptConn_eq (h : acceptConn env s k queue = some out) :
    out.queue = (queue.dropWhile fun d => ¬ d.Short).tail ∧
      out.fed.map Prod.fst = (queue.takeWhile fun d => ¬ d.Short).filter Datagram.Long := by
  refine acceptConn_induction (P := fun _ _ queue out => out.queue = (queue.dropWhile fun d => ¬ d.Short).tail ∧
    out.fed.map Prod.fst = (queue.takeWhile fun d => ¬ d.Short).filter Datagram.Long) ?_ ?_ ?_ ?_ h
  · exact fun s k => ⟨rfl, rfl⟩
  · intro s k d queue out hempty ih
    have hshort : ¬ d.Short := by simp [Datagram.Short, hempty]
    have hlong : ¬ d.Long := by simp [Datagram.Long, IKCP_OVERHEAD, hempty]
    simpa [List.dropWhile_cons, List.takeWhile_cons, hshort, hlong] using ih
  · intro s k d queue hshort
    simp [hshort]
  · intro s k d queue clifd out hlong _ ih
    have hshort : ¬ d.Short := fun h => h.not_long hlong
    simpa [List.dropWhile_cons, List.takeWhile_cons, hshort, hlong] using ih

/-- It returns unless a socket fails. -/
theorem acceptConn_returns (env : AcceptEnv) (hsocket : ∀ i, (env.socket i).isSome) (s : KCPServer) (k : Nat)
    (queue : List Datagram) : ∃ out, acceptConn env s k queue = some out := by
  induction queue generalizing s k with
  | nil => exact ⟨_, rfl⟩
  | cons d queue ih =>
    by_cases hlong : d.Long
    · obtain ⟨clifd, hclifd⟩ := Option.isSome_iff_exists.mp (hsocket k)
      obtain ⟨out, hout⟩ := ih (s.createConn clifd (d.bytes.take 4096) (env.input (d.bytes.take 4096)) (env.ms k)) (k + 1)
      exact ⟨_, by rw [acceptConn_long hlong, hclifd, Option.bind_some, hout, Option.map_some]⟩
    · by_cases hempty : d.bytes = []
      · rw [acceptConn_empty hempty]
        exact ih s k
      · exact ⟨_, acceptConn_short ⟨List.length_pos_iff.mpr hempty, Nat.not_le.mp hlong⟩⟩

/-! ## The sessions -/

/-- The object that `createConn` takes: it was free or is new, and now it is neither. -/
theorem createConn_created (hf : FreeList s.conns s.pool) (clifd : Int) (buf : Bytes) (msgs : List Bytes) (ms : Nat) :
    FreeList (s.createConn clifd buf msgs ms).conns (s.createConn clifd buf msgs ms).pool ∧
      (s.createdConn ∈ s.pool ∨ s.createdConn = s.conns.next) ∧
      s.createdConn ∉ (s.createConn clifd buf msgs ms).pool ∧
      s.createdConn < (s.createConn clifd buf msgs ms).conns.next ∧
      (∀ q ∈ (s.createConn clifd buf msgs ms).pool, q ∈ s.pool) ∧
      s.conns.next ≤ (s.createConn clifd buf msgs ms).conns.next ∧
      ((s.createConn clifd buf msgs ms).conns s.createdConn).kcp = some msgs ∧
      ∀ q ≠ s.createdConn, (s.createConn clifd buf msgs ms).conns q = s.conns q := by
  obtain ⟨pcon, conns, pool, hpop⟩ : ∃ pcon conns pool, pop s.conns s.pool .new = (pcon, conns, pool) := ⟨_, _, _, rfl⟩
  obtain ⟨hfree, hlt, hnot, horigin, hle, hsub, -, -⟩ := hf.pop _ hpop
  rw [createdConn, createConn, hpop]
  refine ⟨hfree.set _ _, horigin, hnot, hlt, hsub, hle, ?_, fun q hq => ?_⟩
  · dsimp only
    rw [Heap.set_self]
    rfl
  · dsimp only
    rw [Heap.set_of_ne _ hq, pop_of_ne hpop hq]

/-- What a call makes of the objects: it takes a different one for every datagram it feeds. -/
structure Fed (env : AcceptEnv) (s : KCPServer) (out : AcceptOut) : Prop where
  nodup : (out.fed.map Prod.snd).Nodup
  origin : ∀ f ∈ out.fed, f.2 ∈ s.pool ∨ s.conns.next ≤ f.2
  kcp : ∀ f ∈ out.fed, (out.server.conns f.2).kcp = some (env.input (f.1.bytes.take 4096))
  others : ∀ q ∉ out.fed.map Prod.snd, out.server.conns q = s.conns q

theorem acceptConn_fed (hf : FreeList s.conns s.pool) (h : acceptConn env s k queue = some out) : Fed env s out := by
  refine acceptConn_induction (P := fun s _ _ out => FreeList s.conns s.pool → Fed env s out) ?_ ?_ ?_ ?_ h hf
  · exact fun s k _ => ⟨List.nodup_nil, by simp, by simp, fun _ _ => rfl⟩
  · exact fun s k d queue out _ ih => ih
  · exact fun s k d queue _ _ => ⟨List.nodup_nil, by simp, by simp, fun _ _ => rfl⟩
  · intro s k d queue clifd out _ _ ih hf
    obtain ⟨hfree, horigin, hnot, hlt, hsub, hle, hkcp, hothers⟩ := createConn_created hf clifd (d.bytes.take 4096)
      (env.input (d.bytes.take 4096)) (env.ms k)
    have hfed := ih hfree
    -- the objects taken later are others
    have hnew : s.createdConn ∉ out.fed.map Prod.snd := by
      intro hmem
      obtain ⟨f, hmem, heq⟩ := List.mem_map.mp hmem
      rcases hfed.origin f hmem with hin | hge
      · exact hnot (heq ▸ hin)
      · omega
    refine ⟨?_, fun f hmem => ?_, fun f hmem => ?_, fun q hq => ?_⟩
    · rw [List.map_cons]
      exact List.nodup_cons.mpr ⟨hnew, hfed.nodup⟩
    · rcases List.mem_cons.mp hmem with rfl | hmem
      · exact horigin.imp_right fun heq => heq.ge
      · exact (hfed.origin f hmem).imp (hsub _) (le_trans hle)
    · rcases List.mem_cons.mp hmem with rfl | hmem
      · rw [hfed.others _ hnew, hkcp]
      · exact hfed.kcp f hmem
    · rw [List.map_cons, List.mem_cons, not_or] at hq
      rw [hfed.others q hq.2, hothers q hq.1]

end Accept

end KCPServer

namespace KcpThreads
open KCPServer

/-- A call is a run of `createConn` sections, for descriptors that are not open. -/
theorem reach_acceptConn {n k : Nat} {env : AcceptEnv} {s : KCPServer} {queue : List Datagram} {out : AcceptOut}
    {closing : Closing} (h : acceptConn env s k queue = some out)
    (hfresh : ∀ i fd, k ≤ i → env.socket i = some fd → fd ∉ s.mapConn)
    (hdistinct : ∀ i j fd, env.socket i = some fd → env.socket j = some fd → i = j)
    (hs : Reach step Allowed (start n) ⟨s, closing⟩) : Reach step Allowed (start n) ⟨out.server, closing⟩ := by
  refine acceptConn_induction (P := fun s k _ out => (∀ i fd, k ≤ i → env.socket i = some fd → fd ∉ s.mapConn) →
    Reach step Allowed (start n) ⟨s, closing⟩ → Reach step Allowed (start n) ⟨out.server, closing⟩) ?_ ?_ ?_ ?_ h hfresh hs
  · exact fun s k _ hs => hs
  · exact fun s k d queue out _ ih => ih
  · exact fun s k d queue _ _ hs => hs
  · intro s k d queue clifd out _ hsocket ih hfresh hs
    have hallowed : Allowed ⟨s, closing⟩
        (.createConn clifd (d.bytes.take 4096) (env.input (d.bytes.take 4096)) (env.ms k)) :=
      hfresh k clifd le_rfl hsocket
    refine ih (fun i fd hi hfd => ?_) (hs.step hallowed rfl)
    intro hmem
    obtain ⟨p, hp⟩ := mem_iff_exists.mp hmem
    rcases insert_eq_some.mp hp with ⟨rfl, -⟩ | ⟨-, hp⟩
    · have := hdistinct i k fd hfd hsocket
      omega
    · exact hfresh i fd (by omega) hfd (mem_iff_exists.mpr ⟨p, hp⟩)

end KcpThreads

/-! ## Whether anything is left -/

namespace KCPServer

theorem tail_dropWhile_eq_nil_iff {α : Type*} {p : α → Bool} {l : List α} :
    (l.dropWhile p).tail = [] ↔ ∀ x ∈ l.dropLast, p x = true := by
  induction l with
  | nil => simp
  | cons x l ih =>
    cases l with
    | nil => cases hx : p x <;> simp [hx]
    | cons y l =>
      cases hx : p x with
      | false => simp [hx]
      | true => simpa [hx] using ih

/-- Everything is taken, with one call of `createConn` for each datagram that can hold a segment. -/
def Drained (queue : List Datagram) (out : AcceptOut) : Prop :=
  out.queue = [] ∧ out.fed.map Prod.fst = queue.filter Datagram.Long

section Drained
variable {env : AcceptEnv} {s : KCPServer} {k : Nat} {queue : List Datagram} {out : AcceptOut}

/-- If nothing is left, the datagram at which the call returned was the last one. -/
theorem drained_of_queue (h : acceptConn env s k queue = some out) (hqueue : out.queue = []) : Drained queue out := by
  obtain ⟨hleft, hfed⟩ := acceptConn_eq h
  refine ⟨hqueue, ?_⟩
  rw [hfed]
  conv_rhs => rw [← List.takeWhile_append_dropWhile (p := fun d => decide ¬ d.Short) (l := queue), List.filter_append]
  rw [hqueue] at hleft
  cases hdrop : queue.dropWhile fun d => decide ¬ d.Short with
  | nil => simp
  | cons d rest =>
    have hshort : d.Short := by
      have hne : (queue.dropWhile fun d => decide ¬ d.Short) ≠ [] := by
        rw [hdrop]
        exact List.cons_ne_nil d rest
      have hhead := List.head_dropWhile_not (fun d : Datagram => decide ¬ d.Short) hne
      simp only [hdrop, List.head_cons] at hhead
      simpa using hhead
    rw [hdrop, List.tail_cons] at hleft
    simp [← hleft, hshort.not_long]

/-- **When the socket is drained.** Whatever waits on the listening socket: a call that returns has taken all of it and
has created a session for each datagram of at least `IKCP_OVERHEAD` bytes, if and only if no datagram but the last one has
between 1 and `IKCP_OVERHEAD - 1` bytes. -/
theorem drained_iff (h : acceptConn env s k queue = some out) :
    Drained queue out ↔ ∀ d ∈ queue.dropLast, d.bytes.length = 0 ∨ IKCP_OVERHEAD ≤ d.bytes.length := by
  have hleft : out.queue = [] ↔ ∀ d ∈ queue.dropLast, d.bytes.length = 0 ∨ IKCP_OVERHEAD ≤ d.bytes.length := by
    rw [(acceptConn_eq h).1, tail_dropWhile_eq_nil_iff]
    refine forall₂_congr fun d _ => ?_
    rw [decide_eq_true_iff, Datagram.Short]
    omega
  rw [← hleft]
  exact ⟨fun hdrained => hdrained.1, drained_of_queue h⟩

/-- Sockets 7, 8, .., and datagrams that start a message but end none. -/
def sevenOn : AcceptEnv := ⟨fun i => some (7 + i), fun _ => [], fun _ => 0⟩

def localhost (port : UInt16) : SockaddrIn := ⟨16777343, port⟩

def segment (port : UInt16) : Datagram := ⟨localhost port, List.replicate IKCP_OVERHEAD 0⟩

/-- Two clients. -/
theorem drained_two : ∃ out, acceptConn sevenOn new 0 [segment 1, segment 2] = some out ∧
    Drained [segment 1, segment 2] out := by
  obtain ⟨out, hout⟩ := acceptConn_returns sevenOn (fun _ => rfl) new 0 [segment 1, segment 2]
  exact ⟨out, hout, (drained_iff hout).mpr (by simp [segment])⟩

/-- A single byte from anyone, and a client behind it. -/
theorem not_drained : ∃ out, acceptConn sevenOn new 0 [⟨localhost 1, [0]⟩, segment 2] = some out ∧
    ¬ Drained [⟨localhost 1, [0]⟩, segment 2] out := by
  refine ⟨_, acceptConn_short (by decide), ?_⟩
  rintro ⟨hqueue, -⟩
  cases hqueue

end Drained

/-! ## Sessions and peers -/

/-- All datagrams of a peer are fed to one object. -/
def FedToOne (queue : List Datagram) (fed : List (Datagram × Nat)) : Prop :=
  ∀ a, ∃ c, (fed.filter fun f => f.1.addr = a) = (queue.filter fun d => d.addr = a).map fun d => (d, c)

section FedToOne
variable {queue : List Datagram} {fed : List (Datagram × Nat)}

theorem FedToOne.fed_eq (h : FedToOne queue fed) (hsub : (fed.map Prod.fst).Sublist queue) : fed.map Prod.fst = queue := by
  have hfilter : ∀ a, ((fed.map Prod.fst).filter fun d => d.addr = a) = queue.filter fun d => d.addr = a := by
    intro a
    obtain ⟨c, hc⟩ := h a
    rw [List.filter_map]
    refine (congrArg (List.map Prod.fst) hc).trans ?_
    rw [List.map_map]
    exact List.map_id _
  have hperm : (fed.map Prod.fst).Perm queue := by
    rw [List.perm_iff_count]
    intro d
    rw [← List.count_filter (p := fun d' => d'.addr = d.addr) (by simp), hfilter, List.count_filter (by simp)]
  exact hsub.eq_of_length hperm.length_eq

theorem FedToOne.nodup (h : FedToOne queue fed) (hnodup : (fed.map Prod.snd).Nodup) : (queue.map Datagram.addr).Nodup := by
  rw [List.nodup_iff_count_le_one]
  intro a
  obtain ⟨c, hc⟩ := h a
  have hone : ((fed.filter fun f => f.1.addr = a).map Prod.snd).Nodup := hnodup.sublist (List.filter_sublist.map Prod.snd)
  rw [hc, List.map_map] at hone
  change (List.map (fun _ => c) (queue.filter fun d => d.addr = a)).Nodup at hone
  rw [List.map_const', List.nodup_replicate] at hone
  rwa [List.count_eq_countP, List.countP_map, List.countP_eq_length_filter]

/-- Where every datagram that is fed gets an object of its own, a peer's datagrams get one object exactly if all datagrams
are fed and no two are from the same peer. -/
theorem fedToOne_iff_of_nodup (hsub : (fed.map Prod.fst).Sublist queue) (hnodup : (fed.map Prod.snd).Nodup) :
    FedToOne queue fed ↔ fed.map Prod.fst = queue ∧ (queue.map Datagram.addr).Nodup := by
  refine ⟨fun h => ⟨h.fed_eq hsub, h.nodup hnodup⟩, ?_⟩
  rintro ⟨rfl, haddr⟩ a
  have hle : (fed.filter fun f => f.1.addr = a).length ≤ 1 := by
    have hcount := List.nodup_iff_count_le_one.mp haddr a
    rwa [List.map_map, List.count_eq_countP, List.countP_map, List.countP_eq_length_filter] at hcount
  rw [List.filter_map]
  change ∃ c, (fed.filter fun f => f.1.addr = a) =
    ((fed.filter fun f => f.1.addr = a).map Prod.fst).map fun d => (d, c)
  rcases hfed : fed.filter fun f => f.1.addr = a with _ | ⟨f, _ | ⟨f', fs⟩⟩
  · exact ⟨0, by rw [hfed]; rfl⟩
  · exact ⟨f.2, by rw [hfed]; rfl⟩
  · simp [hfed] at hle

theorem filter_takeWhile_eq_self_iff :
    (queue.takeWhile fun d => ¬ d.Short).filter Datagram.Long = queue ↔ ∀ d ∈ queue, d.Long := by
  constructor
  · intro h d hd
    rw [← h] at hd
    simpa using (List.mem_filter.mp hd).2
  · intro h
    rw [List.takeWhile_eq_self_iff.mpr, List.filter_eq_self.mpr]
    · simpa using h
    · intro d hd
      simpa using fun hshort : d.Short => hshort.not_long (h d hd)

theorem filter_takeWhile_eq_filter_iff :
    (queue.takeWhile fun d => ¬ d.Short).filter Datagram.Long = queue.filter Datagram.Long ↔
      queue.Pairwise fun d d' => d.Short → ¬ d'.Long := by
  induction queue with
  | nil => simp
  | cons d queue ih =>
    rw [List.pairwise_cons]
    by_cases hshort : d.Short
    · have hnone : (d :: queue).filter Datagram.Long = queue.filter Datagram.Long := by simp [hshort.not_long]
      rw [hnone, List.takeWhile_cons_of_neg (by simpa using hshort), List.filter_nil, eq_comm, List.filter_eq_nil_iff]
      simp only [decide_eq_true_eq, hshort, true_imp_iff]
      refine ⟨fun h => ⟨h, ?_⟩, And.left⟩
      exact List.pairwise_of_forall_mem_list fun _ _ d' hd' _ => h d' hd'
    · rw [List.takeWhile_cons_of_pos (by simpa using hshort), List.filter_cons, List.filter_cons]
      simp only [hshort, false_imp_iff, implies_true, true_and, ← ih]
      split <;> simp

end FedToOne

/-- **When a peer has one session.** Whatever waits on the listening socket of a server, in any state of it: all datagrams of
a peer are fed to one session if and only if each is at least `IKCP_OVERHEAD` bytes long and they come from different peers;
all that can hold a segment are, if and only if these come from different peers and none of them is behind a datagram of
between 1 and `IKCP_OVERHEAD - 1` bytes. -/
theorem fedToOne_iff {n k : Nat} {w : KcpThreads} (hw : Reach KcpThreads.step KcpThreads.Allowed (.start n) w)
    {env : AcceptEnv} {queue : List Datagram} {out : AcceptOut} (h : acceptConn env w.server k queue = some out) :
    (FedToOne queue out.fed ↔ (∀ d ∈ queue, IKCP_OVERHEAD ≤ d.bytes.length) ∧ (queue.map Datagram.addr).Nodup) ∧
      (FedToOne (queue.filter Datagram.Long) out.fed ↔ (queue.Pairwise fun d d' => d.Short → ¬ d'.Long) ∧
        ((queue.filter Datagram.Long).map Datagram.addr).Nodup) := by
  have hnodup := (acceptConn_fed (KcpThreads.registry_reach hw).free h).nodup
  have hfst := (acceptConn_eq h).2
  have hprefix : (queue.takeWhile fun d => ¬ d.Short).Sublist queue := List.takeWhile_sublist _
  constructor
  · rw [fedToOne_iff_of_nodup (hfst ▸ List.filter_sublist.trans hprefix) hnodup, hfst, filter_takeWhile_eq_self_iff]
    rfl
  · rw [fedToOne_iff_of_nodup (hfst ▸ hprefix.filter _) hnodup, hfst, filter_takeWhile_eq_filter_iff]

/-- Two clients with a datagram each. -/
theorem fedToOne_two : ∃ out, acceptConn sevenOn new 0 [segment 1, segment 2] = some out ∧
    FedToOne [segment 1, segment 2] out.fed := by
  obtain ⟨out, hout⟩ := acceptConn_returns sevenOn (fun _ => rfl) new 0 [segment 1, segment 2]
  have hw : Reach KcpThreads.step KcpThreads.Allowed (.start KCP_UDPCONN_SIZE) ⟨new, .idle⟩ := .refl
  exact ⟨out, hout, (fedToOne_iff hw hout).1.mpr ⟨by simp [segment], by decide⟩⟩

/-- A client that has sent two segments before the first is read. -/
theorem not_fedToOne : ∃ out f f', acceptConn sevenOn new 0 [segment 1, segment 1] = some out ∧
    ¬ FedToOne [segment 1, segment 1] out.fed ∧ out.fed = [f, f'] ∧ f.1.addr = f'.1.addr ∧ f.2 ≠ f'.2 := by
  obtain ⟨out, hout⟩ := acceptConn_returns sevenOn (fun _ => rfl) new 0 [segment 1, segment 1]
  have hnodup := (acceptConn_fed (registry_withPool KCP_UDPCONN_SIZE).free hout).nodup
  have hfst : out.fed.map Prod.fst = [segment 1, segment 1] := (acceptConn_eq hout).2
  obtain ⟨f, f', hfed⟩ : ∃ f f', out.fed = [f, f'] := List.length_eq_two.mp (by simpa using congrArg List.length hfst)
  rw [hfed] at hnodup hfst
  refine ⟨out, f, f', hout, fun h => ?_, hfed, ?_, by simpa using hnodup⟩
  · have haddr := h.nodup (hfed ▸ hnodup)
    exact absurd haddr (by decide)
  · simp only [List.map_cons, List.map_nil, List.cons.injEq, and_true] at hfst
    rw [hfst.1, hfst.2]

end KCPServer

end KcpServer
