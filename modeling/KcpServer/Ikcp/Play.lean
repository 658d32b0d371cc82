import KcpServer.Ikcp.Session
import KcpServer.Ikcp.Uptime

/-!
# From a client to `processKcp`

`Play` is a session of the server, a client that hands `ikcp` one message a call, and the network between them. `Plays`
shows every run of it to be one of two ends (`plays_of_reach`), and so:

* `calls_prefix_sent` : `processKcp` is called with what the client has sent, with each message once and in order;
* `deal_ok` : no `OnDealMsg` fails, whatever the network and the clocks do;
* `never_fails` : nothing else fails either, as long as no clock leaves its span.
-/

namespace KcpServer.Ikcp
open Lib

/-- What a session makes of an event, the datagrams that it sends and its calls of `processKcp`. -/
def Session.event (c : Session) : Session.Event → Except Fault (Session × List Bytes × List KcpCall)
  | .onRead d => do return (← c.onRead d, [], [])
  | .update ms => do
    let (c, ds) ← c.update ms
    return (c, ds, [])
  | .write buf => do return ((← c.write buf).1, [], [])
  | .deal => do
    let (c, _, call) ← c.onDealMsg
    return (c, [], call.toList)

/-- A client and its session `id`, what each has sent into the network, what `ikcp_send` has accepted of the client, and
the calls of `processKcp`. -/
structure Play where
  client : IKCPCB
  server : Option Session
  id : Int
  up : List Bytes
  down : List Bytes
  sent : List Bytes
  calls : List KcpCall

inductive PlayOp
  | client (c : Call)
  | accept (c : Session) (fd : Int) (d : Bytes) (ms : ℕ)
  | server (e : Session.Event)

namespace Play

def start (client : IKCPCB) (id : Int) : Play := ⟨client, none, id, [], [], [], []⟩

def clientCall (p : Play) : Call → Except Fault Play
  | .send buffer => do
    let (client, ret) ← p.client.send buffer
    return { p with client, sent := p.sent ++ p.client.accepted buffer ret }
  | .recv len => do
    let (client, _) ← p.client.recv len
    return { p with client }
  | .update current => do
    let (client, ds) ← p.client.update current
    return { p with client, up := p.up ++ ds }
  | .input d => do
    let (client, _) ← p.client.input d
    return { p with client }

/-- `acceptConn` on the datagram `d`, with the descriptor `fd` and the object `c` for the session. -/
def acceptConn (p : Play) (c : Session) (fd : Int) (d : Bytes) (ms : ℕ) : Except Fault Play :=
  if (d.take READ_BUFF_SIZE).length < IKCP_OVERHEAD then
    return p
  else do
    return { p with server := some (← c.init fd p.id (d.take READ_BUFF_SIZE) ms) }

def step (p : Play) : PlayOp → Except Fault Play
  | .client c => p.clientCall c
  | .accept c fd d ms => p.acceptConn c fd d ms
  | .server e =>
    match p.server with
    | none => return p
    | some c => do
      let (c, ds, calls) ← c.event e
      return { p with server := some c, down := p.down ++ ds, calls := p.calls ++ calls }

/-- No end makes more than `2 ^ 31` segments. -/
def Room (kcp : IKCPCB) : Prop := kcp.sndNxt.toNat + kcp.sndQueue.length + 255 < 2 ^ 31

instance (kcp : IKCPCB) : Decidable (Room kcp) := inferInstanceAs (Decidable (_ < _))

/-- The client sends one message a call, the network delivers what the other end has sent, and the session is opened
once. -/
def Allowed (p : Play) : PlayOp → Prop
  | .client (.send buffer) => OneMsg buffer ∧ Room p.client
  | .client (.input d) => d ∈ p.down
  | .client (.recv _) | .client (.update _) => True
  | .accept _ _ d _ => p.server = none ∧ d ∈ p.up
  | .server (.onRead d) => d ∈ p.up
  | .server (.write _) => ∀ kcp ∈ p.server.bind Session.kcp, Room kcp
  | .server (.update _) | .server .deal => True

instance (p : Play) : DecidablePred p.Allowed
  | .client (.send buffer) => inferInstanceAs (Decidable (OneMsg buffer ∧ Room p.client))
  | .client (.input d) => inferInstanceAs (Decidable (d ∈ p.down))
  | .client (.recv _) | .client (.update _) => .isTrue trivial
  | .accept _ _ d _ => inferInstanceAs (Decidable (p.server = none ∧ d ∈ p.up))
  | .server (.onRead d) => inferInstanceAs (Decidable (d ∈ p.up))
  | .server (.write _) => inferInstanceAs (Decidable (∀ kcp ∈ p.server.bind Session.kcp, Room kcp))
  | .server (.update _) | .server .deal => .isTrue trivial

/-- The times that the client and the server are told are from their spans. -/
def OnTime (base : Side → UInt32) (p : Play) : PlayOp → Prop
  | .client (.update current) => InSpan (base .left) current
  | .server (.update ms) => InSpan (base .right) ms
  | op => p.Allowed op

instance (base : Side → UInt32) (p : Play) : DecidablePred (OnTime base p)
  | .client (.update current) => inferInstanceAs (Decidable (InSpan (base .left) current))
  | .server (.update ms) => inferInstanceAs (Decidable (InSpan (base .right) ms))
  | .client (.send buffer) => inferInstanceAs (Decidable (p.Allowed (.client (.send buffer))))
  | .client (.recv len) => inferInstanceAs (Decidable (p.Allowed (.client (.recv len))))
  | .client (.input d) => inferInstanceAs (Decidable (p.Allowed (.client (.input d))))
  | .accept c fd d ms => inferInstanceAs (Decidable (p.Allowed (.accept c fd d ms)))
  | .server (.onRead d) => inferInstanceAs (Decidable (p.Allowed (.server (.onRead d))))
  | .server (.write buf) => inferInstanceAs (Decidable (p.Allowed (.server (.write buf))))
  | .server .deal => inferInstanceAs (Decidable (p.Allowed (.server .deal)))

theorem OnTime.allowed {base : Side → UInt32} {p : Play} {op : PlayOp} (h : p.OnTime base op) : p.Allowed op := by
  cases op with
  | client c =>
    cases c with
    | update => trivial
    | _ => exact h
  | accept => exact h
  | server e =>
    cases e with
    | update => trivial
    | _ => exact h

/-! ## The two ends -/

/-- The two ends of a play: the client on the left, the control block of the session on the right. -/
structure Plays (conv : UInt32) (p : Play) (w : Pair) : Prop where
  client : w.peer .left = p.client
  fresh : p.server = none → w.peer .right = Session.setupKcp conv
  live : ∀ c, p.server = some c → Session.Live c (w.peer .right) ∧ c.id = p.id
  up : w.net .left = p.up
  down : w.net .right = p.down
  sent : w.sent .left = p.sent
  calls : p.calls = (w.got .right).filterMap (UDPConn.wholeMsg p.id)
  msgs : ∀ m ∈ p.sent, OneMsg m
  sizes : ∀ d ∈ p.up, d.length ≤ READ_BUFF_SIZE
  windows : p.client.Windows
  mtu : p.client.mtu.toNat ≤ READ_BUFF_SIZE

section Plays
variable {conv : UInt32} {p p' : Play} {w w' : Pair} {kcp : IKCPCB} {c : Session}

theorem Plays.set_left (h : Plays conv p w) (ds sent got : List Bytes) (hwin : kcp.Windows) (hmtu : kcp.mtu = p.client.mtu)
    (hds : ∀ d ∈ ds, d.length ≤ READ_BUFF_SIZE) (hsent : ∀ m ∈ sent, OneMsg m) :
    Plays conv { p with client := kcp, up := p.up ++ ds, sent := p.sent ++ sent } (w.set .left kcp ds sent got) where
  client := rfl
  fresh := h.fresh
  live := h.live
  up := congrArg (· ++ ds) h.up
  down := h.down
  sent := congrArg (· ++ sent) h.sent
  calls := h.calls
  msgs m hm := (List.mem_append.mp hm).elim (h.msgs m) (hsent m)
  sizes d hd := (List.mem_append.mp hd).elim (h.sizes d) (hds d)
  windows := hwin
  mtu := hmtu ▸ h.mtu

theorem Plays.set_right (h : Plays conv p w) (ds sent got : List Bytes) (calls : List KcpCall)
    (hlive : Session.Live c kcp) (hid : c.id = p.id) (hcalls : calls = got.filterMap (UDPConn.wholeMsg p.id)) :
    Plays conv { p with server := some c, down := p.down ++ ds, calls := p.calls ++ calls }
      (w.set .right kcp ds sent got) where
  client := h.client
  fresh hnone := nomatch hnone
  live _ hc := Option.some.inj hc ▸ ⟨hlive, hid⟩
  up := h.up
  down := congrArg (· ++ ds) h.down
  sent := h.sent
  calls := by
    change p.calls ++ calls = (w.got .right ++ got).filterMap (UDPConn.wholeMsg p.id)
    rw [List.filterMap_append, ← h.calls, hcalls]
  msgs := h.msgs
  sizes := h.sizes
  windows := h.windows
  mtu := h.mtu

theorem Plays.same_right (h : Plays conv p w) (hlive : Session.Live c (w.peer .right)) (hid : c.id = p.id) :
    Plays conv { p with server := some c } w where
  client := h.client
  fresh hnone := nomatch hnone
  live _ hc := Option.some.inj hc ▸ ⟨hlive, hid⟩
  up := h.up
  down := h.down
  sent := h.sent
  calls := h.calls
  msgs := h.msgs
  sizes := h.sizes
  windows := h.windows
  mtu := h.mtu

section Step
variable {stream : Side → Int} {arq : Side → Arq Frag} {taken : Side → List Frag}

theorem Plays.oneMsg (h : Plays conv p w) (hf : Pair.Follows conv stream w arq taken) (hstream : stream .left = 0)
    (hpos : 0 < (w.peer .right).peeksize) : OneMsg (IKCPCB.dataOf (IKCPCB.splitMsg (w.peer .right).rcvQueue).1) := by
  obtain ⟨kcp', hrecv⟩ := IKCPCB.recv_of_peeksize hpos.le
    (show (w.peer .right).peeksize ≤ (w.peer .right).peeksize.toNat by omega)
  generalize IKCPCB.dataOf (IKCPCB.splitMsg (w.peer .right).rcvQueue).1 = payload at hrecv ⊢
  have hstep : w.step (.recv .right (w.peer .right).peeksize.toNat) = .ok (w.set .right kcp' [] [] [payload]) := by
    rw [Pair.step, hrecv, ok_bind]
    dsimp only
    rw [if_pos (by omega)]
    rfl
  obtain ⟨arq', taken', hf'⟩ := Pair.follows_step hf (show w.Allowed (.recv .right _) from trivial) hstep
  have hgot : payload ∈ (w.set .right kcp' [] [] [payload]).got .right :=
    List.mem_append_right (w.got .right) List.mem_cons_self
  have hsent : payload ∈ w.sent .left := (hf'.msgs_prefix (s := .right) hstream).subset hgot
  exact h.msgs payload (h.sent ▸ hsent)

theorem conv_datagram {snd rcv : Arq Frag} {d : Bytes} (h : Says conv snd rcv d) :
    24 ≤ d.length ∧ UInt32.ofNat (leNat (d.take 4)) = conv := by
  obtain ⟨hne, segs, rfl, hsegs⟩ := h
  cases segs with
  | nil => exact absurd rfl hne
  | cons seg segs =>
    rw [List.flatMap_cons]
    have hlen := seg.length_bytes
    refine ⟨by rw [List.length_append]; omega, ?_⟩
    have htake : (seg.bytes ++ segs.flatMap IKCPSEG.bytes).take 4 = le 4 seg.conv.toNat := by
      simp only [IKCPSEG.bytes, IKCPSEG.encodeSeg, List.append_assoc]
      exact List.take_left' (length_le 4 _)
    rw [htake, leNat_le_of_lt seg.conv.toNat_lt, UInt32.ofNat_toNat]
    exact (hsegs seg List.mem_cons_self).conv

theorem Plays.take_up (h : Plays conv p w) {d : Bytes} (hd : d ∈ p.up) : d.take READ_BUFF_SIZE = d :=
  List.take_of_length_le (h.sizes d hd)

theorem Plays.allowed (h : Plays conv p w) {d : Bytes} (hd : d ∈ p.up) : w.Allowed (.input .right d) := by
  rw [← h.up] at hd
  exact hd

theorem Plays.allowed_left (h : Plays conv p w) {d : Bytes} (hd : d ∈ p.down) : w.Allowed (.input .left d) := by
  rw [← h.down] at hd
  exact hd

/-- The two ends have made the call, if there was one, and on time if the play has. -/
def Made (p : Play) (op : PlayOp) (w w' : Pair) : Prop :=
  w' = w ∨ ∃ op', w.Allowed op' ∧ (∀ base, p.OnTime base op → Pair.OnTime base w op') ∧ w.step op' = .ok w'

/-- Without stream mode, what `ikcp_send` accepts of one message is the message. -/
theorem oneMsg_accepted {buffer : Bytes} {ret : Int} (hstream : kcp.stream = 0) (hone : OneMsg buffer) :
    ∀ m ∈ kcp.accepted buffer ret, OneMsg m := by
  intro m hm
  unfold IKCPCB.accepted at hm
  rw [if_pos hstream] at hm
  split at hm
  · exact List.mem_singleton.mp hm ▸ hone
  · cases hm

theorem plays_client (h : Plays conv p w) (hf : Pair.Follows conv stream w arq taken) (hstream : stream .left = 0)
    {c : Call} (hp : p.Allowed (.client c)) (hstep : p.step (.client c) = .ok p') :
    ∃ w', Made p (.client c) w w' ∧ Plays conv p' w' := by
  cases c with
  | send buffer =>
    obtain ⟨⟨kcp, ret⟩, hsend, hp'⟩ := bind_eq_ok.mp hstep
    cases hp'
    have hroom : w.Allowed (.send .left buffer) := by
      change (w.peer .left).sndNxt.toNat + (w.peer .left).sndQueue.length + 255 < 2 ^ 31
      rw [h.client]
      exact hp.2
    have hmtu : kcp.mtu = p.client.mtu := by
      obtain ⟨_, _, rfl⟩ := IKCPCB.send_eq hsend
      rfl
    have hzero : p.client.stream = 0 := h.client ▸ (hf.stream_eq .left).trans hstream
    have hset := h.set_left [] (p.client.accepted buffer ret) []
      (IKCPCB.windows_send h.windows hsend) hmtu (fun _ hd => nomatch hd) (oneMsg_accepted hzero hp.1)
    rw [List.append_nil] at hset
    refine ⟨_, .inr ⟨.send .left buffer, hroom, fun _ _ => hroom, ?_⟩, hset⟩
    rw [Pair.step, h.client, hsend]
    rfl
  | recv len =>
    obtain ⟨⟨kcp, ret, bytes⟩, hrecv, hp'⟩ := bind_eq_ok.mp hstep
    cases hp'
    have hmtu : kcp.mtu = p.client.mtu := by
      obtain ⟨_, _, _, _, _, _, rfl⟩ := IKCPCB.recv_eq hrecv
      rfl
    have hset := h.set_left [] [] (if 0 ≤ ret ∧ 0 ≤ len then [bytes] else [])
      (IKCPCB.windows_recv h.windows hrecv) hmtu (fun _ hd => nomatch hd) (fun _ hm => nomatch hm)
    rw [List.append_nil, List.append_nil] at hset
    refine ⟨_, .inr ⟨.recv .left len, trivial, fun _ _ => trivial, ?_⟩, hset⟩
    rw [Pair.step, h.client, hrecv]
    rfl
  | update current =>
    obtain ⟨⟨kcp, ds⟩, hupdate, hp'⟩ := bind_eq_ok.mp hstep
    cases hp'
    have hupdate' := hupdate
    rw [← h.client] at hupdate'
    have hmtu : kcp.mtu = p.client.mtu := congrArg Config.mtu (IKCPCB.config_update hupdate)
    have hsizes : ∀ d ∈ ds, d.length ≤ READ_BUFF_SIZE :=
      fun d hd => (IKCPCB.length_le_of_update h.windows hupdate d hd).trans h.mtu
    have hset := h.set_left ds [] [] (IKCPCB.windows_update h.windows hupdate) hmtu hsizes
      (fun _ hm => nomatch hm)
    rw [List.append_nil] at hset
    refine ⟨_, .inr ⟨.update .left current, trivial, fun _ htime => htime, ?_⟩, hset⟩
    rw [Pair.step, hupdate']
    rfl
  | input d =>
    obtain ⟨⟨kcp, ret⟩, hinput, hp'⟩ := bind_eq_ok.mp hstep
    cases hp'
    have hd := h.allowed_left hp
    have hinput' := hinput
    rw [← h.client] at hinput'
    have hmtu : kcp.mtu = p.client.mtu := congrArg Config.mtu (IKCPCB.config_input hinput)
    have hset := h.set_left [] [] [] (IKCPCB.windows_input h.windows hinput) hmtu
      (fun _ hd => nomatch hd) (fun _ hm => nomatch hm)
    rw [List.append_nil, List.append_nil] at hset
    refine ⟨_, .inr ⟨.input .left d, hd, fun _ _ => hd, ?_⟩, hset⟩
    rw [Pair.step, hinput']
    rfl

theorem plays_accept (h : Plays conv p w) (hf : Pair.Follows conv stream w arq taken) {c : Session} {fd : Int} {d : Bytes}
    {ms : ℕ} (hp : p.Allowed (.accept c fd d ms)) (hstep : p.step (.accept c fd d ms) = .ok p') :
    ∃ w', Made p (.accept c fd d ms) w w' ∧ Plays conv p' w' := by
  obtain ⟨hnone, hd⟩ := hp
  rw [step, acceptConn, h.take_up hd] at hstep
  split at hstep
  · cases hstep
    exact ⟨w, .inl rfl, h⟩
  obtain ⟨c', hinit, hp'⟩ := bind_eq_ok.mp hstep
  cases hp'
  obtain ⟨kcp, ret, hinput, hlive, hid, -⟩ := Session.init_cases hinit
  rw [(conv_datagram (hf.net .left d (h.allowed hd))).2, ← h.fresh hnone] at hinput
  have hset := h.set_right [] [] [] [] hlive hid rfl
  rw [List.append_nil, List.append_nil] at hset
  refine ⟨_, .inr ⟨.input .right d, h.allowed hd, fun _ _ => h.allowed hd, ?_⟩, hset⟩
  rw [Pair.step, hinput]
  rfl

theorem plays_deal (h : Plays conv p w) (hf : Pair.Follows conv stream w arq taken) (hstream : stream .left = 0)
    {c' : Session} {ret : Int} {call : Option KcpCall} (hserver : p.server = some c)
    (hdeal : c.onDealMsg = .ok (c', ret, call)) :
    ∃ w', Made p (.server .deal) w w' ∧ Plays conv { p with server := some c', calls := p.calls ++ call.toList } w' := by
  obtain ⟨hlive, hid⟩ := h.live c hserver
  rcases Session.onDealMsg_cases hlive hdeal with ⟨-, rfl, heq⟩ | ⟨hread, kcp, cacheBuf, hc', hlive', hcases⟩
  · cases heq
    rw [Option.toList_none, List.append_nil]
    exact ⟨w, .inl rfl, h.same_right hlive hid⟩
  have hid' : c'.id = p.id := by rw [hc', hid]
  rcases hcases with ⟨rfl, -, hnone⟩ | ⟨hpos, hfits, hrecv⟩
  · obtain rfl : call = none := hnone
    rw [Option.toList_none, List.append_nil]
    exact ⟨w, .inl rfl, h.same_right hlive' hid'⟩
  · obtain ⟨c₂, call', hdeal', hwhole⟩ := Session.onDealMsg_oneMsg hlive hread hpos hfits (h.oneMsg hf hstream hpos)
    rw [hdeal] at hdeal'
    obtain rfl : call = some call' := (Prod.mk.inj (Prod.mk.inj (Except.ok.inj hdeal')).2).2
    rw [hid] at hwhole
    generalize IKCPCB.dataOf (IKCPCB.splitMsg (w.peer .right).rcvQueue).1 = payload at hrecv hwhole
    have hset := h.set_right [] [] [payload] (some call').toList hlive' hid'
      (by rw [List.filterMap_cons, hwhole]; rfl)
    rw [List.append_nil] at hset
    refine ⟨_, .inr ⟨.recv .right BUFF_CACHE_SIZE, trivial, fun _ _ => trivial, ?_⟩, hset⟩
    rw [Pair.step, hrecv, ok_bind]
    dsimp only
    rw [if_pos ⟨hpos.le, Int.natCast_nonneg _⟩]
    rfl

theorem plays_server (h : Plays conv p w) (hf : Pair.Follows conv stream w arq taken) (hstream : stream .left = 0)
    {e : Session.Event} (hp : p.Allowed (.server e)) (hstep : p.step (.server e) = .ok p') :
    ∃ w', Made p (.server e) w w' ∧ Plays conv p' w' := by
  cases hserver : p.server with
  | none =>
    rw [step, hserver] at hstep
    cases hstep
    exact ⟨w, .inl rfl, h⟩
  | some c =>
  obtain ⟨hlive, hid⟩ := h.live c hserver
  rw [step, hserver] at hstep
  obtain ⟨⟨c', ds, calls⟩, hevent, hp'⟩ := bind_eq_ok.mp hstep
  cases hp'
  cases e with
  | onRead d =>
    obtain ⟨c₁, hread, heq⟩ := bind_eq_ok.mp hevent
    cases heq
    obtain ⟨kcp, ret, hinput, rfl, hlive'⟩ := Session.onRead_cases hlive hread
    rw [h.take_up hp] at hinput
    refine ⟨_, .inr ⟨.input .right d, h.allowed hp, fun _ _ => h.allowed hp, ?_⟩,
      h.set_right [] [] [] [] hlive' hid rfl⟩
    rw [Pair.step, hinput]
    rfl
  | update ms =>
    obtain ⟨⟨c₁, ds₁⟩, hupdate, heq⟩ := bind_eq_ok.mp hevent
    cases heq
    obtain ⟨kcp, hkcp, rfl, hlive'⟩ := Session.update_cases hlive hupdate
    refine ⟨_, .inr ⟨.update .right ms, trivial, fun _ htime => htime, ?_⟩,
      h.set_right ds [] [] [] hlive' hid rfl⟩
    rw [Pair.step, hkcp]
    rfl
  | write buf =>
    obtain ⟨⟨c₁, n⟩, hwrite, heq⟩ := bind_eq_ok.mp hevent
    cases heq
    obtain ⟨kcp, ret, hsend, rfl, hlive'⟩ := Session.write_cases hlive hwrite
    have hallowed : w.Allowed (.send .right buf) := hp (w.peer .right) (by rw [hserver]; exact hlive.ptr)
    refine ⟨_, .inr ⟨.send .right buf, hallowed, fun _ _ => hallowed, ?_⟩,
      h.set_right [] ((w.peer .right).accepted buf ret) [] [] hlive' hid rfl⟩
    rw [Pair.step, hsend]
    rfl
  | deal =>
    obtain ⟨⟨c₁, ret, call⟩, hdeal, heq⟩ := bind_eq_ok.mp hevent
    cases heq
    rw [List.append_nil]
    exact plays_deal h hf hstream hserver hdeal

/-- Every step of a play is a call of one of the two ends, or it does not call `ikcp`. -/
theorem plays_step (h : Plays conv p w) (hf : Pair.Follows conv stream w arq taken) (hstream : stream .left = 0)
    {op : PlayOp} (hp : p.Allowed op) (hstep : p.step op = .ok p') : ∃ w', Made p op w w' ∧ Plays conv p' w' := by
  cases op with
  | client c => exact plays_client h hf hstream hp hstep
  | accept c fd d ms => exact plays_accept h hf hp hstep
  | server e => exact plays_server h hf hstream hp hstep

end Step

end Plays

/-! ## Runs -/

/-- The two ends at the beginning: the server's has been set up before the first datagram comes. -/
def peers (client : IKCPCB) : Side → IKCPCB
  | .left => client
  | .right => Session.setupKcp client.conv

section Run
variable {client : IKCPCB} {id : Int} {base : Side → UInt32} {p : Play} {w : Pair}

theorem setUp_peers (h₀ : IKCPCB.SetUp client) (s : Side) : IKCPCB.SetUp (peers client s) := by
  cases s with
  | left => exact h₀
  | right => exact Session.setUp_setupKcp client.conv

theorem conv_peers (s : Side) : (peers client s).conv = client.conv := by
  cases s <;> rfl

theorem plays_start (h₀ : IKCPCB.SetUp client) (hmtu : client.mtu.toNat ≤ READ_BUFF_SIZE) :
    Plays client.conv (start client id) (Pair.start (peers client)) where
  client := rfl
  fresh _ := rfl
  live _ hc := nomatch hc
  up := rfl
  down := rfl
  sent := rfl
  calls := rfl
  msgs _ hm := nomatch hm
  sizes _ hd := nomatch hd
  windows := h₀.idle.windows
  mtu := hmtu

/-- Every run of a play is a run of two ends. -/
theorem plays_of_reach {P : Play → PlayOp → Prop} {Q : Pair → PairOp → Prop} (h₀ : IKCPCB.SetUp client)
    (hstream : client.stream = 0) (hmtu : client.mtu.toNat ≤ READ_BUFF_SIZE) (hP : ∀ p op, P p op → p.Allowed op)
    (hQ : ∀ w op, Q w op → w.Allowed op)
    (hPQ : ∀ p op w op', P p op → w.Allowed op' → (∀ base, p.OnTime base op → Pair.OnTime base w op') → Q w op')
    (h : Reach step P (start client id) p) :
    ∃ w, Reach Pair.step Q (Pair.start (peers client)) w ∧ Plays client.conv p w := by
  refine h.invariant (I := fun p => ∃ w, Reach Pair.step Q (Pair.start (peers client)) w ∧ Plays client.conv p w)
    ⟨_, .refl, plays_start h₀ hmtu⟩ ?_
  rintro p op p' ⟨w, hw, hplays⟩ hp hstep
  obtain ⟨arq, taken, hf⟩ := Pair.follows_of_start (setUp_peers h₀) conv_peers (hw.mono hQ)
  obtain ⟨w', hmade, hplays'⟩ := plays_step hplays hf hstream (hP p op hp) hstep
  refine ⟨w', ?_, hplays'⟩
  rcases hmade with rfl | ⟨op', hallowed, htime, hw'⟩
  · exact hw
  · exact hw.step (hPQ p op w op' hp hallowed htime) hw'

/-! ### Two commands -/

/-- A session with a message ready hands it to `processKcp`. -/
theorem exists_deal (h₀ : IKCPCB.SetUp client) (hstream : client.stream = 0) (hmtu : client.mtu.toNat ≤ READ_BUFF_SIZE)
    (h : Reach step (OnTime base) (start client id) p) {c : Session} (hc : p.server = some c) (hread : c.bread = true)
    {kcp : IKCPCB} (hptr : c.kcp = some kcp) (hpos : 0 < kcp.peeksize) (hfits : kcp.peeksize ≤ BUFF_CACHE_SIZE) :
    ∃ c' call kcp' bytes, Reach step (OnTime base) (start client id)
        { p with server := some c', down := p.down ++ [], calls := p.calls ++ [call] } ∧
      c'.kcp = some kcp' ∧ kcp.recv BUFF_CACHE_SIZE = .ok (kcp', kcp.peeksize, bytes) := by
  obtain ⟨w, hw, hplays⟩ := plays_of_reach (Q := Pair.OnTime base) h₀ hstream hmtu (fun _ _ ho => ho.allowed)
    (fun _ _ hq => hq.allowed) (fun _ _ _ _ ho _ htime => htime _ ho) h
  obtain ⟨-, arq, taken, hf⟩ := Pair.punctual_of_reach (setUp_peers h₀) conv_peers hw
  obtain ⟨hlive, -⟩ := hplays.live c hc
  obtain rfl : w.peer .right = kcp := Option.some.inj (hlive.ptr.symm.trans hptr)
  obtain ⟨c', call, hdeal, -⟩ := Session.onDealMsg_oneMsg hlive hread hpos hfits (hplays.oneMsg hf hstream hpos)
  have hstep : p.step (.server .deal) = .ok
      { p with server := some c', down := p.down ++ [], calls := p.calls ++ [call] } := by
    rw [step, hc]
    dsimp only
    rw [Session.event, hdeal]
    rfl
  have hreach := h.step (show p.OnTime base (.server .deal) from trivial) hstep
  rcases Session.onDealMsg_cases hlive hdeal with ⟨hread', -⟩ | ⟨-, kcp', cacheBuf, hc', -, ⟨-, -, hnone⟩ | ⟨-, -, hrecv⟩⟩
  · exact absurd hread' (by rw [hread]; decide)
  · cases hnone
  · exact ⟨c', call, kcp', _, hreach, by rw [hc'], hrecv⟩

/-- A command with a body of two bytes. -/
def secondCommand : Bytes := [2, 0, 0, 0, 208, 7, 0, 0, 5, 0, 0, 0, 1, 0, 0, 0, 8, 1]

def secondDatagram : Bytes :=
  [7, 0, 0, 0, 81, 0, 32, 0, 10, 0, 0, 0, 1, 0, 0, 0, 0, 0, 0, 0, 18, 0, 0, 0] ++ secondCommand

/-- The client sends two commands. The second one arrives first and opens the session, the first one arrives twice, and the
server deals with both. -/
theorem reach_twoCommands : ∃ p c call call', Reach step (OnTime fun _ => 0)
    (start ((IKCPCB.create 7).setNodelay 1 10 2 1) 1) p ∧ p.server = some c ∧ p.calls = [call, call'] ∧
      Session.firstDatagram ∈ p.up := by
  have h : (runIf step (fun p op => decide (OnTime (fun _ => 0) p op)) (start ((IKCPCB.create 7).setNodelay 1 10 2 1) 1)
      [.client (.send Session.firstCommand), .client (.update 0), .client (.send secondCommand), .client (.update 10),
        .accept Session.new 3 secondDatagram 10, .server (.onRead Session.firstDatagram)]).any
        (fun p => decide (p.calls = [] ∧ Session.firstDatagram ∈ p.up) && p.server.any fun c => c.bread && c.kcp.any
          fun kcp => decide (kcp.peeksize = 16) && (kcp.recv BUFF_CACHE_SIZE).toOption.any fun r =>
            (r.1.input Session.firstDatagram).toOption.any fun r => decide (r.1.peeksize = 18)) = true := by
    decide +kernel
  obtain ⟨p, hp, hq⟩ := Reach.of_runIf_any (fun _ _ ho => of_decide_eq_true ho) h
  obtain ⟨hp', hserver⟩ := (Bool.and_eq_true_iff).mp hq
  obtain ⟨hcalls, hup⟩ := of_decide_eq_true hp'
  obtain ⟨c, hc, hread⟩ := (Option.any_eq_true _ _).mp hserver
  obtain ⟨hread, hkcp⟩ := (Bool.and_eq_true_iff).mp hread
  obtain ⟨kcp, hptr, hsize⟩ := (Option.any_eq_true _ _).mp hkcp
  obtain ⟨hsize, hnext⟩ := (Bool.and_eq_true_iff).mp hsize
  have hsize := of_decide_eq_true hsize
  obtain ⟨r, hrecv, hnext⟩ := exists_ok_of_any hnext
  obtain ⟨r', hinput, hsize'⟩ := exists_ok_of_any hnext
  have hsize' := of_decide_eq_true hsize'
  have h₀ : IKCPCB.SetUp ((IKCPCB.create 7).setNodelay 1 10 2 1) := (IKCPCB.SetUp.create 7).nodelay
  -- the first command
  obtain ⟨c₁, call, kcp₁, bytes, hp₁, hptr₁, hrecv₁⟩ := exists_deal h₀ rfl (by decide) hp hc hread hptr
    (by rw [hsize]; decide) (by rw [hsize]; decide)
  obtain rfl : r.1 = kcp₁ := congrArg Prod.fst (Except.ok.inj (hrecv.symm.trans hrecv₁))
  generalize hmid : ({ p with server := some c₁, down := p.down ++ [], calls := p.calls ++ [call] } : Play) = p₁ at hp₁
  have hc₁ : p₁.server = some c₁ := by rw [← hmid]
  have hup₁ : Session.firstDatagram ∈ p₁.up := by
    rw [← hmid]
    exact hup
  -- its datagram comes once more
  have hagain : p₁.step (.server (.onRead Session.firstDatagram)) = .ok { p₁ with
      server := some { c₁ with bread := true, kcp := some r'.1 }, down := p₁.down ++ [], calls := p₁.calls ++ [] } := by
    rw [step, hc₁]
    dsimp only
    rw [Session.event, Session.onRead, hptr₁]
    dsimp only
    rw [show Session.firstDatagram.take READ_BUFF_SIZE = Session.firstDatagram from rfl, hinput]
    rfl
  have hp₂ := hp₁.step (show p₁.OnTime (fun _ => 0) (.server (.onRead Session.firstDatagram)) from hup₁) hagain
  -- the second command
  obtain ⟨c₂, call', -, -, hp₃, -, -⟩ := exists_deal h₀ rfl (by decide) hp₂ rfl rfl rfl (by rw [hsize']; decide)
    (by rw [hsize']; decide)
  refine ⟨_, c₂, call, call', hp₃, rfl, ?_, hup₁⟩
  rw [← hmid, hcalls]
  rfl

/-- Whatever the network does, and whenever the client and the server call: `processKcp` is called with the messages of
the client, with each of them once and in the order in which they have been sent. -/
theorem calls_prefix_sent (h₀ : IKCPCB.SetUp client) (hstream : client.stream = 0)
    (hmtu : client.mtu.toNat ≤ READ_BUFF_SIZE) (h : Reach step Allowed (start client id) p) :
    p.calls <+: p.sent.filterMap (UDPConn.wholeMsg p.id) := by
  obtain ⟨w, hw, hplays⟩ := plays_of_reach h₀ hstream hmtu (fun _ _ hp => hp) (fun _ _ hq => hq)
    (fun _ _ _ _ _ hallowed _ => hallowed) h
  obtain ⟨arq, taken, hf⟩ := Pair.follows_of_start (setUp_peers h₀) conv_peers hw
  obtain ⟨rest, hrest⟩ := hf.msgs_prefix (s := .right) hstream
  rw [hplays.calls, ← hplays.sent, show w.sent .left = w.got .right ++ rest from hrest.symm, List.filterMap_append]
  exact List.prefix_append _ _

theorem calls_prefix_sent_twoCommands : ∃ p call call', Reach step Allowed
    (start ((IKCPCB.create 7).setNodelay 1 10 2 1) 1) p ∧ p.calls = [call, call'] ∧
      p.calls <+: p.sent.filterMap (UDPConn.wholeMsg p.id) := by
  obtain ⟨p, -, call, call', hp, -, hcalls, -⟩ := reach_twoCommands
  have hp := hp.mono fun _ _ ho => OnTime.allowed ho
  exact ⟨p, call, call', hp, hcalls, calls_prefix_sent (IKCPCB.SetUp.create 7).nodelay rfl (by decide) hp⟩

/-- No `OnDealMsg` fails. -/
theorem deal_ok (h₀ : IKCPCB.SetUp client) (hstream : client.stream = 0) (hmtu : client.mtu.toNat ≤ READ_BUFF_SIZE)
    (h : Reach step Allowed (start client id) p) {c : Session} (hc : p.server = some c) :
    ∃ c' r, c.onDealMsg = .ok (c', r) := by
  obtain ⟨w, hw, hplays⟩ := plays_of_reach h₀ hstream hmtu (fun _ _ hp => hp) (fun _ _ hq => hq)
    (fun _ _ _ _ _ hallowed _ => hallowed) h
  obtain ⟨arq, taken, hf⟩ := Pair.follows_of_start (setUp_peers h₀) conv_peers hw
  exact Session.onDealMsg_ok (hplays.live c hc).1 (hplays.oneMsg hf hstream)

theorem deal_ok_twoCommands : ∃ p c, Reach step Allowed (start ((IKCPCB.create 7).setNodelay 1 10 2 1) 1) p ∧
    p.calls.length = 2 ∧ p.server = some c ∧ ∃ c' r, c.onDealMsg = .ok (c', r) := by
  obtain ⟨p, c, call, call', hp, hc, hcalls, -⟩ := reach_twoCommands
  have hp := hp.mono fun _ _ ho => OnTime.allowed ho
  exact ⟨p, c, hp, by rw [hcalls]; rfl, hc, deal_ok (IKCPCB.SetUp.create 7).nodelay rfl (by decide) hp hc⟩

end Run

end Play

end KcpServer.Ikcp
