import KcpServer.Reassembly

/-!
# Relaying clients' messages

`connNetObj::dealMsg` sends a client's message on, to the gate or to the player's game node, or fails its assertion.

* `onRead_net_spec` : one `OnRead` of a client's connection, for whatever bytes arrive;
* `relayAll_iff` : a run of `OnRead`s routes every message exactly if the client sends no other message ids;
* `relay_fits_iff` : which messages the connection between the nodes can carry.
-/

namespace KcpServer
open Lib

/-! ## `connNetObj::dealMsg` -/

/-- What a message is sent on with: `rpcCallGate` or `rpcCallGame`. -/
inductive RelayDest
  | gate
  | game
  deriving DecidableEq

/-- A call of `tcpclientMgr::rpcCallGate` or `tcpclientMgr::rpcCallGame`. -/
structure RelayCall where
  dest : RelayDest
  target : CStr
  pid : UInt64
  msgid : UInt32
  body : Bytes

theorem msg2gate_noNul : ∀ b ∈ ([77, 115, 103, 50, 103, 97, 116, 101] : Bytes), b ≠ 0 := by simp

def msg2gate : CStr := ⟨[77, 115, 103, 50, 103, 97, 116, 101], msg2gate_noNul⟩

theorem msg2game_noNul : ∀ b ∈ ([77, 115, 103, 50, 103, 97, 109, 101] : Bytes), b ≠ 0 := by simp

def msg2game : CStr := ⟨[77, 115, 103, 50, 103, 97, 109, 101], msg2game_noNul⟩

/-- `connNetObj::dealMsg` on the connection with session id `pid` -/
def dealMsg (pid : Int) (p : MsgObj) : Except Fault RelayCall :=
  if p.msgid < 1999 then
    return ⟨.gate, msg2gate, .ofInt pid, .ofNat p.msgid, p.body⟩
  else if p.msgid ≥ 2000 ∧ p.msgid < 2999 then
    return ⟨.game, msg2game, .ofInt pid, .ofNat p.msgid, p.body⟩
  else
    .error .assertion

/-- The messages that an `OnRead` of a client's connection hands on, each passed to `dealMsg`; a `connRpcObj` relays
nothing. -/
def dealMsgs (pid : Int) : List Msg → Except Fault (List RelayCall)
  | [] => return []
  | .net p :: msgs => do
    let call ← dealMsg pid p
    return call :: (← dealMsgs pid msgs)
  | .rpc _ :: msgs => dealMsgs pid msgs

/-- A list of `OnRead`s with their calls of `dealMsg`. The parser looks at nothing that `dealMsg` changes. -/
def relayAll (addr : Nat) (c : ConnObj) : List (Int × ReadRes) → Except Fault (List RelayCall)
  | [] => return []
  | (sec, r) :: rs => do
    let out ← c.onRead addr sec r
    let calls ← dealMsgs c.pid out.msgs
    return calls ++ (← relayAll addr out.conn rs)

/-! ## The messages of a stream -/

/-- The message in a client's frame. -/
def netMsg (f : Bytes) : MsgObj := ⟨leNat (slice f 4 4), leNat (f.take 4), f.drop 8⟩

/-- The frames that a read completes and what the connection keeps, by the framing. -/
def ConnKind.cut (k : ConnKind) (pending chunk : Bytes) : List Bytes × Bytes :=
  let s := k.framing.split (pending ++ chunk)
  (s.1, if s.1 ≠ [] ∧ s.2.length < k.header then [] else s.2)

/-- The frames that a sequence of reads completes. -/
def ConnKind.cuts (k : ConnKind) : Bytes → List Bytes → List Bytes
  | _, [] => []
  | pending, chunk :: chunks => (k.cut pending chunk).1 ++ k.cuts (k.cut pending chunk).2 chunks

def chunks (rs : List (Int × ReadRes)) : List Bytes := rs.map fun r => r.2.bytes

/-- A message id in one of the two ranges. -/
def Routable (msgid : Nat) : Prop := msgid < 1999 ∨ 2000 ≤ msgid ∧ msgid < 2999

instance (msgid : Nat) : Decidable (Routable msgid) := inferInstanceAs (Decidable (_ ∨ _))

/-- Every one of these frames carries such an id. -/
def AllRoutable (fs : List Bytes) : Prop := ∀ f ∈ fs, Routable (netMsg f).msgid

instance (fs : List Bytes) : Decidable (AllRoutable fs) := List.decidableBAll _ _

theorem allRoutable_append {fs gs : List Bytes} : AllRoutable (fs ++ gs) ↔ AllRoutable fs ∧ AllRoutable gs := by
  simp only [AllRoutable, List.forall_mem_append]

/-- Where a message with a routable id goes. -/
def relay (pid : Int) (p : MsgObj) : RelayCall :=
  if p.msgid < 1999 then ⟨.gate, msg2gate, .ofInt pid, .ofNat p.msgid, p.body⟩
  else ⟨.game, msg2game, .ofInt pid, .ofNat p.msgid, p.body⟩

theorem dealMsg_eq (pid : Int) (p : MsgObj) :
    dealMsg pid p = if Routable p.msgid then .ok (relay pid p) else .error .assertion := by
  unfold dealMsg Routable relay
  by_cases hgate : p.msgid < 1999
  · simp [hgate, Pure.pure, Except.pure]
  · by_cases hgame : p.msgid ≥ 2000 ∧ p.msgid < 2999
    · simp [hgate, hgame, Pure.pure, Except.pure]
    · simp [hgate, hgame]

theorem dealMsgs_net (pid : Int) (fs : List Bytes) : dealMsgs pid ((fs.map netMsg).map .net) =
    if AllRoutable fs then .ok ((fs.map netMsg).map (relay pid)) else .error .assertion := by
  induction fs with
  | nil => simp [dealMsgs, AllRoutable, Pure.pure, Except.pure]
  | cons f fs ih =>
    have hcons : AllRoutable (f :: fs) ↔ Routable (netMsg f).msgid ∧ AllRoutable fs := List.forall_mem_cons
    simp only [List.map_cons, dealMsgs, dealMsg_eq, ih, hcons]
    by_cases hf : Routable (netMsg f).msgid
    · by_cases hfs : AllRoutable fs
      · simp [hf, hfs, Pure.pure, Except.pure]
      · simp [hf, hfs]
    · simp [hf]

/-! ## One `OnRead` of a client's connection -/

theorem dealNet_isFrame {f : Bytes} (hf : ConnKind.net.framing.IsFrame f) : ConnObj.dealNet f 0 = .ok (.net (netMsg f)) := by
  have hlen : 8 ≤ f.length := by
    by_contra hlt
    rw [Framing.IsFrame, ConnKind.framing, lenPrefixed_size_of_lt (by simp only [ConnKind.extra]; omega)] at hf
    cases hf
  rw [Framing.IsFrame, ConnKind.framing, lenPrefixed_size (by simp only [ConnKind.extra]; omega)] at hf
  have hsize := Option.some.inj hf
  simp only [ConnKind.extra] at hsize
  rw [ConnObj.dealNet, readLE_eq (by omega), ok_bind, readLE_eq (by omega), ok_bind, slice_zero, readAt_eq (by omega)]
  have hbody : slice f 8 (leNat (f.take 4)) = f.drop 8 := by
    apply List.take_of_length_le
    rw [List.length_drop]
    omega
  simp [netMsg, hbody, Pure.pure, Except.pure]

/-- A complete message of a client can be read whatever it holds. -/
theorem Frame.decodable_net (addr : Nat) (f : Frame .net) : f.Decodable addr := ⟨_, dealNet_isFrame f.isFrame⟩

theorem exists_netFrames (addr : Nat) (bs : List Bytes)
    (hbs : ∀ b ∈ bs, ConnKind.net.framing.IsFrame b ∧ b.length ≤ RECV_BUFFER_SIZE) : ∃ fs : List (Frame .net),
    fs.map (·.bytes) = bs ∧ Hold addr fs ((bs.map netMsg).map .net) := by
  induction bs with
  | nil => exact ⟨[], rfl, .nil⟩
  | cons b bs ih =>
    rw [List.forall_mem_cons] at hbs
    obtain ⟨fs, hbytes, hmsgs⟩ := ih hbs.2
    exact ⟨⟨b, hbs.1.1, hbs.1.2⟩ :: fs, by simp [hbytes], .cons (dealNet_isFrame hbs.1.1) hmsgs⟩

/-- One `OnRead` of a client's connection hands on the messages of the frames it completes. -/
theorem onRead_net_spec {c : ConnObj} (hk : c.kind = .net) (hopen : c.bclose = false) (addr : Nat) {r : ReadRes}
    (hasked : c.netOffset + r.bytes.length ≤ RECV_BUFFER_SIZE) (sec : Int) :
    ∃ out, c.onRead addr sec r = .ok out ∧ out.msgs = ((ConnKind.net.cut c.pending r.bytes).1.map netMsg).map .net ∧
      out.conn.kind = .net ∧ out.conn.bclose = false ∧ out.conn.pid = c.pid ∧
      out.conn.pending = (ConnKind.net.cut c.pending r.bytes).2 := by
  have hlen : (c.pending ++ r.bytes).length ≤ RECV_BUFFER_SIZE := by
    rw [List.length_append, ConnObj.length_pending (by omega)]
    exact hasked
  obtain ⟨fs, hbytes, hmsgs⟩ := exists_netFrames addr (ConnKind.net.framing.split (c.pending ++ r.bytes)).1 (by
    intro b hb
    obtain ⟨hframe, hle⟩ := Framing.isFrame_of_mem_split _ lenPrefixed_size_take hb
    exact ⟨hframe, hle.trans hlen⟩)
  have hsplit := ConnKind.net.framing.flatten_split (c.pending ++ r.bytes)
  rw [← hbytes] at hsplit
  obtain ⟨out, hout, hdeal, hkind, hopen', -, hpend⟩ := ConnObj.onRead_spec hk hopen hmsgs
    (ConnKind.net.framing.incomplete_split _) hasked hsplit.symm sec
  refine ⟨out, hout, by rw [hdeal]; rfl, hkind, hopen', (ConnObj.onRead_ids hout).2, ?_⟩
  rw [hpend]
  simp only [ConnKind.cut, ← hbytes]
  simp

/-! ## Runs of reads -/

/-- From any state, with what is pending. -/
theorem relayAll_eq {c : ConnObj} (hk : c.kind = .net) (hopen : c.bclose = false) (addr : Nat)
    (rs : List (Int × ReadRes)) (hasked : ConnObj.Asked addr c rs) : relayAll addr c rs =
      if AllRoutable (ConnKind.net.cuts c.pending (chunks rs)) then
        .ok (((ConnKind.net.cuts c.pending (chunks rs)).map netMsg).map (relay c.pid))
      else .error .assertion := by
  induction rs generalizing c with
  | nil => simp [relayAll, chunks, ConnKind.cuts, AllRoutable, Pure.pure, Except.pure]
  | cons r rs ih =>
    obtain ⟨sec, r⟩ := r
    obtain ⟨hfit, hasked⟩ := hasked
    obtain ⟨out, hout, hmsgs, hk', hopen', hpid, hpend⟩ := onRead_net_spec hk hopen addr hfit sec
    have hchunks : chunks ((sec, r) :: rs) = r.bytes :: chunks rs := rfl
    rw [relayAll, hout, ok_bind, hmsgs, dealMsgs_net, ih hk' hopen' (hasked out hout), hpend, hpid]
    simp only [hchunks, ConnKind.cuts, allRoutable_append]
    by_cases hnow : AllRoutable (ConnKind.net.cut c.pending r.bytes).1
    · by_cases hlater : AllRoutable (ConnKind.net.cuts (ConnKind.net.cut c.pending r.bytes).2 (chunks rs))
      · simp [hnow, hlater, Pure.pure, Except.pure]
      · simp [hnow, hlater]
    · simp [hnow]

/-- **Which client streams the node survives.** For whatever bytes a client sends, cut into reads in whatever way, every
message is sent on to the gate or to the game node, each once and in order, if and only if every frame that the reads
complete carries a message id below 1999 or from 2000 to 2998; otherwise an assertion fails. -/
theorem relayAll_iff {c : ConnObj} (hk : c.kind = .net) (hopen : c.bclose = false) (hempty : c.netOffset = 0)
    (addr : Nat) (rs : List (Int × ReadRes)) (hasked : ConnObj.Asked addr c rs) :
    (relayAll addr c rs = .ok (((ConnKind.net.cuts [] (chunks rs)).map netMsg).map (relay c.pid)) ↔
      AllRoutable (ConnKind.net.cuts [] (chunks rs))) ∧
    (relayAll addr c rs = .error .assertion ↔ ¬ AllRoutable (ConnKind.net.cuts [] (chunks rs))) := by
  have hpend : c.pending = [] := by
    rw [ConnObj.pending, hempty, List.take_zero]
  rw [relayAll_eq hk hopen addr rs hasked, hpend]
  by_cases hall : AllRoutable (ConnKind.net.cuts [] (chunks rs))
  · simp [hall]
  · simp [hall]

section Cut
variable {k : ConnKind} {pending chunk f rest : Bytes}

theorem cut_incomplete (h : k.framing.Incomplete (pending ++ chunk)) : k.cut pending chunk = ([], pending ++ chunk) := by
  simp [ConnKind.cut, k.framing.split_of_incomplete h]

/-- A read that completes one frame, and does not end inside of the next header. -/
theorem cut_frame (h : pending ++ chunk = f ++ rest) (hf : k.framing.IsFrame f) (hrest : k.framing.Incomplete rest)
    (hlen : rest = [] ∨ k.header ≤ rest.length) : k.cut pending chunk = ([f], rest) := by
  rw [ConnKind.cut, h, k.framing.split_isFrame_append hf, k.framing.split_of_incomplete hrest]
  rcases hlen with rfl | hlen
  · simp
  · simp [not_lt.mpr hlen]

theorem cuts_one (hf : k.framing.IsFrame f) : k.cuts [] [f] = [f] := by
  have hcut : k.cut [] f = ([f], []) :=
    cut_frame (List.append_nil f).symm hf (fun n hn => k.framing.size_pos hn) (.inl rfl)
  rw [ConnKind.cuts, hcut]
  rfl

end Cut

theorem netMsg_netFrame (msgid : UInt32) (body : Bytes) (h : body.length ≤ 4088) :
    netMsg (netFrame msgid body h).bytes = ⟨msgid.toNat, body.length, body⟩ := by
  have hdeal := dealNet_isFrame (netFrame msgid body h).isFrame
  have hmsg := deal_netFrame 0 msgid h
  apply Msg.net.inj
  apply Except.ok.inj
  exact hdeal.symm.trans hmsg

/-- A client's message with id 1999, without a body, fails the assertion. -/
theorem not_relayAll : ∃ rs, ConnObj.Asked 0 (.new .net 5) rs ∧ relayAll 0 (.new .net 5) rs = .error .assertion := by
  have hasked : ConnObj.Asked 0 (.new .net 5) [(0, .data (netFrame 1999 [] (by simp)).bytes)] :=
    ⟨by decide, fun _ _ => trivial⟩
  refine ⟨_, hasked, (relayAll_iff rfl rfl rfl 0 _ hasked).2.mpr ?_⟩
  intro hall
  rw [chunks, List.map_singleton, ReadRes.bytes, cuts_one (netFrame 1999 [] (by simp)).isFrame] at hall
  have hmsgid := hall _ List.mem_cons_self
  rw [netMsg_netFrame] at hmsgid
  exact absurd hmsgid (by decide)

/-- A message for the gate and one for the game node, in three reads: the first one ends inside of the first header, the
second one behind the second header. -/
theorem relayAll_two : relayAll 0 (.new .net 5)
    [(0, .data [0, 0, 0, 0, 100]), (0, .data [0, 0, 0, 1, 0, 0, 0, 208, 7, 0, 0]), (1, .data [9])] =
    .ok [⟨.gate, msg2gate, 0, 100, []⟩, ⟨.game, msg2game, 0, 2000, [9]⟩] := by
  have hasked : ConnObj.Asked 0 (.new .net 5)
      [(0, .data [0, 0, 0, 0, 100]), (0, .data [0, 0, 0, 1, 0, 0, 0, 208, 7, 0, 0]), (1, .data [9])] :=
    ConnObj.asked_of_length_le (by decide)
  have hfirst := (netFrame 100 [] (by simp)).isFrame
  have hsecond := (netFrame 2000 [9] (by simp)).isFrame
  have hcuts : ConnKind.net.cuts [] (chunks [((0 : Int), .data [0, 0, 0, 0, 100]),
      (0, .data [0, 0, 0, 1, 0, 0, 0, 208, 7, 0, 0]), (1, .data [9])]) =
      [(netFrame 100 [] (by simp)).bytes, (netFrame 2000 [9] (by simp)).bytes] := by
    have h₁ : ConnKind.net.cut [] [0, 0, 0, 0, 100] = ([], [0, 0, 0, 0, 100]) :=
      cut_incomplete (hfirst.incomplete_of_append _ (t := [0, 0, 0]) rfl (by simp))
    have h₂ : ConnKind.net.cut [0, 0, 0, 0, 100] [0, 0, 0, 1, 0, 0, 0, 208, 7, 0, 0] =
        ([(netFrame 100 [] (by simp)).bytes], [1, 0, 0, 0, 208, 7, 0, 0]) :=
      cut_frame rfl hfirst (hsecond.incomplete_of_append _ (t := [9]) rfl (by simp)) (.inr (by decide))
    have h₃ : ConnKind.net.cut [1, 0, 0, 0, 208, 7, 0, 0] [9] = ([(netFrame 2000 [9] (by simp)).bytes], []) :=
      cut_frame rfl hsecond (lenPrefixed_incomplete_of_lt (by decide)) (.inl rfl)
    simp only [chunks, List.map_cons, List.map_nil, ReadRes.bytes, ConnKind.cuts, h₁, h₂, h₃]
    rfl
  have h := (relayAll_iff (c := .new .net 5) rfl rfl rfl 0 _ hasked).1.mpr (by
    rw [hcuts, AllRoutable, List.forall_mem_cons, List.forall_mem_singleton, netMsg_netFrame, netMsg_netFrame]
    decide)
  rw [h, hcuts]
  simp only [List.map_cons, List.map_nil, netMsg_netFrame]
  rfl

/-! ## What the connection between the nodes can carry -/

/-- The arguments of `rpcCallGame` as those of an RPC. -/
def RelayCall.Sends (call : RelayCall) (q : RpcMsg) : Prop :=
  q.target = call.target ∧ q.pid = call.pid ∧ q.msgid = call.msgid ∧ q.body = call.body

/-- The record of a relayed message is no longer than the game node's receive buffer, and however it is cut into reads,
the game node's parser hands on one object with the client's session id, message id and body. -/
def ReachesGame (name : ServerName) (pid : Int) (p : MsgObj) (q : RpcMsg) : Prop :=
  getRpcSize name q + 4 ≤ RECV_BUFFER_SIZE ∧
    ∀ (addr : Nat) (d : ConnObj), d.kind = .rpc → d.bclose = false → d.netOffset = 0 →
      ∀ rs, ConnObj.Asked addr d rs → received rs = record name q →
        ∃ outs o, d.readAll addr rs = .ok outs ∧ ConnObj.dispatched outs = [.rpc o] ∧
          o.pid = (UInt64.ofInt pid).toNat ∧ o.msgid = p.msgid ∧ o.body = p.body

theorem reassembled_single {k : ConnKind} {addr : Nat} {c : ConnObj} (hk : c.kind = k) (hopen : c.bclose = false)
    (hempty : c.netOffset = 0) {f : Frame k} {msg : Msg} (hmsg : f.deal addr = .ok msg) (rs : List (Int × ReadRes))
    (hasked : ConnObj.Asked addr c rs) (hrs : received rs = f.bytes) :
    ∃ outs, c.readAll addr rs = .ok outs ∧ ConnObj.dispatched outs = [msg] := by
  have hstream : stream [f] = f.bytes := by simp [stream]
  have hpend : c.pending = [] := by rw [ConnObj.pending, hempty, List.take_zero]
  have hinc : k.framing.Incomplete c.pending := by
    rw [hpend]
    exact fun n hn => k.framing.size_pos hn
  have hdec : ∀ g ∈ [f], g.Decodable addr := List.forall_mem_singleton.mpr ⟨msg, hmsg⟩
  obtain ⟨outs, hall, hdisp, -⟩ := (ConnObj.reassembled_iff_noCut hdec hk hopen hinc hasked (by
    rw [hpend]
    exact hrs.trans hstream.symm)).mpr (by
      rw [hpend, List.length_nil]
      rintro n hn ⟨gs, hs, heq, ha, hb, -⟩
      -- nothing follows the frame
      rcases List.append_eq_singleton_iff.mp heq.symm with ⟨rfl, -⟩ | ⟨rfl, -⟩
      · exact absurd ha (Nat.not_lt_zero _)
      · have hle : (received (rs.take (n + 1))).length ≤ (received rs).length := by
          apply List.Sublist.length_le
          apply List.Sublist.flatMap
          exact List.take_sublist _ _
        rw [hstream, Nat.zero_add, ← hrs] at hb
        omega)
  exact ⟨outs, hall, hold_singleton hmsg hdisp⟩

theorem length_body_of_mem {c : ConnObj} (hk : c.kind = .net) (hopen : c.bclose = false) {addr : Nat} {sec : Int}
    {r : ReadRes} (hasked : c.netOffset + r.bytes.length ≤ RECV_BUFFER_SIZE) {out : ConnObj.ReadOut}
    (hout : c.onRead addr sec r = .ok out) {p : MsgObj} (hp : .net p ∈ out.msgs) : p.body.length + 8 ≤ RECV_BUFFER_SIZE := by
  have hR : RECV_BUFFER_SIZE = 4096 := rfl
  obtain ⟨out', hout', hmsgs, -⟩ := onRead_net_spec hk hopen addr hasked sec
  obtain rfl : out = out' := Except.ok.inj (hout.symm.trans hout')
  rw [hmsgs, List.map_map] at hp
  obtain ⟨f, hf, heq⟩ := List.mem_map.mp hp
  cases heq
  obtain ⟨-, hle⟩ := Framing.isFrame_of_mem_split _ lenPrefixed_size_take hf
  rw [List.length_append, ConnObj.length_pending (by omega)] at hle
  simp only [netMsg, List.length_drop]
  omega

/-- **Which messages reach the game node.** A message out of a client's connection that `dealMsg` forwards to the game
node, with whatever server name, fits in the game node's receive buffer and is decoded there to the same session id,
message id and body, if and only if its body and the name are together at most 4057 bytes long. -/
theorem relay_fits_iff (name : ServerName) {c : ConnObj} (hk : c.kind = .net) (hopen : c.bclose = false) {addr : Nat}
    {sec : Int} {r : ReadRes} (hasked : c.netOffset + r.bytes.length ≤ RECV_BUFFER_SIZE) {out : ConnObj.ReadOut}
    (hout : c.onRead addr sec r = .ok out) {p : MsgObj} (hp : .net p ∈ out.msgs) {call : RelayCall}
    (hcall : dealMsg c.pid p = .ok call) (hgame : call.dest = .game) {q : RpcMsg} (hq : call.Sends q) :
    ReachesGame name c.pid p q ↔ p.body.length + name.length ≤ 4057 := by
  have hR : RECV_BUFFER_SIZE = 4096 := rfl
  have hbody := length_body_of_mem hk hopen hasked hout hp
  obtain ⟨htarget, hpid, hmsgid, hqbody⟩ := hq
  -- the branch of `dealMsg`
  have hcall' : call = ⟨.game, msg2game, .ofInt c.pid, .ofNat p.msgid, p.body⟩ ∧ p.msgid < 2999 := by
    unfold dealMsg at hcall
    split_ifs at hcall with hgate hrange
    · cases hcall
      cases hgame
    · cases hcall
      exact ⟨rfl, hrange.2⟩
  obtain ⟨rfl, hrange⟩ := hcall'
  simp only at htarget hpid hmsgid hqbody
  have hname := name.length_le
  have hsize : recordSize name q = 39 + name.length + p.body.length := by
    rw [recordSize, htarget, hqbody]
    simp [msg2game, CStr.length]
  have hget := getRpcSize_add_four name q (by omega)
  constructor
  · intro h
    have := h.1
    omega
  · intro hle
    refine ⟨by omega, ?_⟩
    intro addr d hdk hdopen hdempty rs hdasked hrs
    obtain ⟨f, o, hf, ho, hdec⟩ := exists_rpcFrame addr name q (by omega)
    obtain ⟨outs, hall, hdisp⟩ := reassembled_single hdk hdopen hdempty ho rs hdasked (hrs.trans hf.symm)
    refine ⟨outs, o, hall, hdisp, ?_, ?_, ?_⟩
    · rw [hdec.pid, hpid]
    · rw [hdec.msgid, hmsgid]
      simp
      omega
    · rw [hdec.body, hqbody]

/-- The RPC that relays message 2000 of session 7. -/
def gameCall (body : Bytes) (h : body.length ≤ 4088) : RpcMsg :=
  ⟨msg2game, 7, 2000, body, by decide, lt_of_le_of_lt h (by decide)⟩

theorem exists_gameCall (body : Bytes) (h : body.length ≤ 4088) : ∃ c out call, c.pid = 7 ∧ c.kind = .net ∧
    c.bclose = false ∧ c.netOffset + (ReadRes.data (netFrame 2000 body h).bytes).bytes.length ≤ RECV_BUFFER_SIZE ∧
    ConnObj.onRead 0 0 c (.data (netFrame 2000 body h).bytes) = .ok out ∧
    .net ⟨2000, body.length, body⟩ ∈ out.msgs ∧ dealMsg c.pid ⟨2000, body.length, body⟩ = .ok call ∧
    call.dest = .game ∧ call.Sends (gameCall body h) := by
  have hasked : ((ConnObj.new .net 5).setPid 7).netOffset +
      (ReadRes.data (netFrame 2000 body h).bytes).bytes.length ≤ RECV_BUFFER_SIZE := by
    have := (netFrame 2000 body h).fits
    simpa [ConnObj.new, ConnObj.setPid, ReadRes.bytes] using this
  obtain ⟨out, hout, hmsgs, -⟩ := ConnObj.onRead_spec (k := .net) (c := (ConnObj.new .net 5).setPid 7)
    rfl rfl (.cons (deal_netFrame 0 2000 h) .nil) (lenPrefixed_incomplete_of_lt (s := []) (by decide)) hasked (by
      simp [ConnObj.pending, ConnObj.new, ConnObj.setPid, ReadRes.bytes, stream]) 0
  refine ⟨_, out, ⟨.game, msg2game, 7, 2000, body⟩, rfl, rfl, rfl, hasked, hout, ?_, rfl, rfl, rfl, rfl, rfl, rfl⟩
  rw [hmsgs]
  exact List.mem_cons_self

/-- The longest message that a client's connection takes does not reach the game node. -/
theorem not_relay_fits : ∃ (body : Bytes) (h : body.length ≤ 4088) (c : ConnObj) (out : ConnObj.ReadOut)
    (call : RelayCall), c.onRead 0 0 (.data (netFrame 2000 body h).bytes) = .ok out ∧ .net ⟨2000, body.length, body⟩ ∈ out.msgs ∧
    dealMsg c.pid ⟨2000, body.length, body⟩ = .ok call ∧ call.dest = .game ∧ call.Sends (gameCall body h) ∧
    ¬ ReachesGame game1 c.pid ⟨2000, body.length, body⟩ (gameCall body h) := by
  obtain ⟨body, h, hlen⟩ : ∃ (body : Bytes) (_ : body.length ≤ 4088), body.length = 4088 :=
    ⟨List.replicate 4088 0, le_of_eq List.length_replicate, List.length_replicate⟩
  obtain ⟨c, out, call, -, hk, hopen, hasked, hout, hmem, hcall, hgame, hq⟩ := exists_gameCall body h
  refine ⟨body, h, c, out, call, hout, hmem, hcall, hgame, hq, ?_⟩
  rw [relay_fits_iff game1 hk hopen hasked hout hmem hcall hgame hq]
  simp only [hlen]
  omega

/-- The longest message that reaches it. -/
theorem relay_fits_longest : ∃ (body : Bytes) (h : body.length ≤ 4088), body.length + game1.length = 4057 ∧
    ReachesGame game1 7 ⟨2000, body.length, body⟩ (gameCall body h) := by
  have hname : game1.length = 5 := by decide
  obtain ⟨body, h, hlen⟩ : ∃ (body : Bytes) (_ : body.length ≤ 4088), body.length + game1.length = 4057 :=
    ⟨List.replicate 4052 0, by rw [List.length_replicate]; omega, by rw [List.length_replicate, hname]⟩
  obtain ⟨c, out, call, hpid, hk, hopen, hasked, hout, hmem, hcall, hgame, hq⟩ := exists_gameCall body h
  refine ⟨body, h, hlen, ?_⟩
  rw [← hpid]
  exact (relay_fits_iff game1 hk hopen hasked hout hmem hcall hgame hq).mpr hlen.le

end KcpServer
