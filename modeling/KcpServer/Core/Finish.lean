import KcpServer.Core.FrameLog
import KcpServer.Lib.Protobuf
import KcpServer.NetCall

/-!
# Finishing a room

`RawOver` sends message 213 to each player of a room through the net node's connection. `Finnal` sends the frames of the
room to gate as one message, whatever has become of them: nothing bounds the record while the room runs, and `AppendSend`
bounds it by an assertion. `finish_iff` is the exact condition on the players, on the record and on the current caches of
the two connections; `finish_long` : no room of `2 ^ 21` frames can be finished.

Serialisation of the frames is a parameter; `serializeAllFrames` is the one of the generated code.
-/

namespace KcpServer
open Lib

/-! ## The record -/

/-- `C2SFrameCommand_2000::SerializeWithCachedSizes` -/
def Cmd.serialize (c : Cmd) : Bytes := uint32Field 1 c.data ++ uint32Field 2 c.frameidx

/-- `S2CServerFrameUpdate_2001::SerializeWithCachedSizes` -/
def serialize2001 (f : Nat × List Cmd) : Bytes := uint32Field 1 f.1 ++ f.2.flatMap fun c => messageField 2 c.serialize

/-- `G2gAllRoomFrameData::SerializeWithCachedSizes` -/
def serializeAllFrames (frametime : Nat) (frames : List (Nat × List Cmd)) : Bytes :=
  uint32Field 1 frametime ++ frames.flatMap fun f => messageField 2 (serialize2001 f)

/-- `S2CMatchOver_213::SerializeWithCachedSizes` -/
def serialize213 (overframeid : Nat) : Bytes := uint32Field 1 (uint32 overframeid)

theorem length_serialize213_le (overframeid : Nat) : (serialize213 overframeid).length ≤ 6 := by
  apply length_uint32Field_le (k := 4) (by decide)
  unfold uint32
  omega

/-- The record takes two bytes a frame. -/
theorem two_mul_length_le_serialize (frametime : Nat) (frames : List (Nat × List Cmd)) :
    2 * frames.length ≤ (serializeAllFrames frametime frames).length := by
  have hframes := two_mul_length_le 2 serialize2001 frames
  rw [serializeAllFrames, List.length_append]
  omega

theorem infix_serialize (frametime : Nat) {frames : List (Nat × List Cmd)} {f : Nat × List Cmd} (hf : f ∈ frames)
    {cmd : Cmd} (hcmd : cmd ∈ f.2) : cmd.serialize <:+: serializeAllFrames frametime frames := by
  have hin : cmd.serialize <:+: serialize2001 f :=
    (infix_repeated 2 Cmd.serialize hcmd).trans (List.suffix_append (uint32Field 1 f.1) _).isInfix
  have hframe := infix_repeated 2 serialize2001 hf
  exact hin.trans (hframe.trans (List.suffix_append (uint32Field 1 frametime) _).isInfix)

/-- An upper bound for frames of at most one command. -/
theorem length_serialize_le {frametime : Nat} (htime : frametime < 2 ^ 32) {frames : List (Nat × List Cmd)}
    (hframes : ∀ f ∈ frames, f.1 < 2 ^ 32 ∧ f.2.length ≤ 1 ∧ ∀ cmd ∈ f.2, cmd.data < 2 ^ 32 ∧ cmd.frameidx < 2 ^ 32) :
    (serializeAllFrames frametime frames).length ≤ 6 + 22 * frames.length := by
  have hnum : ∀ field {n : Nat}, field < 16 → n < 2 ^ 32 → (uint32Field field n).length ≤ 6 := fun _ _ hfield hn =>
    length_uint32Field_le (k := 4) hfield (by omega)
  have hcmd : ∀ cmd : Cmd, cmd.data < 2 ^ 32 → cmd.frameidx < 2 ^ 32 → cmd.serialize.length ≤ 12 := by
    intro cmd hdata hidx
    have h₁ := hnum 1 (by decide) hdata
    have h₂ := hnum 2 (by decide) hidx
    rw [Cmd.serialize, List.length_append]
    omega
  have hframe : ∀ f ∈ frames, (serialize2001 f).length ≤ 20 := by
    intro f hf
    obtain ⟨hid, hlen, hcmds⟩ := hframes f hf
    have hnumber := hnum 1 (by decide) hid
    have hlist := length_repeated_le 2 (by decide) (by decide) fun cmd hc =>
      hcmd cmd (hcmds cmd hc).1 (hcmds cmd hc).2
    rw [serialize2001, List.length_append]
    omega
  have hnumber := hnum 1 (by decide) htime
  have hlist := length_repeated_le 2 (by decide) (by decide) hframe
  rw [serializeAllFrames, List.length_append]
  omega

/-! ## The messages -/

theorem updateFrameData_noNul : ∀ b ∈ ([85, 112, 100, 97, 116, 101, 70, 114, 97, 109, 101, 68, 97, 116, 97] : Bytes),
    b ≠ 0 := by simp

def updateFrameData : CStr := ⟨[85, 112, 100, 97, 116, 101, 70, 114, 97, 109, 101, 68, 97, 116, 97], updateFrameData_noNul⟩

theorem updateFrameData_le : updateFrameData.length ≤ 255 := by decide

/-- A length that is passed on as an `unsigned`. -/
theorem length_take_uint32 (bs : Bytes) : (bs.take (uint32 bs.length)).length = bs.length % 2 ^ 32 := by
  have hle : uint32 bs.length ≤ bs.length := by
    unfold uint32
    omega
  rw [List.length_take, min_eq_left hle]
  unfold uint32
  omega

theorem length_take_uint32_lt (bs : Bytes) : (bs.take (uint32 bs.length)).length < 2 ^ 32 := by
  rw [length_take_uint32]
  exact Nat.mod_lt _ (by decide)

/-- The call of `Finnal`. -/
def updateFrameMsg (roomid : Int) (record : Bytes) : RpcMsg :=
  ⟨updateFrameData, .ofInt roomid, 0, record.take (uint32 record.length), updateFrameData_le, length_take_uint32_lt record⟩

theorem recordSize_updateFrameMsg (name : ServerName) (roomid : Int) (record : Bytes) :
    recordSize name (updateFrameMsg roomid record) = 46 + name.length + record.length % 2 ^ 32 := by
  have hlen := length_take_uint32 record
  show 31 + 15 + name.length + (record.take (uint32 record.length)).length = _
  omega

theorem getRpcSize_updateFrameMsg (name : ServerName) (roomid : Int) (record : Bytes) :
    getRpcSize name (updateFrameMsg roomid record) = (42 + name.length + record.length % 2 ^ 32) % 2 ^ 32 := by
  have hlen := length_take_uint32 record
  show (1 + 1 + 0 + 1 + 15 + 1 + name.length + 1 + 6 + 8 + 4 + 4 +
    (record.take (uint32 record.length)).length) % 2 ^ 32 = _
  omega

theorem pushMsg2Client_noNul : ∀ b ∈ ([80, 117, 115, 104, 77, 115, 103, 50, 67, 108, 105, 101, 110, 116] : Bytes),
    b ≠ 0 := by simp

def pushMsg2Client : CStr := ⟨[80, 117, 115, 104, 77, 115, 103, 50, 67, 108, 105, 101, 110, 116], pushMsg2Client_noNul⟩

theorem pushMsg2Client_le : pushMsg2Client.length ≤ 255 := by decide

/-- The buffer that `roomObj::Broadcast` makes of a message 213. -/
def packet213 (overframeid : Nat) : Bytes :=
  le 4 (serialize213 overframeid).length ++ le 4 213 ++ serialize213 overframeid

theorem length_packet213 (overframeid : Nat) : (packet213 overframeid).length = 8 + (serialize213 overframeid).length := by
  simp only [packet213, List.length_append, length_le]

theorem length_packet213_lt (overframeid : Nat) : (packet213 overframeid).length < 2 ^ 32 := by
  have hle := length_serialize213_le overframeid
  rw [length_packet213]
  omega

/-- The call of `playerObj::sendMsg` for it. -/
def pushMsg (pid : Int) (overframeid : Nat) : RpcMsg :=
  ⟨pushMsg2Client, .ofInt pid, 213, packet213 overframeid, pushMsg2Client_le, length_packet213_lt overframeid⟩

theorem recordSize_pushMsg (name : ServerName) (pid : Int) (overframeid : Nat) :
    recordSize name (pushMsg pid overframeid) = 53 + name.length + (serialize213 overframeid).length := by
  have hlen := length_packet213 overframeid
  show 31 + 14 + name.length + (packet213 overframeid).length = _
  omega

/-! ## `RawOver` and `Finnal` -/

/-- A message for gate is sent. -/
def TcpClientMgr.sendOut (name : ServerName) (ser : Nat → List (Nat × List Cmd) → Bytes) (c : TcpClientMgr) :
    Out → Except Fault TcpClientMgr
  | .updateFrameData roomid frametime frames => c.rpcCallGate name (updateFrameMsg roomid (ser frametime frames))
  | _ => return c

/-- A message 213 for a player is sent. -/
def NetLink.sendOut (name : ServerName) (l : NetLink) : Out → Except Fault NetLink
  | .matchOver pid overframeid => l.rpcCallNet name (pushMsg pid overframeid)
  | _ => return l

namespace GameNode

/-- `RawOver` and then `Finnal` on a room, `l` being the net node's connection when `RawOver` sends and `c` the clients when
`Finnal` sends: between the two, other rooms may send. -/
def finish (name : ServerName) (ser : Nat → List (Nat × List Cmd) → Bytes) (g : GameNode) (l : NetLink) (c : TcpClientMgr)
    (r : Nat) : Except Fault (GameNode × NetLink × TcpClientMgr × List Out) := do
  let (g, outs) := g.rawOver r
  let l ← outs.foldlM (NetLink.sendOut name) l
  let (rm, out) := g.rm.finnal r
  let c ← c.sendOut name ser out
  return ({ g with rm }, l, c, outs ++ [out])

def frames (g : GameNode) (r : Nat) : List (Nat × List Cmd) :=
  (g.room r).allOperMap.toList.map fun e => g.rm.msgs.frameData e.2

def online (g : GameNode) (r : Nat) : List Nat := (g.room r).ridPMap.values.filter fun p => (g.pm.players p).off = false

/-- The last frame of a room, by the message 213. -/
def overFrameId (g : GameNode) (r : Nat) : Nat :=
  uint32 (if (g.room r).frameId > 0 then (g.room r).frameId - 1 else (g.room r).frameId)

/-- A message 213 for each player of the room that is not off can be sent. -/
def OversSendable (name : ServerName) (g : GameNode) (l : NetLink) (r : Nat) : Prop :=
  g.online r ≠ [] → ∃ left ∈ l.left,
    SendableTimes (53 + name.length + (serialize213 (g.overFrameId r)).length) (g.online r).length left

section Finish
variable {name : ServerName} {ser : Nat → List (Nat × List Cmd) → Bytes} {l : NetLink} {c : TcpClientMgr}

def frameRecord (ser : Nat → List (Nat × List Cmd) → Bytes) (g : GameNode) (r : Nat) : Bytes :=
  ser (g.room r).frameTick (g.frames r)

/-- What `RawOver` sends to the net node. -/
def overMsgs (g : GameNode) (r : Nat) : List RpcMsg :=
  (g.online r).map fun p => pushMsg (g.pm.players p).pid (g.overFrameId r)

/-- The rest of `RawOver` and `Finnal` does not fail. -/
theorem finish_eq (name : ServerName) (ser : Nat → List (Nat × List Cmd) → Bytes) (g : GameNode) (l : NetLink)
    (c : TcpClientMgr) (r : Nat) : ∃ g' outs, g.finish name ser l c r =
      l.rpcCallNets name (g.overMsgs r) >>= fun l' =>
        c.rpcCallGate name (updateFrameMsg (g.room r).roomid (g.frameRecord ser r)) >>= fun c' =>
          .ok (g', l', c', outs) := by
  obtain ⟨⟨g₁, outs⟩, hraw⟩ : ∃ x, g.rawOver r = x := ⟨_, rfl⟩
  obtain ⟨⟨rm, out⟩, hfin⟩ : ∃ x, g₁.rm.finnal r = x := ⟨_, rfl⟩
  have hsame : g₁.rm = g.rm.modify r ({ · with brun := false }) := by
    rw [← rawOver_rm, hraw]
  have houts : outs = (g.online r).map fun p => Out.matchOver (g.pm.players p).pid (g.overFrameId r) :=
    (congrArg Prod.snd hraw).symm
  have hsent : outs.foldlM (NetLink.sendOut name) l = l.rpcCallNets name (g.overMsgs r) := by
    rw [houts, NetLink.rpcCallNets, overMsgs, List.foldlM_map, List.foldlM_map]
    rfl
  have hout : out = .updateFrameData (g.room r).roomid (g.room r).frameTick (g.frames r) := by
    rw [hsame, RoomMgr.finnal, RoomMgr.modify_self] at hfin
    exact (congrArg Prod.snd hfin).symm
  refine ⟨{ g₁ with rm }, outs ++ [out], ?_⟩
  unfold finish
  rw [hraw]
  dsimp only
  rw [hsent, hfin, hout]
  rfl

theorem overs_ok_iff (hl : l.Waiting) (g : GameNode) (r : Nat) :
    (∃ l', l.rpcCallNets name (g.overMsgs r) = .ok l') ↔ g.OversSendable name l r := by
  have hsize : ∀ m ∈ g.overMsgs r, recordSize name m = 53 + name.length + (serialize213 (g.overFrameId r)).length := by
    intro m hm
    obtain ⟨p, -, rfl⟩ := List.mem_map.mp hm
    exact recordSize_pushMsg name _ _
  rw [NetLink.rpcCallNets_ok_iff hl hsize, overMsgs, List.length_map, ne_eq, List.map_eq_nil_iff]
  rfl

theorem finish_ok_iff (hl : l.Waiting) (hc : c.senders.Waiting) (g : GameNode) (r : Nat) :
    (∃ res, g.finish name ser l c r = .ok res) ↔ g.OversSendable name l r ∧
      ∀ left ∈ c.gateLeft, Sendable (46 + name.length + (g.frameRecord ser r).length % 2 ^ 32) left := by
  obtain ⟨g', outs, heq⟩ := finish_eq name ser g l c r
  rw [← recordSize_updateFrameMsg name (g.room r).roomid, ← TcpClientMgr.rpcCallGate_ok_iff hc, ← overs_ok_iff hl, heq]
  constructor
  · rintro ⟨res, h⟩
    obtain ⟨l', hnet, h⟩ := bind_eq_ok.mp h
    obtain ⟨c', hcall, -⟩ := bind_eq_ok.mp h
    exact ⟨⟨l', hnet⟩, c', hcall⟩
  · rintro ⟨⟨l', hnet⟩, c', hcall⟩
    exact ⟨(g', l', c', outs), bind_eq_ok.mpr ⟨l', hnet, bind_eq_ok.mpr ⟨c', hcall, rfl⟩⟩⟩

/-- Once `RawOver` has sent its messages, the assertion of `AppendSend` fails exactly if the record is one of the sizes that
it refuses. -/
theorem finish_assertion_iff (hl : l.Waiting) (hc : c.senders.Waiting) {g : GameNode} {r : Nat}
    (hovers : g.OversSendable name l r) : g.finish name ser l c r = .error .assertion ↔
      ∃ left ∈ c.gateLeft, Refused ((42 + name.length + (g.frameRecord ser r).length % 2 ^ 32) % 2 ^ 32) left := by
  obtain ⟨g', outs, heq⟩ := finish_eq name ser g l c r
  obtain ⟨l', hnet⟩ := (overs_ok_iff hl g r).mpr hovers
  rw [← getRpcSize_updateFrameMsg name (g.room r).roomid, ← TcpClientMgr.rpcCallGate_assertion_iff hc, heq, hnet]
  constructor
  · intro h
    rcases bind_eq_error (x := c.rpcCallGate name _) h with h | ⟨_, -, h⟩
    · exact h
    · cases h
  · intro h
    show c.rpcCallGate name _ >>= _ = _
    rw [h]
    rfl

end Finish

end GameNode

/-! ## Histories -/

namespace LogWorld

/-- The frames that are sent are those that the room has broadcast. -/
theorem frames_eq {pb : Pb} {g : GameNode} (hg : Reach (GameNode.logStep pb) (fun _ _ => True) .new g) {t : Nat}
    {roomid : Int} {w : LogWorld} (hw : Reach (step pb t) (fun _ o => Lasts t o) (start g t roomid) w) :
    w.node.frames t = w.sent := map_toList_of_dense (inv_reach hg hw).entry

/-- **When a room can be finished.** After any history of a room, and in every state of the send caches of the net node's
connection and of the clients, `RawOver` and `Finnal` complete exactly under two conditions. The messages 213 are sendable
one behind the other, if a player is not off. There is no `gate1`, or the serialised frames, with the 46 bytes around them
and the server's name, fit in what is left of gate's current cache, or exceed it by more than four bytes and fit in an
empty one. Once the messages 213 are sent, the assertion fails exactly if the record without its length word is as large as
what is left, or as a whole cache. -/
theorem finish_iff (name : ServerName) (ser : Nat → List (Nat × List Cmd) → Bytes) {pb : Pb} {g : GameNode}
    (hg : Reach (GameNode.logStep pb) (fun _ _ => True) .new g) {t : Nat} {roomid : Int} {w : LogWorld}
    (hw : Reach (step pb t) (fun _ o => Lasts t o) (start g t roomid) w) {l : NetLink}
    (hl : Reach (NetLink.step name) (fun _ _ => True) .new l) {c : TcpClientMgr}
    (hc : Reach (TcpClientMgr.linkStep name) (fun _ _ => True) .new c) :
    ((∃ res, w.node.finish name ser l c t = .ok res) ↔ w.node.OversSendable name l t ∧ ∀ left ∈ c.gateLeft,
      Sendable (46 + name.length + (ser (w.node.room t).frameTick w.sent).length % 2 ^ 32) left) ∧
    (w.node.OversSendable name l t → (w.node.finish name ser l c t = .error .assertion ↔ ∃ left ∈ c.gateLeft,
      Refused ((42 + name.length + (ser (w.node.room t).frameTick w.sent).length % 2 ^ 32) % 2 ^ 32) left)) := by
  have hrec : w.node.frameRecord ser t = ser (w.node.room t).frameTick w.sent := by
    rw [GameNode.frameRecord, frames_eq hg hw]
  have hnet := NetLink.waiting_reach hl
  have hwait := TcpClientMgr.waiting_reach hc
  rw [← hrec]
  exact ⟨GameNode.finish_ok_iff hnet hwait w.node t, GameNode.finish_assertion_iff hnet hwait⟩

/-- A room of `2 ^ 21` frames cannot be finished, whatever the state of the caches: two bytes a frame fill a cache. The
record is taken to be short enough for its length to be an `unsigned`. -/
theorem finish_long {name : ServerName} {ser : Nat → List (Nat × List Cmd) → Bytes} {pb : Pb} {g : GameNode}
    (hg : Reach (GameNode.logStep pb) (fun _ _ => True) .new g) {t : Nat} {roomid : Int} {w : LogWorld}
    (hw : Reach (step pb t) (fun _ o => Lasts t o) (start g t roomid) w) {l : NetLink}
    (hl : Reach (NetLink.step name) (fun _ _ => True) .new l) {c : TcpClientMgr}
    (hc : Reach (TcpClientMgr.linkStep name) (fun _ _ => True) .new c) (hgate : c.gateLeft.isSome)
    (hser : ∀ frametime frames, 2 * frames.length ≤ (ser frametime frames).length) (hlong : 2 ^ 21 ≤ w.sent.length)
    (hshort : 42 + name.length + (ser (w.node.room t).frameTick w.sent).length < 2 ^ 32) :
    (¬ ∃ res, w.node.finish name ser l c t = .ok res) ∧
      (w.node.OversSendable name l t → w.node.finish name ser l c t = .error .assertion) := by
  have hR := RPC_BUFF_SIZE_eq
  have htwo := hser (w.node.room t).frameTick w.sent
  obtain ⟨left, hleft⟩ := Option.isSome_iff_exists.mp hgate
  have hnet := NetLink.waiting_reach hl
  have hwait := TcpClientMgr.waiting_reach hc
  rw [GameNode.finish_ok_iff hnet hwait, GameNode.frameRecord, frames_eq hg hw]
  constructor
  · rintro ⟨-, hsend⟩
    have hfits := hsend left hleft
    have hle : left ≤ RPC_BUFF_SIZE := TcpClientMgr.gateLeft_le hleft
    unfold Sendable at hfits
    omega
  · intro hovers
    rw [GameNode.finish_assertion_iff hnet hwait hovers, GameNode.frameRecord, frames_eq hg hw]
    refine ⟨left, hleft, Or.inr ?_⟩
    omega

/-! ### A match of 38 hours -/

theorem exists_gate1 : ∃ c : TcpClientMgr, Reach (TcpClientMgr.linkStep game1) (fun _ _ => True) .new c ∧
    c.gateLeft = some (RPC_BUFF_SIZE - recordSize game1 takeProxy) := by
  obtain ⟨p, hoff, hcreate⟩ := TcpClientMgr.createTcpclient_gate1
  have hstep : TcpClientMgr.new.linkStep game1
      (.create TcpClient.gate1New.name ⟨[], noNul_nil⟩ 20000 false (.zero RPC_BUFF_SIZE) 5) = .ok _ := hcreate
  refine ⟨_, Reach.refl.step trivial hstep, ?_⟩
  rw [← hoff]
  simp [TcpClientMgr.gateLeft, TcpClientMgr.getTcpClient, TcpClientMgr.getTcpClientByFd, TcpClientMgr.gate1,
    TcpClient.gate1New, TcpClient.new, TcpClientMgr.new_alloc, SendQueue.left]

theorem exists_inst : ∃ l : NetLink, Reach (NetLink.step game1) (fun _ _ => True) .new l ∧ l.left = some RPC_BUFF_SIZE := by
  have hstep : NetLink.new.step game1 .createConn = .ok ⟨⟨[], 0⟩, some .new⟩ := rfl
  exact ⟨_, Reach.refl.step trivial hstep, rfl⟩

/-- The record of a room with one player that has run for `ms` milliseconds. -/
theorem exists_record (pb : Pb) (ms : Nat) (hms : ms < 2 ^ 32) : ∃ w : LogWorld,
    Reach (step pb 0) (fun _ o => Lasts 0 o) (start .new 0 1) w ∧ w.node.online 0 = [0] ∧ w.sent.length = ms / 66 ∧
      (serializeAllFrames (w.node.room 0).frameTick w.sent).length ≤ 6 + 22 * (ms / 66) := by
  obtain ⟨w, hplays, hid, htick, hpm, hrids, hacc⟩ := exists_ticks pb owned_new ms hms
  have hw : Reach (step pb 0) (fun _ o => Lasts 0 o) (start .new 0 1) w := hplays.mono fun _ _ h => h.lasts
  have hinv := inv_reach .refl hw
  have hlen : w.sent.length = ms / 66 := by
    have hroom : (w.node.room 0).frameId = w.sent.length := hinv.frameId
    omega
  have honline : w.node.online 0 = [0] := by
    rw [GameNode.online, hrids, hpm]
    rfl
  refine ⟨w, hw, honline, hlen, ?_⟩
  rw [← hlen]
  apply length_serialize_le
  · rw [htick]
    decide
  · intro f hf
    -- every command sent has been accepted
    have hsub : f.2.Sublist w.accepted := by
      have hflat := List.sublist_flatten_of_mem (List.mem_map_of_mem (f := Prod.snd) hf)
      rw [← hinv.log]
      exact hflat.trans (List.sublist_append_left _ _)
    rw [hacc] at hsub
    refine ⟨?_, hsub.length_le, ?_⟩
    · obtain ⟨k, hk, rfl⟩ := List.getElem_of_mem hf
      rw [hinv.ids k hk]
      omega
    · intro cmd hcmd
      rw [List.mem_singleton.mp (hsub.subset hcmd)]
      simp only [Room.svrCmd]
      omega

theorem oversSendable_one {w : LogWorld} {l : NetLink} (honline : w.node.online 0 = [0])
    (hleft : l.left = some RPC_BUFF_SIZE) : w.node.OversSendable game1 l 0 := by
  have hR := RPC_BUFF_SIZE_eq
  have hname : game1.length = 5 := by decide
  have h213 := length_serialize213_le (w.node.overFrameId 0)
  intro _
  refine ⟨RPC_BUFF_SIZE, hleft, ?_⟩
  rw [honline]
  apply sendableTimes_of_le
  rw [List.length_singleton]
  omega

/-- After a second and a half the room is finished. -/
theorem finish_short : ∃ (w : LogWorld) (l : NetLink) (c : TcpClientMgr), l.left.isSome ∧ c.gateLeft.isSome ∧
    w.node.online 0 = [0] ∧ w.sent.length = 22 ∧ ∃ res, w.node.finish game1 serializeAllFrames l c 0 = .ok res := by
  have hR := RPC_BUFF_SIZE_eq
  have hproxy : recordSize game1 takeProxy = 45 := by decide
  have hname : game1.length = 5 := by decide
  obtain ⟨w, hw, honline, hlen, hle⟩ :=
    exists_record ⟨fun _ => .clear, fun _ => [], fun _ => 0, fun _ => 0⟩ 1500 (by decide)
  obtain ⟨l, hl, hnet⟩ := exists_inst
  obtain ⟨c, hc, hleft⟩ := exists_gate1
  refine ⟨w, l, c, by rw [hnet]; rfl, by rw [hleft]; rfl, honline, hlen,
    (finish_iff game1 serializeAllFrames .refl hw hl hc).1.mpr ⟨oversSendable_one honline hnet, ?_⟩⟩
  intro left hmem
  rw [hleft] at hmem
  cases hmem
  refine Or.inl ?_
  omega

/-- After `2 ^ 21` ticks it is not. -/
theorem not_finish : ∃ (pb : Pb) (w : LogWorld) (l : NetLink) (c : TcpClientMgr),
    Reach (step pb 0) (fun _ o => Lasts 0 o) (start .new 0 1) w ∧
    Reach (NetLink.step game1) (fun _ _ => True) .new l ∧
    Reach (TcpClientMgr.linkStep game1) (fun _ _ => True) .new c ∧
    (∀ frametime frames, 2 * frames.length ≤ (serializeAllFrames frametime frames).length ∧
      ∀ f ∈ frames, ∀ cmd ∈ f.2, cmd.serialize <:+: serializeAllFrames frametime frames) ∧
    w.node.finish game1 serializeAllFrames l c 0 = .error .assertion := by
  have hname : game1.length = 5 := by decide
  obtain ⟨w, hw, honline, hlen, hle⟩ :=
    exists_record ⟨fun _ => .clear, fun _ => [], fun _ => 0, fun _ => 0⟩ (66 * 2 ^ 21) (by decide)
  obtain ⟨l, hl, hnet⟩ := exists_inst
  obtain ⟨c, hc, hleft⟩ := exists_gate1
  refine ⟨_, w, l, c, hw, hl, hc, fun frametime frames => ⟨two_mul_length_le_serialize frametime frames, ?_⟩, ?_⟩
  · intro f hf cmd hcmd
    exact infix_serialize frametime hf hcmd
  · refine (finish_long .refl hw hl hc (by rw [hleft]; rfl) two_mul_length_le_serialize ?_ ?_).2
      (oversSendable_one honline hnet)
    · omega
    · omega

end LogWorld

end KcpServer
