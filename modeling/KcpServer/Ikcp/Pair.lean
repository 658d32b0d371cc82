import KcpServer.Ikcp.Messages
import KcpServer.Lib.Transition

/-!
# Two ends and the network between them

Two control blocks with one `conv`. The network keeps every datagram that has been sent and may deliver it to the other
end whenever it likes, as often as it likes, or never. `Follows` connects the two ends to the two directions of the
abstract protocol, and `follows_step` shows that every call keeps the connection.
-/

namespace KcpServer.Ikcp
open Lib

inductive Side
  | left
  | right
  deriving DecidableEq

namespace Side

def other : Side → Side
  | left => right
  | right => left

@[simp] theorem other_other (s : Side) : s.other.other = s := by cases s <;> rfl

@[simp] theorem other_ne (s : Side) : s.other ≠ s := by cases s <;> decide

theorem forall_iff {P : Side → Prop} (s : Side) : (∀ t, P t) ↔ P s ∧ P s.other := by
  refine ⟨fun h => ⟨h s, h s.other⟩, fun h t => ?_⟩
  cases s <;> cases t <;> first | exact h.1 | exact h.2

end Side

/-- Two ends, what each has sent into the network, what `ikcp_send` has accepted there and what `ikcp_recv` has
returned. -/
structure Pair where
  peer : Side → IKCPCB
  net : Side → List Bytes
  sent : Side → List Bytes
  got : Side → List Bytes

inductive PairOp
  | send (s : Side) (buffer : Bytes)
  | recv (s : Side) (len : Int)
  | update (s : Side) (current : UInt32)
  | input (s : Side) (d : Bytes)
  | setmtu (s : Side) (mtu : Int)
  | nodelay (s : Side) (nodelay interval resend nc : Int)
  | wndsize (s : Side) (sndwnd rcvwnd : Int)

namespace Pair

/-- Two ends that have just been made; each has its own `stream`. -/
def new (conv : UInt32) (stream : Side → Int) : Pair where
  peer s := { IKCPCB.create conv with stream := stream s }
  net _ := []
  sent _ := []
  got _ := []

def set (w : Pair) (s : Side) (kcp : IKCPCB) (ds sent got : List Bytes) : Pair where
  peer := Function.update w.peer s kcp
  net := Function.update w.net s (w.net s ++ ds)
  sent := Function.update w.sent s (w.sent s ++ sent)
  got := Function.update w.got s (w.got s ++ got)

def step (w : Pair) : PairOp → Except Fault Pair
  | .send s buffer => do
    let (kcp, ret) ← (w.peer s).send buffer
    return w.set s kcp [] ((w.peer s).accepted buffer ret) []
  | .recv s len => do
    let (kcp, ret, bytes) ← (w.peer s).recv len
    return w.set s kcp [] [] (if 0 ≤ ret ∧ 0 ≤ len then [bytes] else [])
  | .update s current => do
    let (kcp, ds) ← (w.peer s).update current
    return w.set s kcp ds [] []
  | .input s d => do
    let (kcp, _) ← (w.peer s).input d
    return w.set s kcp [] [] []
  | .setmtu s mtu => return w.set s ((w.peer s).setmtu mtu).1 [] [] []
  | .nodelay s nodelay interval resend nc => return w.set s ((w.peer s).setNodelay nodelay interval resend nc) [] [] []
  | .wndsize s sndwnd rcvwnd => return w.set s ((w.peer s).wndsize sndwnd rcvwnd) [] [] []

/-- The network delivers what the other end has sent, and no end makes more than `2 ^ 31` segments. -/
def Allowed (w : Pair) : PairOp → Prop
  | .input s d => d ∈ w.net s.other
  | .send s _ => (w.peer s).sndNxt.toNat + (w.peer s).sndQueue.length + 255 < 2 ^ 31
  | _ => True

instance (w : Pair) : DecidablePred w.Allowed
  | .input s d => inferInstanceAs (Decidable (d ∈ w.net s.other))
  | .send s _ => inferInstanceAs (Decidable ((w.peer s).sndNxt.toNat + (w.peer s).sndQueue.length + 255 < 2 ^ 31))
  | .recv _ _ | .update _ _ | .setmtu _ _ | .nodelay _ _ _ _ _ | .wndsize _ _ _ => .isTrue trivial

/-- The items of one direction: those that have a number, and those that wait for one. -/
def items (w : Pair) (arq : Side → Arq Frag) (s : Side) : List Frag :=
  (arq s).log ++ (w.peer s).sndQueue.map IKCPSEG.frag

/-- The two ends and the two directions of the abstract protocol; `taken s` is what has left `rcv_queue` at `s`. -/
structure Follows (conv : UInt32) (stream : Side → Int) (w : Pair) (arq : Side → Arq Frag) (taken : Side → List Frag) :
    Prop where
  conv_eq : ∀ s, (w.peer s).conv = conv
  stream_eq : ∀ s, (w.peer s).stream = stream s
  inv : ∀ s, Arq.Inv (arq s)
  room : ∀ s, (w.items arq s).length < 2 ^ 31
  sends : ∀ s, Sends (w.peer s) (arq s)
  receives : ∀ s, Receives (w.peer s) (arq s.other)
  counted : ∀ s, Counted (w.peer s)
  net : ∀ s, ∀ d ∈ w.net s, Says conv (arq s) (arq s.other) d
  log_take : ∀ s, (arq s.other).log.take (arq s.other).next = taken s ++ (w.peer s).rcvQueue.map IKCPSEG.frag
  sentBytes : ∀ s, (w.items arq s).flatMap Prod.snd = (w.sent s).flatten
  sentMsgs : ∀ s, (w.peer s).stream = 0 → Cuts (w.items arq s) (w.sent s)
  gotBytes : ∀ s, (taken s).flatMap Prod.snd = (w.got s).flatten
  gotMsgs : ∀ s, (w.peer s.other).stream = 0 → Cuts (taken s) (w.got s)

theorem follows_new (conv : UInt32) (stream : Side → Int) :
    Follows conv stream (new conv stream) (fun _ => Arq.new) fun _ => [] where
  conv_eq _ := rfl
  stream_eq _ := rfl
  inv _ := Arq.inv_new
  room _ := by simp [items, new, Arq.new, IKCPCB.create]
  sends _ := ⟨rfl, rfl, .nil, (fun _ h => nomatch h), fun _ h => nomatch h⟩
  receives _ := ⟨rfl, .nil, fun _ h => nomatch h⟩
  counted _ := ⟨rfl, rfl, rfl, rfl⟩
  net _ _ h := nomatch h
  log_take _ := rfl
  sentBytes _ := rfl
  sentMsgs _ _ := .nil
  gotBytes _ := rfl
  gotMsgs _ _ := .nil

/-- What one end does to the two directions of the abstract protocol: it sends in one and receives in the other. -/
structure Acts (w : Pair) (s : Side) (kcp : IKCPCB) (ds acc ret : List Bytes) (snd snd' rcv rcv' : Arq Frag)
    (taken : List Frag) : Prop where
  conv : kcp.conv = (w.peer s).conv
  stream : kcp.stream = (w.peer s).stream
  runSnd : Arq.Run snd snd'
  sndNext : snd'.next = snd.next
  sndEarly : snd'.early = snd.early
  runRcv : Arq.Run rcv rcv'
  rcvLog : rcv'.log = rcv.log
  rcvHeld : rcv'.held = rcv.held
  room : snd'.log.length + kcp.sndQueue.length < 2 ^ 31
  sends : Sends kcp snd'
  receives : Receives kcp rcv'
  counted : Counted kcp
  net : ∀ d ∈ ds, Says (w.peer s).conv snd' rcv' d
  log_take : rcv'.log.take rcv'.next = taken ++ kcp.rcvQueue.map IKCPSEG.frag
  sentBytes : (snd'.log ++ kcp.sndQueue.map IKCPSEG.frag).flatMap Prod.snd = (w.sent s ++ acc).flatten
  sentMsgs : kcp.stream = 0 → Cuts (snd'.log ++ kcp.sndQueue.map IKCPSEG.frag) (w.sent s ++ acc)
  gotBytes : taken.flatMap Prod.snd = (w.got s ++ ret).flatten
  gotMsgs : (w.peer s.other).stream = 0 → Cuts taken (w.got s ++ ret)

section Acts
variable {conv : UInt32} {stream : Side → Int} {w w' : Pair} {arq : Side → Arq Frag} {taken : Side → List Frag}
  {s : Side} {kcp : IKCPCB}
  {ds acc ret : List Bytes} {snd' rcv' : Arq Frag} {taken' : List Frag}

theorem Follows.acts (h : Follows conv stream w arq taken)
    (ha : Acts w s kcp ds acc ret (arq s) snd' (arq s.other) rcv' taken') :
    Follows conv stream (w.set s kcp ds acc ret) (Function.update (Function.update arq s snd') s.other rcv')
      (Function.update taken s taken') := by
  have hs : s ≠ s.other := s.other_ne.symm
  have hsnd : (Function.update (Function.update arq s snd') s.other rcv') s = snd' := by
    rw [Function.update_of_ne hs, Function.update_self]
  constructor
  all_goals rw [Side.forall_iff s]
  all_goals simp only [items, set, Side.other_other, Function.update_self, Function.update_of_ne s.other_ne, hsnd]
  case conv_eq => exact ⟨ha.conv.trans (h.conv_eq s), h.conv_eq s.other⟩
  case stream_eq => exact ⟨ha.stream.trans (h.stream_eq s), h.stream_eq s.other⟩
  case inv => exact ⟨(h.inv s).run ha.runSnd, (h.inv s.other).run ha.runRcv⟩
  case room =>
    refine ⟨by rw [List.length_append, List.length_map]; exact ha.room, ?_⟩
    rw [ha.rcvLog]
    exact h.room s.other
  case sends =>
    have := h.sends s.other
    refine ⟨ha.sends, ⟨by rw [ha.rcvLog]; exact this.nxt, ?_, by rw [ha.rcvHeld]; exact this.buf, this.push, this.queue⟩⟩
    unfold Arq.una
    rw [ha.rcvHeld, ha.rcvLog]
    exact this.una
  case receives =>
    have := h.receives s.other
    rw [Side.other_other] at this
    refine ⟨ha.receives, ⟨by rw [ha.sndNext]; exact this.nxt, by rw [ha.sndEarly]; exact this.buf, fun a hmem => ?_⟩⟩
    exact (this.acks a hmem).imp fun n hn => ⟨hn.1, ha.runSnd.has hn.2⟩
  case counted => exact ⟨ha.counted, h.counted s.other⟩
  case net =>
    refine ⟨fun d hd => ?_, fun d hd => ?_⟩
    · rcases List.mem_append.mp hd with hd | hd
      · exact (h.net s d hd).mono ha.runSnd ha.runRcv
      · exact h.conv_eq s ▸ ha.net d hd
    · have := h.net s.other d hd
      rw [Side.other_other] at this
      exact this.mono ha.runRcv ha.runSnd
  case log_take =>
    have := h.log_take s.other
    rw [Side.other_other] at this
    refine ⟨ha.log_take, ?_⟩
    rw [ha.sndNext, ← this]
    have hle := (h.inv s).next_le
    obtain ⟨more, hmore⟩ := ha.runSnd.log_extends
    rw [← hmore, List.take_append_of_le_length hle]
  case sentBytes =>
    refine ⟨ha.sentBytes, ?_⟩
    rw [ha.rcvLog]
    exact h.sentBytes s.other
  case sentMsgs =>
    refine ⟨ha.sentMsgs, ?_⟩
    rw [ha.rcvLog]
    exact h.sentMsgs s.other
  case gotBytes => exact ⟨ha.gotBytes, h.gotBytes s.other⟩
  case gotMsgs =>
    refine ⟨ha.gotMsgs, fun hstream => ?_⟩
    have := h.gotMsgs s.other
    rw [Side.other_other] at this
    exact this (ha.stream ▸ hstream)

theorem Follows.acts_same (h : Follows conv stream w arq taken) (hconv : kcp.conv = (w.peer s).conv)
    (hstream : kcp.stream = (w.peer s).stream) (hsnd : SameSnd (w.peer s) kcp) (hrcv : SameRcv (w.peer s) kcp)
    (hcounted : Counted kcp) :
    Acts w s kcp [] [] [] (arq s) (arq s) (arq s.other) (arq s.other) (taken s) where
  conv := hconv
  stream := hstream
  runSnd := .refl
  sndNext := rfl
  sndEarly := rfl
  runRcv := .refl
  rcvLog := rfl
  rcvHeld := rfl
  room := by
    have := h.room s
    rwa [items, List.length_append, List.length_map, ← hsnd.sndQueue] at this
  sends := (h.sends s).congr hsnd
  receives := (h.receives s).congr hrcv
  counted := hcounted
  net _ hd := nomatch hd
  log_take := by rw [hrcv.rcvQueue, h.log_take s]
  sentBytes := by
    rw [hsnd.sndQueue, List.append_nil]
    exact h.sentBytes s
  sentMsgs hs := by
    rw [hsnd.sndQueue, List.append_nil]
    exact h.sentMsgs s (hstream ▸ hs)
  gotBytes := by
    rw [List.append_nil]
    exact h.gotBytes s
  gotMsgs hs := by
    rw [List.append_nil]
    exact h.gotMsgs s hs

theorem Follows.acts_settings (h : Follows conv stream w arq taken) (mtu mss sndWnd rcvWnd nodelay interval : UInt32)
    (rxMinrto fastresend nocwnd : Int) :
    Acts w s { w.peer s with mtu, mss, sndWnd, rcvWnd, nodelay, interval, rxMinrto, fastresend, nocwnd } [] [] [] (arq s)
      (arq s) (arq s.other) (arq s.other) (taken s) :=
  h.acts_same rfl rfl ⟨rfl, rfl, rfl, rfl, rfl⟩ ⟨rfl, rfl, rfl, rfl⟩
    { h.counted s with }

theorem Follows.acts_send (h : Follows conv stream w arq taken) {buffer : Bytes} {ret : Int}
    (hp : Allowed w (.send s buffer)) (hsend : (w.peer s).send buffer = .ok (kcp, ret)) :
    Acts w s kcp [] ((w.peer s).accepted buffer ret) [] (arq s) (arq s) (arq s.other) (arq s.other) (taken s) := by
  have hroom : (arq s).log.length + kcp.sndQueue.length < 2 ^ 31 := by
    have hlen := IKCPCB.length_send hsend
    have hitems := h.room s
    dsimp only [Allowed] at hp
    rw [items, List.length_append, List.length_map] at hitems
    rw [(h.sends s).nxt, toNat_serial (by omega)] at hp
    omega
  have hfits : ∀ seg ∈ kcp.sndQueue, Fits seg := by
    refine IKCPCB.forall_send hsend (fun frg data hfrg hlen => ⟨?_, ?_⟩) (h.sends s).queue
    · exact UInt32.lt_trans hfrg (by decide)
    · have := (w.peer s).mss.toNat_lt
      exact hlen.trans_lt this
  have hdata := IKCPCB.dataOf_send hsend
  have hcuts := fun hstream : (w.peer s).stream = 0 => cuts_send hstream hsend
  have hcounted := IKCPCB.counted_send (h.counted s) hsend
  obtain ⟨sndQueue, nsndQue, rfl⟩ := IKCPCB.send_eq hsend
  have hsends := h.sends s
  have hreceives := h.receives s
  refine ⟨rfl, rfl, .refl, rfl, rfl, .refl, rfl, rfl, hroom, ⟨hsends.nxt, hsends.una, hsends.buf, hsends.push, hfits⟩,
    ⟨hreceives.nxt, hreceives.buf, hreceives.acks⟩, hcounted, (fun _ hd => nomatch hd), h.log_take s, ?_, ?_, ?_, ?_⟩
  · have hold := h.sentBytes s
    rw [items, List.flatMap_append, ← IKCPCB.dataOf_eq] at hold
    rw [List.flatMap_append, ← IKCPCB.dataOf_eq, hdata, ← List.append_assoc, hold, List.flatten_append]
  · intro hstream
    obtain ⟨fs, hfs, hcut⟩ := hcuts hstream
    rw [hfs, ← List.append_assoc]
    exact (h.sentMsgs s hstream).append hcut
  · rw [List.append_nil]
    exact h.gotBytes s
  · rw [List.append_nil]
    exact h.gotMsgs s

theorem Follows.acts_update (h : Follows conv stream w arq taken) {current : UInt32}
    (hupdate : (w.peer s).update current = .ok (kcp, ds)) :
    ∃ snd', Acts w s kcp ds [] [] (arq s) snd' (arq s.other) (arq s.other) (taken s) := by
  obtain ⟨snd', hf⟩ := IKCPCB.flushed_update (h.inv s) (h.sends s) (h.receives s) hupdate
  have hlog : snd'.log ++ kcp.sndQueue.map IKCPSEG.frag = w.items arq s := hf.log
  refine ⟨snd', congrArg Config.conv hf.config, congrArg Config.stream hf.config, hf.run, hf.next, hf.early, .refl, rfl,
    rfl, ?_, hf.sends, hf.receives, IKCPCB.counted_update (h.counted s) hupdate, hf.valid, ?_, ?_, ?_, ?_, ?_⟩
  · have hroom := h.room s
    rwa [← hlog, List.length_append, List.length_map] at hroom
  · rw [hf.rcvQueue, h.log_take s]
  · rw [hlog, List.append_nil]
    exact h.sentBytes s
  · intro hstream
    rw [hlog, List.append_nil]
    exact h.sentMsgs s ((congrArg Config.stream hf.config).symm.trans hstream)
  · rw [List.append_nil]
    exact h.gotBytes s
  · rw [List.append_nil]
    exact h.gotMsgs s

theorem Follows.halves (h : Follows conv stream w arq taken) (s : Side) : Halves (w.peer s) (arq s) (arq s.other) := by
  have hroom (t : Side) : (arq t).log.length < 2 ^ 31 := by
    have := h.room t
    rw [items, List.length_append] at this
    omega
  exact ⟨h.inv s, hroom s, h.sends s, h.inv s.other, hroom s.other, h.receives s⟩

theorem Follows.acts_input (h : Follows conv stream w arq taken) {d : Bytes} {ret : Int} (hp : Allowed w (.input s d))
    (hinput : (w.peer s).input d = .ok (kcp, ret)) :
    ∃ snd' rcv', Acts w s kcp [] [] [] (arq s) snd' (arq s.other) rcv' (taken s) := by
  have hsaid := h.net s.other d hp
  rw [Side.other_other, ← h.conv_eq s] at hsaid
  obtain ⟨-, snd', rcv', hm⟩ := IKCPCB.moved_input (h.halves s) hsaid hinput
  have hlog : snd'.log ++ kcp.sndQueue.map IKCPSEG.frag = w.items arq s := by rw [hm.log, hm.sndQueue]; rfl
  refine ⟨snd', rcv', congrArg Config.conv hm.config, congrArg Config.stream hm.config, hm.run, hm.next, hm.early,
    hm.took.run, hm.took.log, hm.took.held, ?_, hm.sends, hm.took.receives, IKCPCB.counted_input (h.counted s) hinput,
    (fun _ hd => nomatch hd), ?_, ?_, ?_, ?_, ?_⟩
  · have hroom := h.room s
    rwa [← hlog, List.length_append, List.length_map] at hroom
  · obtain ⟨segs, hqueue, htake⟩ := hm.took.queue
    rw [hm.took.log, htake, hqueue, h.log_take s, List.map_append, List.append_assoc]
  · rw [hlog, List.append_nil]
    exact h.sentBytes s
  · intro hstream
    rw [hlog, List.append_nil]
    exact h.sentMsgs s ((congrArg Config.stream hm.config).symm.trans hstream)
  · rw [List.append_nil]
    exact h.gotBytes s
  · rw [List.append_nil]
    exact h.gotMsgs s

/-- A message is complete when `ikcp_peeksize` says so. -/
theorem Follows.cuts_recv (h : Follows conv stream w arq taken) (hstream : (w.peer s.other).stream = 0)
    (hne : (w.peer s).rcvQueue ≠ []) (hpeek : 0 ≤ (w.peer s).peeksize) :
    Cuts (taken s ++ (IKCPCB.splitMsg (w.peer s).rcvQueue).1.map IKCPSEG.frag)
      (w.got s ++ [IKCPCB.dataOf (IKCPCB.splitMsg (w.peer s).rcvQueue).1]) := by
  obtain ⟨seg, segs, hqueue⟩ := List.exists_cons_of_ne_nil hne
  have hsent := h.sentMsgs s.other hstream
  rw [items, ← List.take_append_drop (arq s.other).next (arq s.other).log, h.log_take s, List.append_assoc] at hsent
  have hhead : (w.peer s).rcvQueue.head? = some seg := by rw [hqueue]; rfl
  refine (h.gotMsgs s hstream).next hsent hhead ?_
  unfold IKCPCB.peeksize at hpeek
  rw [hqueue] at hpeek
  dsimp only at hpeek
  split at hpeek
  · next hzero =>
    rw [hzero, hqueue]
    exact Nat.succ_le_succ (Nat.zero_le _)
  split at hpeek
  · exact absurd hpeek (by decide)
  next hready =>
  -- there are fewer than `2 ^ 31` segments, so the counter is right
  have hroom := h.room s.other
  have hlog := congrArg List.length (h.log_take s)
  have hfrg : seg.frg.toNat < 255 := by
    refine (h.sentMsgs s.other hstream).frg_lt (f := seg.frag)
      (List.mem_append_left _ (List.mem_of_mem_take (i := (arq s.other).next) ?_))
    rw [h.log_take s, hqueue]
    exact List.mem_append_right _ List.mem_cons_self
  rw [(h.counted s).rcvQueue] at hready
  rw [items, List.length_append] at hroom
  rw [List.length_take, List.length_append, List.length_map] at hlog
  have hle := UInt32.not_lt.mp hready
  rw [UInt32.le_iff_toNat_le, UInt32.toNat_ofNat', UInt32.toNat_add] at hle
  have hone : (1 : UInt32).toNat = 1 := rfl
  omega

theorem Follows.acts_recv (h : Follows conv stream w arq taken) {len ret : Int} {bytes : Bytes}
    (hrecv : (w.peer s).recv len = .ok (kcp, ret, bytes)) :
    ∃ rcv' taken', Acts w s kcp [] [] (if 0 ≤ ret ∧ 0 ≤ len then [bytes] else []) (arq s) (arq s) (arq s.other) rcv'
      taken' := by
  have hcounted := IKCPCB.counted_recv (h.counted s) hrecv
  rcases IKCPCB.recv_cases hrecv with ⟨hret, rfl, -⟩ | ⟨hne, hpeek, hret, hbytes, hkcp⟩
  · rw [if_neg (by omega)]
    exact ⟨_, _, h.acts_same rfl rfl ⟨rfl, rfl, rfl, rfl, rfl⟩ ⟨rfl, rfl, rfl, rfl⟩ hcounted⟩
  have hh := h.halves s
  obtain ⟨rcv', htook⟩ := IKCPCB.took_recv hh.rcvInv hh.rcvLog hh.receives len ((w.peer s).nrcvQue ≥ (w.peer s).rcvWnd)
  rw [← hkcp] at htook
  obtain ⟨segs, hqueue, htake⟩ := htook.queue
  -- what has left the queue
  obtain ⟨fs, hfs, hdata, hcuts⟩ : ∃ fs,
      taken s ++ (w.peer s).rcvQueue.map IKCPSEG.frag = (taken s ++ fs) ++
        ((w.peer s).popMsg len).rcvQueue.map IKCPSEG.frag ∧
      fs.flatMap Prod.snd = (if 0 ≤ ret ∧ 0 ≤ len then [bytes] else []).flatten ∧
      ((w.peer s.other).stream = 0 → Cuts (taken s ++ fs) (w.got s ++ if 0 ≤ ret ∧ 0 ≤ len then [bytes] else [])) := by
    by_cases hlen : len < 0
    · have hpop : (w.peer s).popMsg len = w.peer s := if_pos hlen
      rw [hpop, if_neg (by omega)]
      exact ⟨[], by simp, rfl, fun hstream => by simpa using h.gotMsgs s hstream⟩
    · have hpop : ((w.peer s).popMsg len).rcvQueue = (IKCPCB.splitMsg (w.peer s).rcvQueue).2 := by
        rw [IKCPCB.popMsg, if_neg hlen]
      rw [hpop, if_pos (by omega)]
      refine ⟨(IKCPCB.splitMsg (w.peer s).rcvQueue).1.map IKCPSEG.frag, ?_, ?_, fun hstream => ?_⟩
      · rw [List.append_assoc, ← List.map_append, IKCPCB.splitMsg_append]
      · rw [← IKCPCB.dataOf_eq, hbytes]
        simp
      · rw [hbytes]
        exact h.cuts_recv hstream hne hpeek
  obtain ⟨_, _, _, _, _, _, hkcp'⟩ := IKCPCB.recv_eq hrecv
  have hsnd : SameSnd (w.peer s) kcp := by
    rw [hkcp']
    exact ⟨rfl, rfl, rfl, rfl, rfl⟩
  refine ⟨rcv', taken s ++ fs, ?_, ?_, .refl, rfl, rfl, htook.run, htook.log, htook.held, ?_, (h.sends s).congr hsnd,
    htook.receives, hcounted, (fun _ hd => nomatch hd), ?_, ?_, ?_, ?_, ?_⟩
  · rw [hkcp']
  · rw [hkcp']
  · have hroom := h.room s
    rwa [items, List.length_append, List.length_map, ← hsnd.sndQueue] at hroom
  · rw [htook.log, htake, hqueue, List.map_append, h.log_take s, hfs, List.append_assoc]
  · rw [hsnd.sndQueue, List.append_nil]
    exact h.sentBytes s
  · intro hstream
    rw [hsnd.sndQueue, List.append_nil]
    rw [hkcp'] at hstream
    exact h.sentMsgs s hstream
  · rw [List.flatMap_append, List.flatten_append, h.gotBytes s, hdata]
  · exact hcuts

/-! ## Every call -/

/-- Every call keeps the two ends and the two directions together. -/
theorem follows_step (h : Follows conv stream w arq taken) {op : PairOp} (hp : Allowed w op) (hstep : w.step op = .ok w') :
    ∃ arq' taken', Follows conv stream w' arq' taken' := by
  cases op with
  | send s buffer =>
    obtain ⟨⟨kcp, ret⟩, hsend, hw⟩ := bind_eq_ok.mp hstep
    cases hw
    exact ⟨_, _, h.acts (h.acts_send hp hsend)⟩
  | recv s len =>
    obtain ⟨⟨kcp, ret, bytes⟩, hrecv, hw⟩ := bind_eq_ok.mp hstep
    cases hw
    obtain ⟨rcv', taken', ha⟩ := h.acts_recv hrecv
    exact ⟨_, _, h.acts ha⟩
  | update s current =>
    obtain ⟨⟨kcp, ds⟩, hupdate, hw⟩ := bind_eq_ok.mp hstep
    cases hw
    obtain ⟨snd', ha⟩ := h.acts_update hupdate
    exact ⟨_, _, h.acts ha⟩
  | input s d =>
    obtain ⟨⟨kcp, ret⟩, hinput, hw⟩ := bind_eq_ok.mp hstep
    cases hw
    obtain ⟨snd', rcv', ha⟩ := h.acts_input hp hinput
    exact ⟨_, _, h.acts ha⟩
  | setmtu s mtu =>
    cases hstep
    obtain ⟨_, _, heq⟩ := IKCPCB.setmtu_eq (w.peer s) mtu
    rw [heq]
    exact ⟨_, _, h.acts (h.acts_settings _ _ _ _ _ _ _ _ _)⟩
  | nodelay s nodelay interval resend nc =>
    cases hstep
    obtain ⟨_, _, _, _, _, heq⟩ := IKCPCB.setNodelay_eq (w.peer s) nodelay interval resend nc
    rw [heq]
    exact ⟨_, _, h.acts (h.acts_settings _ _ _ _ _ _ _ _ _)⟩
  | wndsize s sndwnd rcvwnd =>
    cases hstep
    obtain ⟨_, _, heq⟩ := IKCPCB.wndsize_eq (w.peer s) sndwnd rcvwnd
    rw [heq]
    exact ⟨_, _, h.acts (h.acts_settings _ _ _ _ _ _ _ _ _)⟩

/-- In every run the two ends follow the abstract protocol. -/
theorem follows_of_reach (h : Reach step Allowed (new conv stream) w) :
    ∃ arq taken, Follows conv stream w arq taken := by
  refine h.invariant (I := fun w => ∃ arq taken, Follows conv stream w arq taken) ⟨_, _, follows_new conv stream⟩ ?_
  rintro w op w' ⟨arq, taken, hf⟩ hp hstep
  exact follows_step hf hp hstep

end Acts

end Pair

end KcpServer.Ikcp
