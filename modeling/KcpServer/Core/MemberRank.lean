import KcpServer.Core.FrameLog
import KcpServer.Core.Register
import KcpServer.Lib.Rank

/-!
# The player index of server commands

`GetPIdx` is the rank of a player's rid among the members with camp at most 1 that the room has at that moment.
`index_agrees_iff` : the commands of `EnterP` and `LeaveP` carry one index for each such player, and different ones for
different players, exactly as long as such players enter in the order of their rids. A `Roll` of the rids follows the
room (`Follows`).
-/

namespace KcpServer
open Lib

/-- `GetPIdx` of the command that `SvrFrameCmd` has made: the second byte of its data. -/
def Cmd.pidx (c : Cmd) : Nat := c.data / 256 % 256

namespace Room
variable {R : Room} {players : Heap Player} {camp camp' : Nat → Int} {k p : Nat}

/-- The rids of the members with camp at most 1. -/
def campRids (R : Room) (camp : Nat → Int) : Finset Nat :=
  ((R.ridPMap.toList.filter fun e => ¬ camp e.2 > 1).map Prod.fst).toFinset

theorem mem_campRids : k ∈ R.campRids camp ↔ ∃ p, R.ridPMap[k]? = some p ∧ camp p ≤ 1 := by
  unfold campRids
  rw [List.mem_toFinset, List.mem_map]
  constructor
  · rintro ⟨⟨k', p⟩, he, rfl⟩
    obtain ⟨hmem, hcamp⟩ := List.mem_filter.mp he
    exact ⟨p, Std.TreeMap.mem_toList_iff_getElem?_eq_some.mp hmem, not_lt.mp (of_decide_eq_true hcamp)⟩
  · rintro ⟨p, hp, hcamp⟩
    refine ⟨(k, p), List.mem_filter.mpr ⟨Std.TreeMap.mem_toList_iff_getElem?_eq_some.mpr hp, ?_⟩, rfl⟩
    exact decide_eq_true (not_lt.mpr hcamp)

/-- **`GetPIdx` is a rank.** -/
theorem getPIdx_eq_rank (R : Room) (players : Heap Player) (p : Nat) :
    R.getPIdx players p = rank (R.campRids fun q => (players q).camp) (players p).rid := by
  set es := R.ridPMap.toList.filter fun e => ¬ (players e.2).camp > 1 ∧ (players p).rid ≥ e.1 with hes
  have hset : (R.campRids fun q => (players q).camp).filter (· ≤ (players p).rid) = (es.map Prod.fst).toFinset := by
    ext k
    rw [Finset.mem_filter, mem_campRids, List.mem_toFinset, List.mem_map, hes]
    constructor
    · rintro ⟨⟨q, hq, hcamp⟩, hle⟩
      refine ⟨(k, q), List.mem_filter.mpr ⟨Std.TreeMap.mem_toList_iff_getElem?_eq_some.mpr hq, ?_⟩, rfl⟩
      exact decide_eq_true ⟨not_lt.mpr hcamp, hle⟩
    · rintro ⟨⟨k', q⟩, he, rfl⟩
      obtain ⟨hmem, hcond⟩ := List.mem_filter.mp he
      obtain ⟨hcamp, hle⟩ := of_decide_eq_true hcond
      exact ⟨⟨q, Std.TreeMap.mem_toList_iff_getElem?_eq_some.mp hmem, not_lt.mp hcamp⟩, hle⟩
  have hkeys : (R.ridPMap.toList.map Prod.fst).Nodup := by
    rw [Std.TreeMap.map_fst_toList_eq_keys]
    exact Std.TreeMap.nodup_keys
  have hnodup : (es.map Prod.fst).Nodup := hkeys.sublist (List.filter_sublist.map _)
  rw [rank, hset, List.toFinset_card_of_nodup hnodup, List.length_map]
  rfl

theorem campRids_of_ridPMap {R' : Room} (h : R'.ridPMap = R.ridPMap) : R'.campRids camp = R.campRids camp := by
  unfold campRids
  rw [h]

theorem campRids_congr (h : ∀ {k p : Nat}, R.ridPMap[k]? = some p → camp p = camp' p) :
    R.campRids camp = R.campRids camp' := by
  ext k
  rw [mem_campRids, mem_campRids]
  constructor
  · rintro ⟨p, hp, hcamp⟩
    exact ⟨p, hp, h hp ▸ hcamp⟩
  · rintro ⟨p, hp, hcamp⟩
    exact ⟨p, hp, (h hp).symm ▸ hcamp⟩

theorem campRids_enter (pconn : Option Nat) (hkey : ∀ {q}, R.ridPMap[(players p).rid]? = some q → q = p) :
    (R.enter players p pconn).campRids camp =
      if camp p ≤ 1 then insert (players p).rid (R.campRids camp) else R.campRids camp := by
  have hmem : ∀ k, k ∈ (R.enter players p pconn).campRids camp ↔
      k = (players p).rid ∧ camp p ≤ 1 ∨ k ≠ (players p).rid ∧ k ∈ R.campRids camp := by
    intro k
    rw [mem_campRids, mem_campRids]
    simp only [enter, insert_eq_some]
    constructor
    · rintro ⟨q, ⟨hk, rfl⟩ | ⟨hk, hq⟩, hcamp⟩
      · exact .inl ⟨hk, hcamp⟩
      · exact .inr ⟨hk, q, hq, hcamp⟩
    · rintro (⟨hk, hcamp⟩ | ⟨hk, q, hq, hcamp⟩)
      · exact ⟨p, .inl ⟨hk, rfl⟩, hcamp⟩
      · exact ⟨q, .inr ⟨hk, hq⟩, hcamp⟩
  ext k
  rw [hmem]
  split
  · next hcamp =>
    rw [Finset.mem_insert]
    tauto
  · next hcamp =>
    -- a member under this rid is the player itself, whose camp does not count
    have hnot : (players p).rid ∉ R.campRids camp := by
      intro hin
      obtain ⟨q, hq, hle⟩ := mem_campRids.mp hin
      rw [hkey hq] at hle
      exact hcamp hle
    constructor
    · rintro (⟨-, hle⟩ | ⟨-, hin⟩)
      · exact absurd hle hcamp
      · exact hin
    · intro hin
      exact .inr ⟨fun hk => hnot (hk ▸ hin), hin⟩

theorem pidx_svrCmd (R : Room) (players : Heap Player) (p param : Nat) :
    (R.svrCmd players p param).pidx = R.getPIdx players p % 256 := by
  unfold svrCmd Cmd.pidx
  dsimp only
  omega

end Room

/-! ## Calls of `EnterP` and `LeaveP` -/

/-- The players of a room. Their rids and camps are set before they enter and stay. -/
structure Roster where
  players : Finset Nat
  rid : Nat → Nat
  camp : Nat → Int
  inj : Set.InjOn rid players
  card_le : players.card ≤ 255

/-- A game node, and the server commands of one of its rooms with the players that they are about. -/
structure MemberWorld where
  node : GameNode
  svr : List (Nat × Cmd)

/-- A call of `EnterP` or `LeaveP` of the room, or whatever happens to players and sessions in between. -/
inductive MemberOp
  | enterP (p : Nat) (pconn : Option Nat)
  | leaveP (p : Nat)
  | others (kcp : KCPServer) (pm : PlayerMgr)

namespace Roster

def Of (ro : Roster) (pm : PlayerMgr) : Prop :=
  ∀ p ∈ ro.players, (pm.players p).rid = ro.rid p ∧ (pm.players p).camp = ro.camp p

/-- Calls are about players of the roster, who keep their rids and camps. -/
def Allowed (ro : Roster) : MemberOp → Prop
  | .enterP p _ => p ∈ ro.players
  | .leaveP p => p ∈ ro.players
  | .others _ pm => ro.Of pm

/-- Among the players with camp at most 1, everyone has one index and no two have the same. -/
def Agrees (ro : Roster) (svr : List (Nat × Cmd)) : Prop :=
  ∀ e ∈ svr, ∀ e' ∈ svr, ro.camp e.1 ≤ 1 → ro.camp e'.1 ≤ 1 → (e.1 = e'.1 ↔ e.2.pidx = e'.2.pidx)

end Roster

namespace MemberWorld

def step (pb : Pb) (t : Nat) (w : MemberWorld) : MemberOp → Except Fault MemberWorld
  | .enterP p pconn => do
    let (node, _) ← w.node.call pb t (.enterP p pconn)
    return ⟨node, w.svr ++ (w.node.accepts pb t (.enterP p pconn)).map (p, ·)⟩
  | .leaveP p => do
    let (node, _) ← w.node.call pb t (.leaveP p)
    return ⟨node, w.svr ++ (w.node.accepts pb t (.leaveP p)).map (p, ·)⟩
  | .others kcp pm => .ok ⟨{ w.node with kcp, pm }, w.svr⟩

def start (g : GameNode) (t : Nat) (roomid : Int) : MemberWorld := ⟨g.modifyRoom t (·.init roomid), []⟩

def present (ro : Roster) (t : Nat) (w : MemberWorld) : Finset Nat := (w.node.room t).campRids ro.camp

/-- A player with camp at most 1 that enters is a member, or has a rid above those of all such members and no command
about it has been made; one that leaves is a member, or has a rid below those of all such members and is the only one
that has not entered about whom a command has been made. -/
def Keeps (ro : Roster) (t : Nat) (w : MemberWorld) : MemberOp → Prop
  | .enterP p _ => ro.camp p ≤ 1 → ro.rid p ∈ w.present ro t ∨
      (∀ k ∈ w.present ro t, k < ro.rid p) ∧ ∀ e ∈ w.svr, e.1 ≠ p
  | .leaveP p => ro.camp p ≤ 1 → ro.rid p ∈ w.present ro t ∨
      (∀ k ∈ w.present ro t, ro.rid p < k) ∧
        ∀ e ∈ w.svr, ro.camp e.1 ≤ 1 → ro.rid e.1 ∈ w.present ro t ∨ e.1 = p
  | .others _ _ => True

/-! ## The roll of the rids -/

/-- What a call does to the roll of the rids. -/
def rollOp (ro : Roster) : MemberOp → Option (RollOp Nat)
  | .enterP p _ => if ro.camp p ≤ 1 then some (.enter (ro.rid p)) else none
  | .leaveP p => if ro.camp p ≤ 1 then some (.speak (ro.rid p)) else none
  | .others _ _ => none

/-- The roll of the members with camp at most 1, and of what the commands about such players say. -/
structure Follows (ro : Roster) (t : Nat) (w : MemberWorld) (s : Roll Nat) : Prop where
  roster : ro.Of w.node.pm
  member : ∀ {k p : Nat}, (w.node.room t).ridPMap[k]? = some p → p ∈ ro.players ∧ k = ro.rid p
  subject : ∀ e ∈ w.svr, e.1 ∈ ro.players
  present : s.present = w.present ro t
  said : s.said = (w.svr.filter fun e => ro.camp e.1 ≤ 1).map fun e => (ro.rid e.1, e.2.pidx)

section Follows
variable {ro : Roster} {t : Nat} {w w' : MemberWorld} {s : Roll Nat} {o : MemberOp} {pb : Pb}

theorem mem_said (h : Follows ro t w s) {a : Nat × Nat} :
    a ∈ s.said ↔ ∃ e ∈ w.svr, ro.camp e.1 ≤ 1 ∧ (ro.rid e.1, e.2.pidx) = a := by
  rw [h.said, List.mem_map]
  constructor
  · rintro ⟨e, he, rfl⟩
    obtain ⟨hmem, hcamp⟩ := List.mem_filter.mp he
    exact ⟨e, hmem, of_decide_eq_true hcamp, rfl⟩
  · rintro ⟨e, he, hcamp, rfl⟩
    exact ⟨e, List.mem_filter.mpr ⟨he, decide_eq_true hcamp⟩, rfl⟩

theorem Follows.agrees_iff (h : Follows ro t w s) : s.Agrees ↔ ro.Agrees w.svr := by
  constructor
  · intro hagrees e he e' he' hcamp hcamp'
    have hroll := hagrees _ ((mem_said h).mpr ⟨e, he, hcamp, rfl⟩) _ ((mem_said h).mpr ⟨e', he', hcamp', rfl⟩)
    rw [ro.inj.eq_iff (h.subject e he) (h.subject e' he')] at hroll
    exact hroll
  · intro hagrees a ha a' ha'
    obtain ⟨e, he, hcamp, rfl⟩ := (mem_said h).mp ha
    obtain ⟨e', he', hcamp', rfl⟩ := (mem_said h).mp ha'
    show ro.rid e.1 = ro.rid e'.1 ↔ _
    rw [ro.inj.eq_iff (h.subject e he) (h.subject e' he')]
    exact hagrees e he e' he' hcamp hcamp'

theorem forall_mem_if {c : Prop} [Decidable c] {x : RollOp Nat} {P : RollOp Nat → Prop} :
    (∀ a ∈ (if c then some x else none), P a) ↔ (c → P x) := by
  split
  · next hc => simp [hc]
  · next hc => simp [hc]

theorem Follows.keeps_iff (h : Follows ro t w s) (hallowed : ro.Allowed o) :
    w.Keeps ro t o ↔ ∀ a ∈ rollOp ro o, s.Keeps a := by
  cases o with
  | enterP p pconn =>
    refine Iff.trans ?_ forall_mem_if.symm
    apply imp_congr_right
    intro hcamp
    unfold Roll.Keeps
    rw [h.present]
    apply or_congr_right
    apply and_congr_right
    intro _
    constructor
    · intro hnew a ha heq
      obtain ⟨e, he, -, rfl⟩ := (mem_said h).mp ha
      exact hnew e he (ro.inj (h.subject e he) hallowed heq)
    · rintro hnew e he rfl
      exact hnew _ ((mem_said h).mpr ⟨e, he, hcamp, rfl⟩) rfl
  | leaveP p =>
    refine Iff.trans ?_ forall_mem_if.symm
    apply imp_congr_right
    intro hcamp
    unfold Roll.Keeps
    rw [h.present]
    apply or_congr_right
    apply and_congr_right
    intro _
    constructor
    · intro honly a ha
      obtain ⟨e, he, hle, rfl⟩ := (mem_said h).mp ha
      exact (honly e he hle).imp_right fun heq => congrArg ro.rid heq
    · intro honly e he hle
      refine (honly _ ((mem_said h).mpr ⟨e, he, hle, rfl⟩)).imp_right fun heq => ?_
      exact ro.inj (h.subject e he) hallowed heq
  | others kcp pm =>
    exact ⟨fun _ a ha => absurd ha (by simp [rollOp]), fun _ => trivial⟩

theorem pidx_eq_rank {R : Room} {players : Heap Player} {p : Nat} (param : Nat)
    (hplayers : ∀ q ∈ ro.players, (players q).rid = ro.rid q ∧ (players q).camp = ro.camp q)
    (hmember : ∀ {k q : Nat}, R.ridPMap[k]? = some q → q ∈ ro.players ∧ k = ro.rid q) (hp : p ∈ ro.players) :
    (R.svrCmd players p param).pidx = rank (R.campRids ro.camp) (ro.rid p) := by
  have hcamps : (R.campRids fun q => (players q).camp) = R.campRids ro.camp :=
    Room.campRids_congr fun hq => (hplayers _ (hmember hq).1).2
  have hsub : R.campRids ro.camp ⊆ ro.players.image ro.rid := by
    intro k hk
    obtain ⟨q, hq, -⟩ := Room.mem_campRids.mp hk
    obtain ⟨hqin, rfl⟩ := hmember hq
    exact Finset.mem_image_of_mem _ hqin
  have hle : rank (R.campRids ro.camp) (ro.rid p) ≤ 255 :=
    calc rank (R.campRids ro.camp) (ro.rid p) ≤ (R.campRids ro.camp).card := rank_le_card _ _
      _ ≤ (ro.players.image ro.rid).card := Finset.card_le_card hsub
      _ ≤ ro.players.card := Finset.card_image_le
      _ ≤ 255 := ro.card_le
  rw [Room.pidx_svrCmd, Room.getPIdx_eq_rank, hcamps, (hplayers p hp).1, Nat.mod_eq_of_lt (by omega)]

theorem Follows.append (h : Follows ro t w s) {node : GameNode} {p : Nat} {c : Cmd} {s' : Roll Nat}
    (hp : p ∈ ro.players) (hpm : node.pm = w.node.pm)
    (hmember : ∀ {k q : Nat}, (node.room t).ridPMap[k]? = some q → q ∈ ro.players ∧ k = ro.rid q)
    (hpresent : s'.present = (node.room t).campRids ro.camp)
    (hsaid : s'.said = s.said ++ if ro.camp p ≤ 1 then [(ro.rid p, c.pidx)] else []) :
    Follows ro t ⟨node, w.svr ++ [(p, c)]⟩ s' := by
  refine ⟨?_, hmember, fun e he => ?_, hpresent, ?_⟩
  · show ro.Of node.pm
    rw [hpm]
    exact h.roster
  · rcases List.mem_append.mp he with he | he
    · exact h.subject e he
    · rw [List.mem_singleton.mp he]
      exact hp
  · rw [hsaid, h.said, List.filter_append, List.map_append]
    congr 1
    by_cases hcamp : ro.camp p ≤ 1 <;> simp [hcamp]

/-- **The roll follows the room**: `EnterP` of a player with camp at most 1 is one that enters, `LeaveP` one that
speaks, and the index is the rank that is said. -/
theorem Follows.step (h : Follows ro t w s) (hallowed : ro.Allowed o) (heq : w.step pb t o = .ok w') :
    Follows ro t w' ((rollOp ro o).elim s s.step) := by
  cases o with
  | enterP p pconn =>
    have hsame := (w.node.rm.same_enterP w.node.pm.players t p pconn).ridPMap
    set R := (w.node.room t).enter w.node.pm.players p pconn with hR
    have hrid := (h.roster p hallowed).1
    have hmember : ∀ {k q : Nat}, R.ridPMap[k]? = some q → q ∈ ro.players ∧ k = ro.rid q := by
      intro k q hq
      rcases insert_eq_some.mp hq with ⟨rfl, rfl⟩ | ⟨-, hq⟩
      · exact ⟨hallowed, hrid⟩
      · exact h.member hq
    have hcamps : R.campRids ro.camp =
        if ro.camp p ≤ 1 then insert (ro.rid p) (w.present ro t) else w.present ro t := by
      have hkey : ∀ {q : Nat}, (w.node.room t).ridPMap[(w.node.pm.players p).rid]? = some q → q = p := fun hq =>
        ro.inj (h.member hq).1 hallowed ((h.member hq).2.symm.trans hrid)
      rw [hR, Room.campRids_enter pconn hkey, hrid]
      rfl
    have hidx := pidx_eq_rank 1 h.roster hmember hallowed
    have hroom : ((w.node.rm.enterP w.node.pm.players t p pconn).rooms t).campRids ro.camp = R.campRids ro.camp :=
      Room.campRids_of_ridPMap hsame
    cases heq
    refine h.append hallowed rfl (fun {k q} hq => hmember (hsame ▸ hq)) (Eq.trans ?_ hroom.symm) ?_
    · rw [hcamps, ← h.present, rollOp]
      split <;> rfl
    · show _ = s.said ++ if ro.camp p ≤ 1 then [(ro.rid p, (R.svrCmd w.node.pm.players p 1).pidx)] else []
      rw [hidx, hcamps, ← h.present, rollOp]
      split
      · rfl
      · exact (List.append_nil _).symm
  | leaveP p =>
    have hsame : ((w.node.rm.leaveP w.node.pm.players t p).rooms t).ridPMap = (w.node.room t).ridPMap :=
      ((w.node.rm.quiet_pushCmd t ((w.node.room t).svrCmd w.node.pm.players p 0)).rooms t).1.ridPMap
    have hroom : ((w.node.rm.leaveP w.node.pm.players t p).rooms t).campRids ro.camp = w.present ro t :=
      Room.campRids_of_ridPMap hsame
    have hidx := pidx_eq_rank 0 h.roster h.member hallowed
    cases heq
    refine h.append hallowed rfl (fun {k q} hq => h.member (hsame ▸ hq)) (Eq.trans ?_ hroom.symm) ?_
    · rw [← h.present, rollOp]
      split <;> rfl
    · show _ = s.said ++ if ro.camp p ≤ 1 then [(ro.rid p, ((w.node.room t).svrCmd w.node.pm.players p 0).pidx)] else []
      rw [hidx, rollOp]
      split
      · show s.said ++ [(ro.rid p, rank s.present (ro.rid p))] = _
        rw [h.present]
        rfl
      · exact (List.append_nil _).symm
  | others kcp pm =>
    cases heq
    exact ⟨hallowed, h.member, h.subject, h.present, h.said⟩

end Follows

/-! ## Index agreement -/

theorem follows_start {ro : Roster} {g : GameNode} (hroster : ro.Of g.pm) (t : Nat) (roomid : Int) :
    Follows ro t (start g t roomid) ⟨∅, []⟩ := by
  have hnone : ∀ {k : Nat}, ((start g t roomid).node.room t).ridPMap[k]? = none := by
    intro k
    have hroom : (start g t roomid).node.room t = (g.room t).init roomid := RoomMgr.modify_self ..
    rw [hroom]
    exact Std.TreeMap.getElem?_emptyc
  refine ⟨hroster, fun hq => ?_, fun e he => ?_, ?_, rfl⟩
  · cases hnone.symm.trans hq
  · cases he
  · ext k
    unfold MemberWorld.present
    rw [Room.mem_campRids]
    constructor
    · intro hk
      cases Finset.notMem_empty k hk
    · rintro ⟨q, hq, -⟩
      cases hnone.symm.trans hq

/-- Every state of a run of steps that keep the ranks is followed by a roll in order. -/
theorem exists_follows {pb : Pb} {ro : Roster} {g : GameNode} (hroster : ro.Of g.pm) {t : Nat} {roomid : Int}
    {w : MemberWorld} (h : Reach (step pb t) (fun w o => ro.Allowed o ∧ w.Keeps ro t o) (start g t roomid) w) :
    ∃ s, Follows ro t w s ∧ s.Inv := by
  refine h.invariant (I := fun w => ∃ s, Follows ro t w s ∧ s.Inv)
    ⟨_, follows_start hroster t roomid, Roll.inv_empty⟩ ?_
  rintro w o w' ⟨s, hs, hinv⟩ ⟨hallowed, hkeeps⟩ heq
  refine ⟨_, hs.step hallowed heq, ?_⟩
  have hroll := (hs.keeps_iff hallowed).mp hkeeps
  cases hop : rollOp ro o with
  | none => exact hinv
  | some a => exact hinv.step (hroll a hop)

/-- **Index agreement.** In every run of `EnterP` and `LeaveP` calls in which players with camp at most 1 enter in the
order of their rids the indexes agree, and a call breaks the agreement exactly if it does not keep to that. -/
theorem index_agrees_iff (pb : Pb) (ro : Roster) {g : GameNode} (hroster : ro.Of g.pm) (t : Nat) (roomid : Int)
    {w : MemberWorld} (h : Reach (step pb t) (fun w o => ro.Allowed o ∧ w.Keeps ro t o) (start g t roomid) w) :
    ro.Agrees w.svr ∧ ∀ o w', ro.Allowed o → w.step pb t o = .ok w' → (ro.Agrees w'.svr ↔ w.Keeps ro t o) := by
  obtain ⟨s, hs, hinv⟩ := exists_follows hroster h
  refine ⟨hs.agrees_iff.mp hinv.agrees, fun o w' hallowed heq => ?_⟩
  rw [← (hs.step hallowed heq).agrees_iff, hs.keeps_iff hallowed]
  cases hop : rollOp ro o with
  | none =>
    exact ⟨fun _ a ha => absurd ha (by simp), fun _ => hinv.agrees⟩
  | some a =>
    refine Iff.trans (Roll.agrees_step_iff hinv) ?_
    simp

/-- Two players with camp 1 and the given rids. -/
def pair (rid₀ rid₁ : Nat) (h : rid₀ ≠ rid₁) : Roster where
  players := {0, 1}
  rid p := if p = 0 then rid₀ else rid₁
  camp _ := 1
  inj := by
    intro p hp q hq heq
    simp only [Finset.coe_insert, Finset.coe_singleton, Set.mem_insert_iff, Set.mem_singleton_iff] at hp hq
    rcases hp with rfl | rfl <;> rcases hq with rfl | rfl
    · rfl
    · exact absurd heq h
    · exact absurd heq.symm h
    · rfl
  card_le := by decide

def pairNode (rid₀ rid₁ : Nat) : GameNode :=
  { GameNode.new with
    pm := { PlayerMgr.new with
      players := (PlayerMgr.new.players.set 0 ⟨1, 0, rid₀, 5, false, 1⟩).set 1 ⟨2, 0, rid₁, 5, false, 1⟩ } }

theorem pair_of (rid₀ rid₁ : Nat) (h : rid₀ ≠ rid₁) : (pair rid₀ rid₁ h).Of (pairNode rid₀ rid₁).pm := by
  intro p hp
  rcases Finset.mem_insert.mp hp with rfl | hp
  · exact ⟨rfl, rfl⟩
  · obtain rfl := Finset.mem_singleton.mp hp
    exact ⟨rfl, rfl⟩

instance (ro : Roster) (o : MemberOp) : Decidable (ro.Allowed o) :=
  match o with
  | .enterP p _ => inferInstanceAs (Decidable (p ∈ ro.players))
  | .leaveP p => inferInstanceAs (Decidable (p ∈ ro.players))
  | .others _ pm => inferInstanceAs (Decidable (∀ p ∈ ro.players, _ ∧ (pm.players p).camp = _))

instance (ro : Roster) (t : Nat) (w : MemberWorld) (o : MemberOp) : Decidable (w.Keeps ro t o) :=
  match o with
  | .enterP p _ => inferInstanceAs (Decidable (ro.camp p ≤ 1 → ro.rid p ∈ w.present ro t ∨
      (∀ k ∈ w.present ro t, k < ro.rid p) ∧ ∀ e ∈ w.svr, e.1 ≠ p))
  | .leaveP p => inferInstanceAs (Decidable (ro.camp p ≤ 1 → ro.rid p ∈ w.present ro t ∨
      (∀ k ∈ w.present ro t, ro.rid p < k) ∧
        ∀ e ∈ w.svr, ro.camp e.1 ≤ 1 → ro.rid e.1 ∈ w.present ro t ∨ e.1 = p))
  | .others _ _ => inferInstanceAs (Decidable True)

theorem exists_pairRun {P : MemberWorld → MemberOp → Prop} [∀ w o, Decidable (P w o)] (rid₀ rid₁ : Nat)
    (ops : List MemberOp) (idx : List (Nat × Nat))
    (h : (runIf (step GameNode.ridParser 0) (fun w o => decide (P w o)) (start (pairNode rid₀ rid₁) 0 5) ops).any
      (fun w => decide (w.svr.map (fun e => (e.1, e.2.pidx)) = idx)) = true) :
    ∃ w, Reach (step GameNode.ridParser 0) P (start (pairNode rid₀ rid₁) 0 5) w ∧
      w.svr.map (fun e => (e.1, e.2.pidx)) = idx := by
  obtain ⟨w, hw, hidx⟩ := Reach.of_runIf_any (fun _ _ ho => of_decide_eq_true ho) h
  exact ⟨w, hw, of_decide_eq_true hidx⟩

/-- The players with the rids 7 and 9 enter in this order, one of them enters again and the other one leaves. -/
theorem index_agrees_ascending : ∃ w : MemberWorld,
    w.svr.map (fun e => (e.1, e.2.pidx)) = [(0, 1), (1, 2), (0, 1), (1, 2)] ∧ (pair 7 9 (by decide)).Agrees w.svr := by
  obtain ⟨w, hw, hidx⟩ := exists_pairRun (P := fun w o => (pair 7 9 (by decide)).Allowed o ∧
    w.Keeps (pair 7 9 (by decide)) 0 o) 7 9 [.enterP 0 none, .enterP 1 none, .enterP 0 none, .leaveP 1]
    [(0, 1), (1, 2), (0, 1), (1, 2)] (by decide +kernel)
  exact ⟨w, hidx, (index_agrees_iff GameNode.ridParser _ (pair_of 7 9 (by decide)) 0 5 hw).1⟩

/-- `NewRoom` with the body `1,2|9,7|1|1,1` enters the player with rid 9 first: both commands carry index 1. -/
theorem not_index_agrees : ∃ w, Reach (step GameNode.ridParser 0) (fun _ o => (pair 9 7 (by decide)).Allowed o)
    (start (pairNode 9 7) 0 5) w ∧ ¬ (pair 9 7 (by decide)).Agrees w.svr := by
  obtain ⟨w, hw, hidx⟩ := exists_pairRun (P := fun _ o => (pair 9 7 (by decide)).Allowed o) 9 7
    [.enterP 0 none, .enterP 1 none] [(0, 1), (1, 1)] (by decide +kernel)
  refine ⟨w, hw, fun hagrees => ?_⟩
  obtain ⟨e, he, heq⟩ := List.mem_map.mp (hidx ▸ List.mem_cons_self : (0, 1) ∈ w.svr.map fun e => (e.1, e.2.pidx))
  obtain ⟨e', he', heq'⟩ := List.mem_map.mp
    (hidx ▸ List.mem_cons_of_mem _ List.mem_cons_self : (1, 1) ∈ w.svr.map fun e => (e.1, e.2.pidx))
  have hsame := (hagrees e he e' he' le_rfl le_rfl).mpr ((congrArg Prod.snd heq).trans (congrArg Prod.snd heq').symm)
  have hdiff : (0 : Nat) = 1 := (congrArg Prod.fst heq).symm.trans (hsame.trans (congrArg Prod.fst heq'))
  cases hdiff

/-- The pending commands that `NewRoom` leaves for this body. -/
example : ((GameNode.new.newRoom 5 [49, 44, 50, 124, 57, 44, 55, 124, 49, 124, 49, 44, 49]).toOption.map fun g =>
    (g.rm.pending 0).map Cmd.pidx) = some [1, 1] := by decide +kernel

end MemberWorld

end KcpServer
