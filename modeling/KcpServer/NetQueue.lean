import KcpServer.ConnMgr

/-!
# Applying the event queue

`processQueue` collects the new connections and creates them behind everything else; `applyInOrder` is what a queue
means, its operations one by one. `live_processQueue` and `live_applyInOrder` say which descriptors are registered
afterwards, descriptor by descriptor, and `processQueue_iff` when the two agree.
-/

namespace KcpServer
open Lib

/-! ## What a queue means -/

namespace NetOp

def news (q : List NetOp) : List Int :=
  q.filterMap fun
    | .newConn fd _ => some fd
    | _ => none

def fd : NetOp → Int
  | .newConn fd _ | .dataIn fd | .quitConn fd => fd

/-- Whether the descriptor is live behind an operation in front of which it was live if `b`. -/
def After (fd : Int) (b : Prop) : NetOp → Prop
  | .newConn fd' _ => fd = fd' ∨ b
  | .dataIn _ => b
  | .quitConn fd' => fd ≠ fd' ∧ b

/-- The last `NEW_CONN` for the descriptor is followed by a `QUIT_CONN` for it. -/
def QuitAfterNew (fd : Int) (q : List NetOp) : Prop :=
  ∃ q₁ paddr q₂, q = q₁ ++ .newConn fd paddr :: q₂ ∧ fd ∉ news q₂ ∧ .quitConn fd ∈ q₂

theorem mem_news {fd : Int} {q : List NetOp} : fd ∈ news q ↔ ∃ paddr, NetOp.newConn fd paddr ∈ q := by
  simp only [news, List.mem_filterMap]
  constructor
  · rintro ⟨o, ho, h⟩
    cases o with
    | newConn fd' paddr => cases h; exact ⟨paddr, ho⟩
    | dataIn fd' => cases h
    | quitConn fd' => cases h
  · rintro ⟨paddr, h⟩
    exact ⟨_, h, rfl⟩

theorem exists_last_new {fd : Int} {q : List NetOp} (h : fd ∈ news q) :
    ∃ q₁ paddr q₂, q = q₁ ++ .newConn fd paddr :: q₂ ∧ fd ∉ news q₂ := by
  induction q with
  | nil => simp [news] at h
  | cons o q ih =>
    by_cases hq : fd ∈ news q
    · obtain ⟨q₁, paddr, q₂, rfl, hlast⟩ := ih hq
      exact ⟨o :: q₁, paddr, q₂, rfl, hlast⟩
    · obtain ⟨paddr, hmem⟩ := mem_news.mp h
      rcases List.mem_cons.mp hmem with rfl | hmem
      · exact ⟨[], paddr, q, rfl, hq⟩
      · exact absurd (mem_news.mpr ⟨paddr, hmem⟩) hq

theorem foldl_after_of_not_new {fd : Int} {q : List NetOp} (h : fd ∉ news q) (b : Prop) :
    q.foldl (After fd) b ↔ .quitConn fd ∉ q ∧ b := by
  induction q generalizing b with
  | nil => simp
  | cons o q ih =>
    have hq : fd ∉ news q := by
      intro hmem
      obtain ⟨paddr, hmem⟩ := mem_news.mp hmem
      exact h (mem_news.mpr ⟨paddr, List.mem_cons_of_mem o hmem⟩)
    rw [List.foldl_cons, ih hq]
    cases o with
    | newConn fd' paddr =>
      have hne : fd ≠ fd' := by
        rintro rfl
        exact h (mem_news.mpr ⟨paddr, List.mem_cons_self⟩)
      simp [After, hne]
    | dataIn fd' => simp [After]
    | quitConn fd' =>
      simp only [After, List.mem_cons, NetOp.quitConn.injEq]
      tauto

/-- Behind the last `NEW_CONN` only a `QUIT_CONN` counts. -/
theorem foldl_after_last {fd : Int} {q₁ q₂ : List NetOp} {paddr : PeerAddr} (h : fd ∉ news q₂) (b : Prop) :
    (q₁ ++ .newConn fd paddr :: q₂).foldl (After fd) b ↔ .quitConn fd ∉ q₂ := by
  rw [List.foldl_append, List.foldl_cons, foldl_after_of_not_new h]
  simp [After]

/-- Collecting the new connections behind everything else is harmless for a descriptor exactly when its last `NEW_CONN`
is not followed by a `QUIT_CONN`. -/
theorem collected_iff (fd : Int) (q : List NetOp) (b : Prop) :
    (fd ∈ news q ∨ (.quitConn fd ∉ q ∧ b) ↔ q.foldl (After fd) b) ↔ ¬ QuitAfterNew fd q := by
  by_cases hnew : fd ∈ news q
  · constructor
    · rintro h ⟨q₁, paddr, q₂, rfl, hlast, hquit⟩
      exact (foldl_after_last hlast b).mp (h.mp (Or.inl hnew)) hquit
    · intro h
      obtain ⟨q₁, paddr, q₂, rfl, hlast⟩ := exists_last_new hnew
      rw [foldl_after_last hlast]
      refine iff_of_true (Or.inl hnew) fun hquit => h ⟨q₁, paddr, q₂, rfl, hlast, hquit⟩
  · rw [foldl_after_of_not_new hnew]
    refine iff_of_true ⟨fun h => h.resolve_left hnew, Or.inr⟩ ?_
    rintro ⟨q₁, paddr, q₂, rfl, -⟩
    exact hnew (mem_news.mpr ⟨paddr, by simp⟩)

end NetOp

namespace NetServer
open NetOp

def apply (s : NetServer) : NetOp → Except Fault NetServer
  | .newConn fd paddr => do
    let (mgr, _) ← s.mgr.createConn s.bNet fd paddr
    return { s with mgr }
  | .dataIn fd => return { s with readFdMap := s.readFdMap.insert fd true }
  | .quitConn fd => return { s with mgr := (s.mgr.delConn fd false).1 }

def applyInOrder (s : NetServer) (q : List NetOp) : Except Fault NetServer := q.foldlM apply s

/-- The session ids are enough for the new connections of a queue. -/
def Room (s : NetServer) (q : List NetOp) : Prop := s.mgr.maxSessid + (news q).length < 2 ^ 31

theorem apply_spec {s : NetServer} (hs : s.mgr.Coherent) {o : NetOp} {q : List NetOp} (hroom : s.Room (o :: q)) :
    ∃ t, s.apply o = .ok t ∧ t.mgr.Coherent ∧ t.Room q ∧ ∀ fd, t.mgr.Live fd ↔ After fd (s.mgr.Live fd) o := by
  cases o with
  | newConn fd paddr =>
    have hlen : (news (.newConn fd paddr :: q)).length = (news q).length + 1 := rfl
    rw [Room, hlen] at hroom
    obtain ⟨g, regs, c, hg, -⟩ := ConnObjMgr.createConn_ok (g := s.mgr) (by omega) s.bNet fd paddr
    obtain ⟨hcoh, hsess, hlive⟩ := ConnObjMgr.coherent_createConn hs hg
    refine ⟨{ s with mgr := g }, by rw [apply, hg]; rfl, hcoh, ?_, fun fd' => hlive fd'⟩
    rw [Room]
    dsimp only
    omega
  | dataIn fd => exact ⟨_, rfl, hs, hroom, fun _ => Iff.rfl⟩
  | quitConn fd =>
    obtain ⟨hcoh, hsess, hlive⟩ := ConnObjMgr.coherent_delConn hs fd false
    refine ⟨_, rfl, hcoh, ?_, hlive⟩
    rw [Room]
    dsimp only
    rw [hsess]
    exact hroom

theorem live_applyInOrder {s : NetServer} (hs : s.mgr.Coherent) {q : List NetOp} (hroom : s.Room q) :
    ∃ t, s.applyInOrder q = .ok t ∧ ∀ fd, t.mgr.Live fd ↔ q.foldl (After fd) (s.mgr.Live fd) := by
  induction q generalizing s with
  | nil => exact ⟨s, rfl, fun _ => Iff.rfl⟩
  | cons o q ih =>
    obtain ⟨s₁, hs₁, hcoh, hroom₁, hlive⟩ := apply_spec hs hroom
    obtain ⟨t, ht, hlive'⟩ := ih hcoh hroom₁
    refine ⟨t, ?_, fun fd => ?_⟩
    · rw [applyInOrder, List.foldlM_cons, hs₁]
      exact ht
    · rw [hlive', List.foldl_cons, propext (hlive fd)]

/-- The loop over the queue deletes what is quit and collects what is new. -/
theorem drainQueue_spec {s : NetServer} (hs : s.mgr.Coherent) (q : List NetOp) (listNew : List (Int × PeerAddr)) :
    (drainQueue q s listNew).1.mgr.Coherent ∧ (drainQueue q s listNew).1.mgr.maxSessid = s.mgr.maxSessid ∧
      (drainQueue q s listNew).2.1.map Prod.fst = listNew.map Prod.fst ++ news q ∧
      ∀ fd, (drainQueue q s listNew).1.mgr.Live fd ↔ .quitConn fd ∉ q ∧ s.mgr.Live fd := by
  induction q generalizing s listNew with
  | nil => exact ⟨hs, rfl, (List.append_nil _).symm, fun fd => by simp [drainQueue]⟩
  | cons o q ih =>
    cases o with
    | newConn fd paddr =>
      obtain ⟨hcoh, hsess, hnew, hlive⟩ := ih hs (listNew ++ [(fd, paddr)])
      refine ⟨hcoh, hsess, ?_, fun fd' => ?_⟩
      · rw [drainQueue, hnew, List.map_append, List.append_assoc]
        rfl
      · rw [drainQueue, hlive]
        simp
    | dataIn fd =>
      obtain ⟨hcoh, hsess, hnew, hlive⟩ := ih (s := { s with readFdMap := s.readFdMap.insert fd true }) hs listNew
      refine ⟨hcoh, hsess, hnew, fun fd' => ?_⟩
      rw [drainQueue, hlive]
      simp
    | quitConn fd =>
      obtain ⟨hcoh₁, hsess₁, hlive₁⟩ := ConnObjMgr.coherent_delConn hs fd false
      obtain ⟨hcoh, hsess, hnew, hlive⟩ := ih (s := { s with mgr := (s.mgr.delConn fd false).1 }) hcoh₁ listNew
      refine ⟨hcoh, hsess.trans hsess₁, hnew, fun fd' => ?_⟩
      change (drainQueue q { s with mgr := (s.mgr.delConn fd false).1 } listNew).1.mgr.Live fd' ↔ _
      rw [hlive, hlive₁]
      simp only [List.mem_cons, NetOp.quitConn.injEq]
      tauto

end NetServer

namespace ConnObjMgr

theorem createConnBatch_ok (g : ConnObjMgr) (plist : List (Int × PeerAddr))
    (hroom : g.maxSessid + plist.length < 2 ^ 31) (bNet : Bool) :
    ∃ g' regs, g.createConnBatch bNet plist = .ok (g', regs) := by
  induction plist generalizing g with
  | nil => exact ⟨g, [], rfl⟩
  | cons p plist ih =>
    obtain ⟨fd, paddr⟩ := p
    rw [List.length_cons] at hroom
    obtain ⟨g₁, regs₁, c, h₁, -, -, -, -, hsess⟩ := createConn_ok (g := g) (by omega) bNet fd paddr
    obtain ⟨g₂, regs₂, h₂⟩ := ih g₁ (by rw [hsess]; push_cast at hroom; omega)
    exact ⟨g₂, regs₁ ++ regs₂, by rw [createConnBatch, h₁, ok_bind]; dsimp only; rw [h₂]; rfl⟩

theorem coherent_createConnBatch {g g' : ConnObjMgr} (hg : g.Coherent) {bNet : Bool} {plist : List (Int × PeerAddr)}
    {regs : List RegConn} (h : g.createConnBatch bNet plist = .ok (g', regs)) :
    g'.Coherent ∧ g'.maxSessid = g.maxSessid + plist.length ∧
      ∀ fd, g'.Live fd ↔ fd ∈ plist.map Prod.fst ∨ g.Live fd := by
  induction plist generalizing g regs with
  | nil => cases h; exact ⟨hg, by simp, fun fd => by simp⟩
  | cons p plist ih =>
    obtain ⟨fd, paddr⟩ := p
    obtain ⟨⟨g₁, regs₁⟩, h₁, h⟩ := bind_eq_ok.mp h
    obtain ⟨⟨g₂, regs₂⟩, h₂, hk⟩ := bind_eq_ok.mp h
    cases hk
    obtain ⟨hcoh₁, hsess₁, hlive₁⟩ := coherent_createConn hg h₁
    obtain ⟨hcoh₂, hsess₂, hlive₂⟩ := ih hcoh₁ h₂
    refine ⟨hcoh₂, ?_, fun fd' => ?_⟩
    · rw [hsess₂, hsess₁, List.length_cons]
      push_cast
      omega
    · rw [hlive₂, hlive₁, List.map_cons, List.mem_cons]
      tauto

end ConnObjMgr

namespace NetServer
open NetOp

theorem processQueue_ok {s : NetServer} (hs : s.mgr.Coherent) (hroom : s.Room s.netQueue) :
    ∃ t regs, s.processQueue = .ok (t, regs) := by
  obtain ⟨-, hsess, hnew, -⟩ := drainQueue_spec hs s.netQueue []
  have hlen := congrArg List.length hnew
  rw [List.length_map, List.map_nil, List.nil_append] at hlen
  obtain ⟨g, regs, hg⟩ := ConnObjMgr.createConnBatch_ok (drainQueue s.netQueue s []).1.mgr
    (drainQueue s.netQueue s []).2.1 (by rw [hsess, hlen]; exact hroom)
    (drainQueue s.netQueue s []).1.bNet
  exact ⟨_, _, by rw [processQueue]; dsimp only; rw [hg]; rfl⟩

theorem live_processQueue {s t : NetServer} (hs : s.mgr.Coherent) {regs : List RegConn}
    (h : s.processQueue = .ok (t, regs)) :
    s.Room s.netQueue ∧ ∀ fd, t.mgr.Live fd ↔ fd ∈ news s.netQueue ∨ (.quitConn fd ∉ s.netQueue ∧ s.mgr.Live fd) := by
  obtain ⟨hcoh, hsess, hnew, hlive⟩ := drainQueue_spec hs s.netQueue []
  obtain ⟨⟨g, regs'⟩, hg, hk⟩ := bind_eq_ok.mp h
  cases hk
  obtain ⟨hcoh', hsess', hlive'⟩ := ConnObjMgr.coherent_createConnBatch hcoh hg
  have hlen := congrArg List.length hnew
  rw [List.length_map, List.map_nil, List.nil_append] at hlen
  refine ⟨?_, fun fd => ?_⟩
  · have hlt := hcoh'.maxSessid_lt
    rw [hsess', hsess, hlen] at hlt
    exact hlt
  · dsimp only
    rw [hlive', hlive, hnew]
    rfl

/-- **A pass over the event queue, with its exact condition.** For every queue and every table, the pass returns and
leaves the live descriptors that the queued operations leave one by one, so that a descriptor whose last operation is a
`QUIT_CONN` is not live, if and only if the session ids suffice for the new connections and no descriptor's last
`NEW_CONN` is followed by a `QUIT_CONN` for it. -/
theorem processQueue_iff (s : NetServer) (hs : s.mgr.Coherent) :
    (∃ t regs u, s.processQueue = .ok (t, regs) ∧ s.applyInOrder s.netQueue = .ok u ∧
      (∀ fd, t.mgr.Live fd ↔ u.mgr.Live fd) ∧
      ∀ fd q₁ q₂, s.netQueue = q₁ ++ .quitConn fd :: q₂ → (∀ o ∈ q₂, o.fd ≠ fd) → ¬ t.mgr.Live fd) ↔
    s.mgr.maxSessid + (news s.netQueue).length < 2 ^ 31 ∧ ∀ fd, ¬ QuitAfterNew fd s.netQueue := by
  constructor
  · rintro ⟨t, regs, u, ht, hu, hlive, -⟩
    obtain ⟨hroom, hpass⟩ := live_processQueue hs ht
    obtain ⟨u', hu', hseq⟩ := live_applyInOrder hs hroom
    rw [hu] at hu'
    cases hu'
    refine ⟨hroom, fun fd => (collected_iff fd s.netQueue (s.mgr.Live fd)).mp ?_⟩
    rw [← hpass, hlive, hseq]
  · rintro ⟨hroom, hquit⟩
    obtain ⟨t, regs, ht⟩ := processQueue_ok hs hroom
    obtain ⟨u, hu, hseq⟩ := live_applyInOrder hs hroom
    have hpass := (live_processQueue hs ht).2
    have hsame : ∀ fd, t.mgr.Live fd ↔ u.mgr.Live fd := by
      intro fd
      rw [hpass, hseq]
      exact (collected_iff fd s.netQueue (s.mgr.Live fd)).mpr (hquit fd)
    refine ⟨t, regs, u, ht, hu, hsame, fun fd q₁ q₂ hq hlast => ?_⟩
    have hnew : fd ∉ news q₂ := by
      intro hmem
      obtain ⟨paddr, hmem⟩ := mem_news.mp hmem
      exact hlast _ hmem rfl
    rw [hsame, hseq, hq, List.foldl_append, List.foldl_cons, foldl_after_of_not_new hnew]
    exact fun h => h.2.1 rfl

/-- A server without connections and with the given queue. -/
def idle (q : List NetOp) : NetServer := ⟨q, ∅, true, .new⟩

def peerAddr : PeerAddr := ⟨⟨[49, 46, 50, 46, 51, 46, 52, 58, 53], by simp⟩, by decide⟩

/-- A client that connects and disconnects between two passes stays registered. -/
theorem not_processQueue_inOrder : ∃ q, ¬ ∃ t regs u, (idle q).processQueue = .ok (t, regs) ∧
    (idle q).applyInOrder (idle q).netQueue = .ok u ∧ (∀ fd, t.mgr.Live fd ↔ u.mgr.Live fd) ∧
      ∀ fd q₁ q₂, (idle q).netQueue = q₁ ++ .quitConn fd :: q₂ → (∀ o ∈ q₂, o.fd ≠ fd) → ¬ t.mgr.Live fd := by
  refine ⟨[.newConn 5 peerAddr, .quitConn 5], ?_⟩
  rintro ⟨t, regs, u, ht, -, -, hlast⟩
  obtain ⟨-, hpass⟩ := live_processQueue ConnObjMgr.coherent_new ht
  exact hlast 5 [.newConn 5 peerAddr] [] rfl (by simp) ((hpass 5).mpr (Or.inl (mem_news.mpr ⟨peerAddr, by simp [idle]⟩)))

/-- A client that disconnects and another one that gets its descriptor. -/
theorem processQueue_quit_new : ∃ t regs u,
    (idle [.quitConn 5, .newConn 5 peerAddr]).processQueue = .ok (t, regs) ∧
    (idle [.quitConn 5, .newConn 5 peerAddr]).applyInOrder [.quitConn 5, .newConn 5 peerAddr] = .ok u ∧
    ∀ fd, t.mgr.Live fd ↔ u.mgr.Live fd := by
  have hnot : ∀ fd, ¬ QuitAfterNew fd (idle [.quitConn 5, .newConn 5 peerAddr]).netQueue := by
    rintro fd ⟨q₁, paddr, q₂, hq, -, hquit⟩
    match q₁, hq with
    | [_], hq => cases hq; cases hquit
    | _ :: _ :: q₁, hq =>
      have := congrArg List.length hq
      simp [idle] at this
  obtain ⟨t, regs, u, ht, hu, hlive, -⟩ :=
    (processQueue_iff (idle [.quitConn 5, .newConn 5 peerAddr]) ConnObjMgr.coherent_new).mpr ⟨by decide, hnot⟩
  exact ⟨t, regs, u, ht, hu, hlive⟩

end NetServer

end KcpServer
