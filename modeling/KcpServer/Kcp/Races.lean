import KcpServer.Kcp.Sections

/-!
# What the other thread does between two sections

* `timeout_unbound_iff` : the timeout deletes no bound session while none is bound that waits for its deletion;
* `closes_only_iff` : `closeConn` closes its session only while nobody takes the place of the object it has found.
-/

namespace KcpServer
open Lib

/-! ## Timeouts -/

namespace KcpThreads

/-- No session that waits for its deletion by the timeout is bound. -/
def Unbound (w : KcpThreads) : Prop :=
  ∀ fd ∈ w.server.delQue, ∀ c : Nat, w.server.mapConn[fd]? = some c → (w.server.conns c).bind = false

/-- A session that a 2004 binds does not wait for its deletion. -/
def Unawaited (w : KcpThreads) : KcpOp → Prop
  | .setSessid _ sessid => ∀ p : Nat, w.server.mapSessFd[sessid]? = some p → (w.server.conns p).fd ∉ w.server.delQue
  | _ => True

end KcpThreads

namespace KCPServer
variable {s t u : KCPServer}

/-- Nothing is bound, registered or found to have timed out. -/
structure Calm (s t : KCPServer) : Prop where
  delQue : ∀ fd ∈ t.delQue, fd ∈ s.delQue
  sub : ∀ {fd : Int} {q : Nat}, t.mapConn[fd]? = some q → s.mapConn[fd]? = some q
  bind : ∀ q, (t.conns q).bind = (s.conns q).bind

theorem Calm.refl (s : KCPServer) : Calm s s := ⟨fun _ h => h, fun h => h, fun _ => rfl⟩

theorem calm_delConn (s : KCPServer) (fd : Int) : Calm s (s.delConn fd) := by
  rcases s.delConn_eq fd with heq | ⟨p, -, heq⟩
  · rw [heq]
    exact .refl s
  · rw [heq]
    refine ⟨fun _ h => h, fun h => (erase_eq_some.mp h).2, fun q => ?_⟩
    unfold release
    dsimp only
    by_cases hq : q = p
    · rw [hq, Heap.set_self]
      rfl
    · rw [Heap.set_of_ne _ hq]

theorem calm_rawCloseConn (s : KCPServer) (sessid : Int) : Calm s (s.rawCloseConn sessid) := by
  rw [rawCloseConn_eq_closeConn]
  unfold closeConn
  split
  · exact .refl s
  · exact calm_delConn s _

theorem calm_delTimeout (s : KCPServer) : Calm s s.delTimeout := by
  unfold delTimeout
  split
  · exact .refl s
  · next fd delQue hque =>
    have h := calm_delConn s fd
    refine ⟨fun fd' hfd' => ?_, h.sub, h.bind⟩
    rw [hque]
    exact List.mem_cons_of_mem _ hfd'

theorem calm_processMsg (s : KCPServer) (clifd : Int) (msgs : List Bytes) : Calm s (s.processMsg clifd msgs) := by
  unfold processMsg
  split
  · exact .refl s
  · next p _ =>
    refine ⟨fun _ h => h, fun h => h, fun q => ?_⟩
    dsimp only
    by_cases hq : q = p
    · rw [hq, Heap.set_self]
      rfl
    · rw [Heap.set_of_ne _ hq]

theorem calm_dealMsg {fd : Int} (h : s.dealMsg fd = .ok t) : Calm s t := by
  obtain ⟨hused, hque, hbind⟩ := used_dealMsg h
  exact ⟨fun fd' hfd' => hque ▸ hfd', fun hq => by rwa [hused.mapConn] at hq, hbind⟩

/-- What the scan finds is not bound. -/
theorem scanTimeout_delQue (s : KCPServer) (ms : Nat) : (s.scanTimeout ms).mapConn = s.mapConn ∧
    (s.scanTimeout ms).conns = s.conns ∧ ((s.scanTimeout ms).delQue = s.delQue ∨
      ∀ fd ∈ (s.scanTimeout ms).delQue, ∃ c : Nat, s.mapConn[fd]? = some c ∧ (s.conns c).bind = false) := by
  unfold scanTimeout
  split
  · exact ⟨rfl, rfl, .inl rfl⟩
  · split
    · refine ⟨rfl, rfl, .inr fun fd hfd => ?_⟩
      obtain ⟨⟨fd', c⟩, he, rfl⟩ := List.mem_map.mp hfd
      obtain ⟨hmem, hout⟩ := List.mem_filter.mp he
      refine ⟨c, Std.TreeMap.mem_toList_iff_getElem?_eq_some.mp hmem, ?_⟩
      dsimp only [UDPConn.onCheckTimeout] at hout
      simp only [Bool.decide_and, Bool.and_eq_true, decide_eq_true_eq] at hout
      simpa using hout.1
    · exact ⟨rfl, rfl, .inl rfl⟩

end KCPServer

namespace KcpThreads
open KCPServer
variable {w w' : KcpThreads}

theorem unbound_calm {s : KCPServer} {k : Closing} (hw : w.Unbound) (h : w.server.Calm s) :
    Unbound ⟨s, k⟩ := by
  intro fd hfd c hc
  dsimp only at hfd hc ⊢
  rw [h.bind]
  exact hw fd (h.delQue fd hfd) c (h.sub hc)

/-- A 2004 keeps this exactly if its session does not wait for its deletion. -/
theorem unbound_setSessid (hs : w.server.Registry) (hw : w.Unbound) {old sessid : Int} {t : KCPServer}
    (h : w.server.setSessid old sessid = .ok t) {k : Closing} : Unbound ⟨t, k⟩ ↔ w.Unawaited (.setSessid old sessid) := by
  obtain ⟨u, hu, rfl, p, hp⟩ := setSessid_eq h
  have hchange : w.server.Change u := by
    rcases hu with rfl | rfl
    · exact .inl (.refl _)
    · exact change_rawCloseConn _ old
  have hcalm : w.server.Calm u := by
    rcases hu with rfl | rfl
    · exact .refl _
    · exact calm_rawCloseConn _ old
  have hque : u.delQue = w.server.delQue := by
    rcases hu with rfl | rfl
    · rfl
    · rw [rawCloseConn_eq_closeConn]
      rcases closeConn_eq hs old with ⟨-, heq⟩ | ⟨q, -, heq⟩ <;> rw [heq]
      rfl
  have hreg : u.Registry := registry_change hs hchange
  obtain ⟨-, hfd, -, hsub, hsess⟩ := hchange.fields p
  have hbound : u.bindConn sessid = ({ u with conns := u.conns.set p (u.conns p).setBind }, some p) := by
    unfold bindConn rawGetConn
    rw [hp]
  rw [hbound]
  constructor
  · intro h p' hp' hmem
    rw [hsess sessid hp] at hp'
    cases hp'
    rw [← hque, ← hfd] at hmem
    have hbind := h _ hmem p (hreg.sess hp).2
    dsimp only at hbind
    rw [Heap.set_self] at hbind
    cases hbind
  · intro h fd' hmem c hc
    dsimp only at hmem hc ⊢
    have hne : c ≠ p := by
      rintro rfl
      refine h c (hsess sessid hp) ?_
      rw [← hfd, (hreg.conn hc).1, ← hque]
      exact hmem
    rw [Heap.set_of_ne _ hne, hcalm.bind]
    exact hw fd' (hque ▸ hmem) c (hcalm.sub hc)

theorem unbound_step (hs : w.server.Registry) (hw : w.Unbound) {o : KcpOp}
    (hset : ∀ old sessid, o ≠ .setSessid old sessid) (h : w.step o = .ok w') : w'.Unbound := by
  cases o with
  | createConn clifd buf msgs ms =>
    cases h
    obtain ⟨p, c₀, -, hconn, -, hnew, hsame, hfresh, -⟩ := createConn_spec hs clifd buf msgs ms
    intro fd hmem c hc
    dsimp only at hc ⊢
    rw [hconn] at hc
    rcases insert_eq_some.mp hc with ⟨-, rfl⟩ | ⟨-, hc⟩
    · rw [hnew]
      rfl
    · rw [hsame c (hs.conn hc).2.2 (hfresh fd c hc)]
      exact hw fd hmem c hc
  | processMsg clifd msgs =>
    cases h
    exact unbound_calm hw (calm_processMsg _ _ _)
  | scanTimeout ms =>
    cases h
    obtain ⟨hconn, hconns, hque⟩ := w.server.scanTimeout_delQue ms
    intro fd hmem c hc
    dsimp only at hmem hc ⊢
    rw [hconn] at hc
    rw [hconns]
    rcases hque with hque | hque
    · rw [hque] at hmem
      exact hw fd hmem c hc
    · obtain ⟨c', hc', hbind⟩ := hque fd hmem
      rw [hc] at hc'
      cases hc'
      exact hbind
  | delTimeout =>
    cases h
    exact unbound_calm hw (calm_delTimeout _)
  | dealMsg fd =>
    obtain ⟨s, hdeal, h⟩ := bind_eq_ok.mp h
    cases h
    exact unbound_calm hw (calm_dealMsg hdeal)
  | setSessid old sessid => exact absurd rfl (hset old sessid)
  | rawCloseConn sessid =>
    cases h
    exact unbound_calm hw (calm_rawCloseConn _ _)
  | closeLookup sessid =>
    rcases closeLookup_cases h with rfl | ⟨p, -, rfl⟩
    · exact hw
    · exact hw
  | closeFd =>
    rcases closeFd_cases h with rfl | ⟨sessid, p, -, rfl⟩
    · exact hw
    · exact hw
  | closeDel =>
    rcases closeDel_cases h with rfl | ⟨sessid, fd, -, rfl⟩
    · exact hw
    · exact unbound_calm hw (calm_delConn _ _)

theorem unbound_iff (hs : w.server.Registry) (hw : w.Unbound) {o : KcpOp} (h : w.step o = .ok w') :
    w'.Unbound ↔ w.Unawaited o := by
  by_cases hset : ∃ old sessid, o = .setSessid old sessid
  · obtain ⟨old, sessid, rfl⟩ := hset
    obtain ⟨s, hs', h⟩ := bind_eq_ok.mp h
    cases h
    exact unbound_setSessid hs hw hs'
  · have hne : ∀ old sessid, o ≠ .setSessid old sessid := fun old sessid heq => hset ⟨old, sessid, heq⟩
    refine iff_of_true (unbound_step hs hw hne h) ?_
    cases o <;> first | trivial | exact absurd rfl (hne _ _)

theorem unbound_start (n : Nat) : (start n).Unbound := by
  intro fd hmem
  cases hmem

/-- **When binding beats the timeout.** However the sections of the two threads are interleaved: while a 2004 binds only
sessions that do not wait for their deletion, the next deletion by the timeout hits no bound session. There the next
section leaves no bound session waiting for its deletion exactly if it meets this condition too. -/
theorem timeout_unbound_iff (n : Nat) (h : Reach step (fun w o => w.Allowed o ∧ w.Unawaited o) (start n) w) :
    (∀ fd delQue c, w.server.delQue = fd :: delQue → w.server.mapConn[fd]? = some c → (w.server.conns c).bind = false) ∧
      ∀ o w', w.step o = .ok w' → (w'.Unbound ↔ w.Unawaited o) := by
  have hw : w.server.Registry ∧ w.Unbound := by
    apply h.invariant (I := fun w => w.server.Registry ∧ w.Unbound)
    · exact ⟨registry_withPool n, unbound_start n⟩
    · intro w o w' hw ho hs
      exact ⟨registry_step hw.1 ho.1 hs, (unbound_iff hw.1 hw.2 hs).mpr ho.2⟩
  refine ⟨fun fd delQue c hque hc => ?_, fun o w' hs => unbound_iff hw.1 hw.2 hs⟩
  apply hw.2 fd ?_ c hc
  rw [hque]
  exact List.mem_cons_self

/-- A server whose timeout has run once, with one client behind it. -/
def aged (n : Nat) : KCPServer := ((withPool n).scanTimeout 500).createConn 5 [1, 0, 0, 0] [] 1000

theorem aged_spec (n : Nat) : ∃ p : Nat, (aged n).mapConn[(5 : Int)]? = some p ∧ (aged n).mapSessFd[(1 : Int)]? = some p ∧
    ((aged n).conns p).fd = 5 ∧ ((aged n).conns p).id = 1 ∧ ((aged n).scanTimeout 30000).delQue = [5] := by
  have hreg : ((withPool n).scanTimeout 500).Registry := registry_scanTimeout (registry_withPool n) 500
  obtain ⟨p, c₀, -, hconn, hsess, hnew, -⟩ := createConn_spec hreg 5 [1, 0, 0, 0] [] 1000
  have hid : int32 (((withPool n).scanTimeout 500).sessId + 1) = 1 := rfl
  refine ⟨p, ?_, ?_, ?_, ?_, ?_⟩
  · unfold aged
    rw [hconn]
    exact insert_eq_some.mpr (.inl ⟨rfl, rfl⟩)
  · unfold aged
    rw [hsess, hid]
    exact insert_eq_some.mpr (.inl ⟨rfl, rfl⟩)
  · unfold aged
    rw [hnew]
    rfl
  · unfold aged
    rw [hnew]
    exact hid
  · have hlist : (aged n).mapConn.toList = [(5, p)] := by
      unfold aged
      rw [hconn]
      rfl
    have hout : ((aged n).conns p).onCheckTimeout 30000 = true := by
      unfold aged
      rw [hnew]
      rfl
    have hlast : (aged n).lastTick = 500 := rfl
    unfold scanTimeout
    rw [hlast, if_neg (by decide), if_pos (by decide)]
    dsimp only
    rw [hlist, List.filter_cons, if_pos hout]
    rfl

/-- The client is reached under any condition that its two sections meet. -/
theorem reach_aged (n : Nat) {Q : KcpThreads → KcpOp → Prop} (hscan : Q (start n) (.scanTimeout 500))
    (hcreate : Q ⟨(withPool n).scanTimeout 500, .idle⟩ (.createConn 5 [1, 0, 0, 0] [] 1000)) :
    Reach step (fun w o => w.Allowed o ∧ Q w o) (start n) ⟨aged n, .idle⟩ := by
  have h₁ : (start n).step (.scanTimeout 500) = .ok ⟨(withPool n).scanTimeout 500, .idle⟩ := rfl
  have h₂ : step ⟨(withPool n).scanTimeout 500, .idle⟩ (.createConn 5 [1, 0, 0, 0] [] 1000) = .ok ⟨aged n, .idle⟩ := rfl
  have hallow : Allowed ⟨(withPool n).scanTimeout 500, .idle⟩ (.createConn 5 [1, 0, 0, 0] [] 1000) := by
    show 5 ∉ ((withPool n).scanTimeout 500).mapConn
    exact Std.TreeMap.not_mem_emptyc
  have hreach := Reach.refl.step (P := fun w o => Allowed w o ∧ Q w o) (o := KcpOp.scanTimeout 500) ⟨trivial, hscan⟩ h₁
  exact hreach.step (o := KcpOp.createConn _ _ _ _) ⟨hallow, hcreate⟩ h₂

theorem expired (n : Nat) : ∃ w, Reach step (fun w o => w.Allowed o ∧ w.Unawaited o) (start n) w ∧
    w = ⟨(aged n).scanTimeout 30000, .idle⟩ := by
  have hstep : step ⟨aged n, .idle⟩ (.scanTimeout 30000) = .ok ⟨(aged n).scanTimeout 30000, .idle⟩ := rfl
  have hreach := reach_aged n (Q := Unawaited) trivial trivial
  exact ⟨_, hreach.step (o := KcpOp.scanTimeout 30000) ⟨trivial, trivial⟩ hstep, rfl⟩

theorem timeout_expired : ∃ w c, Reach step (fun w o => w.Allowed o ∧ w.Unawaited o) (start KCP_UDPCONN_SIZE) w ∧
    w.server.delQue = [5] ∧ w.server.mapConn[(5 : Int)]? = some c ∧ (w.server.conns c).bind = false := by
  obtain ⟨w, hreach, rfl⟩ := expired KCP_UDPCONN_SIZE
  obtain ⟨p, hconn, -, -, -, hque⟩ := aged_spec KCP_UDPCONN_SIZE
  rw [← (used_scanTimeout (aged KCP_UDPCONN_SIZE) 30000).mapConn] at hconn
  exact ⟨_, p, hreach, hque, hconn, (timeout_unbound_iff KCP_UDPCONN_SIZE hreach).1 5 [] p hque hconn⟩

theorem registry_reach {n : Nat} (h : Reach step Allowed (start n) w) : w.server.Registry :=
  h.invariant (I := fun w => w.server.Registry) (registry_withPool n) fun _ _ _ hw ho hs => registry_step hw ho hs

theorem bound_expired (n : Nat) : ∃ (s : KCPServer) (p : Nat), Reach step Allowed (start n) ⟨s, .idle⟩ ∧
    s.delQue = [5] ∧ s.mapConn[(5 : Int)]? = some p ∧ s.mapSessFd[(1 : Int)]? = some p ∧ (s.conns p).fd = 5 ∧
    (s.conns p).bind = true ∧ s.sessId = 1 := by
  obtain ⟨w, hreach, rfl⟩ := expired n
  obtain ⟨p, hconn, hsess, hfd, -, hque⟩ := aged_spec n
  set s := (aged n).scanTimeout 30000 with hs
  have hused := used_scanTimeout (aged n) 30000
  rw [← hused.mapConn] at hconn
  rw [← hused.mapSessFd] at hsess
  rw [← (hused.conns p).fd] at hfd
  have hbind : s.bindConn 1 = ({ s with conns := s.conns.set p (s.conns p).setBind }, some p) := by
    unfold bindConn rawGetConn
    rw [hsess]
  have hset : step ⟨s, .idle⟩ (.setSessid 0 1) = .ok ⟨{ s with conns := s.conns.set p (s.conns p).setBind }, .idle⟩ := by
    unfold step setSessid
    dsimp only
    rw [if_neg (by decide), hbind]
    rfl
  have hreach' := (hreach.mono (Q := Allowed) fun _ _ h => h.1).step (o := KcpOp.setSessid 0 1) trivial hset
  refine ⟨_, p, hreach', hque, hconn, hsess, ?_, ?_, hused.sessId.trans rfl⟩
  · dsimp only
    rw [Heap.set_self]
    exact hfd
  · dsimp only
    rw [Heap.set_self]
    rfl

theorem not_timeout_unbound : ∃ w, Reach step Allowed (start KCP_UDPCONN_SIZE) w ∧ ∃ fd delQue c,
    w.server.delQue = fd :: delQue ∧ w.server.mapConn[fd]? = some c ∧ (w.server.conns c).bind = true := by
  obtain ⟨s, p, hreach, hque, hconn, -, -, hbind, -⟩ := bound_expired KCP_UDPCONN_SIZE
  exact ⟨_, hreach, 5, [], p, hque, hconn, hbind⟩

/-! ## `closeConn` -/

/-- The session that the `closeConn` in progress is to close, and the descriptor that it would delete now. -/
def target (w : KcpThreads) : Option (Int × Int) :=
  match w.closing with
  | .idle => none
  | .found sessid pconn => some (sessid, (w.server.conns pconn).fd)
  | .del sessid fd => some (sessid, fd)

/-- Who is registered under that descriptor is that session. -/
def OnTarget (w : KcpThreads) : Prop :=
  ∀ sessid fd, w.target = some (sessid, fd) → ∀ c : Nat, w.server.mapConn[fd]? = some c → (w.server.conns c).id = sessid

/-- While a `closeConn` is in progress, a new session gets neither that descriptor nor the object that has been found,
or it gets the session's id. -/
def Undisturbed (w : KcpThreads) : KcpOp → Prop
  | .createConn clifd _ _ _ => ∀ sessid fd, w.target = some (sessid, fd) → int32 (w.server.sessId + 1) = sessid ∨
      clifd ≠ fd ∧ ∀ p, w.closing = .found sessid p → (pop w.server.conns w.server.pool .new).1 ≠ p
  | _ => True

/-- The object that has been found exists. -/
def FoundLt (w : KcpThreads) : Prop := ∀ sessid p, w.closing = .found sessid p → p < w.server.conns.next

theorem target_found {sessid fd : Int} {p : Nat} (h : w.closing = .found sessid p)
    (hfd : (w.server.conns p).fd = fd) : w.target = some (sessid, fd) := by
  unfold target
  rw [h, ← hfd]

theorem target_del {sessid fd : Int} (h : w.closing = .del sessid fd) : w.target = some (sessid, fd) := by
  unfold target
  rw [h]

theorem target_cases {sessid fd : Int} (h : w.target = some (sessid, fd)) :
    (∃ p, w.closing = .found sessid p ∧ (w.server.conns p).fd = fd) ∨ w.closing = .del sessid fd := by
  unfold target at h
  split at h
  · cases h
  · next sessid' p hclosing =>
    cases h
    exact .inl ⟨p, hclosing, rfl⟩
  · next sessid' fd' hclosing =>
    cases h
    exact .inr hclosing

/-- A new session is out of the way of the `closeConn` in progress, or it is not. -/
theorem onTarget_createConn (hs : w.server.Registry) (hlt : w.FoundLt) (hw : w.OnTarget) (clifd : Int) (buf : Bytes)
    (msgs : List Bytes) (ms : Nat) : OnTarget { w with server := w.server.createConn clifd buf msgs ms } ↔
      w.Undisturbed (.createConn clifd buf msgs ms) := by
  obtain ⟨q, c₀, hpop, hconn, -, hnew, hsame, hfresh, -⟩ := createConn_spec hs clifd buf msgs ms
  set t := w.server.createConn clifd buf msgs ms with ht
  have hself : t.mapConn[clifd]? = some q := by
    rw [hconn]
    exact insert_eq_some.mpr (.inl ⟨rfl, rfl⟩)
  have hnewId : (t.conns q).id = int32 (w.server.sessId + 1) := by
    rw [hnew]
    rfl
  constructor
  · intro h sessid fd htarget
    by_contra hnot
    rw [not_or, not_and_or, not_not, not_forall] at hnot
    obtain ⟨hid, hclash⟩ := hnot
    -- the call would delete the new session's descriptor
    suffices htarget' : target ⟨t, w.closing⟩ = some (sessid, clifd) by
      exact hid (hnewId.symm.trans (h sessid clifd htarget' q hself))
    rcases target_cases htarget with ⟨p, hfound, hfd⟩ | hdel
    · apply target_found (w := ⟨t, w.closing⟩) hfound
      dsimp only
      by_cases hp : p = q
      · rw [hp, hnew]
        rfl
      · rw [hsame p (hlt sessid p hfound) hp, hfd]
        rcases hclash with heq | ⟨p', hp'⟩
        · exact heq.symm
        · rw [Classical.not_imp, not_not, hpop] at hp'
          obtain ⟨hfound', rfl⟩ := hp'
          rw [hfound] at hfound'
          cases hfound'
          exact absurd rfl hp
    · apply target_del (w := ⟨t, w.closing⟩)
      dsimp only
      rcases hclash with heq | ⟨p', hp'⟩
      · rw [hdel, heq]
      · rw [Classical.not_imp, hdel] at hp'
        cases hp'.1
  · intro h sessid fd htarget c hc
    -- an old session is as before, and the new one is in the way only with the session's id
    have hcase : ∀ fd₀, w.target = some (sessid, fd₀) → fd = fd₀ →
        (t.conns c).id = sessid := by
      rintro fd₀ htarget₀ rfl
      dsimp only at hc
      rw [hconn] at hc
      rcases insert_eq_some.mp hc with ⟨heq, rfl⟩ | ⟨-, hc⟩
      · exact hnewId.trans ((h sessid fd htarget₀).resolve_right fun hne => hne.1 heq.symm)
      · rw [hsame c (hs.conn hc).2.2 (hfresh fd c hc)]
        exact hw sessid fd htarget₀ c hc
    rcases target_cases htarget with ⟨p, hfound, hfd⟩ | hdel
    · dsimp only at hfound hfd
      by_cases hp : p = q
      · subst hp
        have hid := (h sessid _ (target_found hfound rfl)).resolve_right fun hne => hne.2 p hfound hpop
        rw [hnew] at hfd
        dsimp only at hc
        rw [← hfd] at hc
        cases hself.symm.trans hc
        exact hnewId.trans hid
      · rw [hsame p (hlt sessid p hfound) hp] at hfd
        exact hcase _ (target_found hfound rfl) hfd.symm
    · exact hcase fd (target_del hdel) rfl

/-- A call in progress stays on its target while the registered sessions stay or go. -/
theorem onTarget_change {s : KCPServer} (hlt : w.FoundLt) (hw : w.OnTarget) (h : w.server.Change s) :
    FoundLt ⟨s, w.closing⟩ ∧ OnTarget ⟨s, w.closing⟩ := by
  refine ⟨fun sessid p hfound => ?_, fun sessid fd htarget c hc => ?_⟩
  · obtain ⟨-, -, hnext, -⟩ := h.fields p
    dsimp only
    rw [hnext]
    exact hlt sessid p hfound
  · have htarget₀ : w.target = some (sessid, fd) := by
      rcases target_cases htarget with ⟨p, hfound, hfd⟩ | hdel
      · obtain ⟨-, hsame, -⟩ := h.fields p
        exact target_found hfound (hsame.symm.trans hfd)
      · exact target_del hdel
    obtain ⟨hid, -, -, hsub, -⟩ := h.fields c
    exact hid.trans (hw sessid fd htarget₀ c (hsub fd hc))

theorem onTarget_idle (s : KCPServer) : FoundLt ⟨s, .idle⟩ ∧ OnTarget ⟨s, .idle⟩ := by
  constructor
  · intro _ _ hfound
    cases hfound
  · intro _ _ htarget
    cases htarget

/-- The invariant of the runs, and which sections keep it. -/
theorem onTarget_step (hs : w.server.Registry) (hlt : w.FoundLt) (hw : w.OnTarget) {o : KcpOp} (h : w.step o = .ok w') :
    w'.FoundLt ∧ (w'.OnTarget ↔ w.Undisturbed o) := by
  by_cases hcreate : ∃ clifd buf msgs ms, o = .createConn clifd buf msgs ms
  · obtain ⟨clifd, buf, msgs, ms, rfl⟩ := hcreate
    cases h
    refine ⟨fun sessid p hfound => ?_, onTarget_createConn hs hlt hw clifd buf msgs ms⟩
    obtain ⟨-, -, -, -, -, -, -, -, -, hle⟩ := createConn_spec hs clifd buf msgs ms
    exact lt_of_lt_of_le (hlt sessid p hfound) hle
  have hne : ∀ clifd buf msgs ms, o ≠ .createConn clifd buf msgs ms := fun clifd buf msgs ms heq =>
    hcreate ⟨clifd, buf, msgs, ms, heq⟩
  have hout : w.Undisturbed o := by
    cases o <;> first | trivial | exact absurd rfl (hne _ _ _ _)
  suffices hkeep : w'.FoundLt ∧ w'.OnTarget by
    exact ⟨hkeep.1, iff_of_true hkeep.2 hout⟩
  rcases step_cases hne h with ⟨hc, hclosing⟩ | rfl | ⟨sessid, p, hp, rfl⟩ | ⟨sessid, p, hclosing, rfl⟩ | ⟨_, fd, -, rfl⟩
  · have hkeep := onTarget_change hlt hw hc
    rwa [← hclosing] at hkeep
  · exact onTarget_idle _
  · obtain ⟨hid, hconn⟩ := hs.sess hp
    refine ⟨fun _ _ hfound => ?_, fun sessid' fd htarget c hc => ?_⟩
    · cases hfound
      exact (hs.conn hconn).2.2
    · cases htarget
      cases hconn.symm.trans hc
      exact hid
  · refine ⟨fun _ _ hfound => ?_, fun sessid' fd htarget c hc => ?_⟩
    · cases hfound
    · cases htarget
      exact hw sessid _ (target_found hclosing rfl) c hc
  · exact onTarget_idle _

/-- On its target, the second section removes the session to be closed and no other. -/
theorem closeDel_removes (hw : w.OnTarget) {o : KcpOp} (ho : o = .closeFd ∨ o = .closeDel)
    (h : w.step o = .ok w') {sessid fd : Int} (htarget : w.target = some (sessid, fd)) {sid : Int} (hne : sid ≠ sessid)
    {c : Nat} (hc : w.server.mapSessFd[sid]? = some c) : w'.server.mapSessFd[sid]? = some c := by
  rcases ho with rfl | rfl
  · rcases closeFd_cases h with rfl | ⟨_, _, -, rfl⟩
    · exact hc
    · exact hc
  · rcases closeDel_cases h with rfl | ⟨sessid', fd', hclosing, rfl⟩
    · exact hc
    · rw [target_del hclosing] at htarget
      cases htarget
      rcases w.server.delConn_eq fd with heq | ⟨p, hp, heq⟩
      · rw [heq]
        exact hc
      · rw [heq]
        apply erase_eq_some.mpr
        rw [hw sessid fd (target_del hclosing) p hp]
        exact ⟨hne, hc⟩

/-- **When `closeConn` closes its session only.** However the sections of the two threads are interleaved: while no new
session gets in the way of a `closeConn` in progress, that call removes no session but its own. There the next section
leaves it on its target exactly if it meets this condition too. -/
theorem closes_only_iff (n : Nat) (h : Reach step (fun w o => w.Allowed o ∧ w.Undisturbed o) (start n) w) :
    (∀ o w', o = .closeFd ∨ o = .closeDel → w.step o = .ok w' → ∀ sessid fd, w.target = some (sessid, fd) →
      ∀ (sid : Int) (c : Nat), sid ≠ sessid → w.server.mapSessFd[sid]? = some c →
        w'.server.mapSessFd[sid]? = some c) ∧
      ∀ o w', w.step o = .ok w' → (w'.OnTarget ↔ w.Undisturbed o) := by
  have hw : w.server.Registry ∧ w.FoundLt ∧ w.OnTarget := by
    apply h.invariant (I := fun w => w.server.Registry ∧ w.FoundLt ∧ w.OnTarget)
    · exact ⟨registry_withPool n, onTarget_idle _⟩
    · rintro w o w' ⟨hreg, hlt, hw⟩ ho hs
      obtain ⟨hlt', hiff⟩ := onTarget_step hreg hlt hw hs
      exact ⟨registry_step hreg ho.1 hs, hlt', hiff.mpr ho.2⟩
  obtain ⟨hreg, hlt, hw⟩ := hw
  refine ⟨fun o w' ho hs sessid fd htarget sid c hne hc => ?_, fun o w' hs => (onTarget_step hreg hlt hw hs).2⟩
  exact closeDel_removes hw ho hs htarget hne hc

theorem close_steps {s : KCPServer} {sessid fd : Int} {p : Nat} (hsess : s.mapSessFd[sessid]? = some p)
    (hfd : (s.conns p).fd = fd) : step ⟨s, .idle⟩ (.closeLookup sessid) = .ok ⟨s, .found sessid p⟩ ∧
      step ⟨s, .found sessid p⟩ .closeFd = .ok ⟨s, .del sessid fd⟩ := by
  constructor
  · unfold step rawGetConn
    dsimp only
    rw [hsess]
    rfl
  · unfold step
    dsimp only
    rw [hfd]
    rfl

/-- While session 1 is being closed, another client is accepted. -/
theorem closes_only_client : ∃ w w' c, Reach step (fun w o => w.Allowed o ∧ w.Undisturbed o) (start 2) w ∧
    w.target = some (1, 5) ∧ w.server.mapSessFd[(2 : Int)]? = some c ∧ w.step .closeDel = .ok w' ∧
    w'.server.mapSessFd[(1 : Int)]? = none ∧ w'.server.mapSessFd[(2 : Int)]? = some c := by
  have hlookup : step ⟨(withPool 2).createConn 5 [1, 0, 0, 0] [] 1000, .idle⟩ (.closeLookup 1) =
      .ok ⟨(withPool 2).createConn 5 [1, 0, 0, 0] [] 1000, .found 1 0⟩ := rfl
  have hclear : Undisturbed ⟨(withPool 2).createConn 5 [1, 0, 0, 0] [] 1000, .found 1 0⟩
      (.createConn 6 [2, 0, 0, 0] [] 1500) := by
    intro sessid fd htarget
    cases htarget
    refine .inr ⟨by decide, fun p hp => ?_⟩
    cases hp
    decide
  have hfree : Allowed ⟨(withPool 2).createConn 5 [1, 0, 0, 0] [] 1000, .found 1 0⟩
      (.createConn 6 [2, 0, 0, 0] [] 1500) := by
    unfold Allowed
    decide
  have hnew : (start 2).Allowed (.createConn 5 [1, 0, 0, 0] [] 1000) := by
    show (5 : Int) ∉ (∅ : Std.TreeMap Int Nat)
    exact Std.TreeMap.not_mem_emptyc
  have hcreate : (start 2).step (.createConn 5 [1, 0, 0, 0] [] 1000) =
      .ok ⟨(withPool 2).createConn 5 [1, 0, 0, 0] [] 1000, .idle⟩ := rfl
  have h₁ := Reach.refl.step (P := fun w o => Allowed w o ∧ Undisturbed w o) (o := KcpOp.createConn 5 _ _ _)
    ⟨hnew, fun _ _ h => nomatch h⟩ hcreate
  have h₂ := h₁.step (o := KcpOp.closeLookup 1) ⟨trivial, trivial⟩ hlookup
  have h₃ := h₂.step (o := KcpOp.createConn 6 [2, 0, 0, 0] [] 1500) ⟨hfree, hclear⟩ rfl
  have h₄ := h₃.step (o := KcpOp.closeFd) ⟨trivial, trivial⟩ rfl
  exact ⟨_, _, 1, h₄, rfl, rfl, rfl, rfl,
    (closes_only_iff 2 h₄).1 .closeDel _ (.inr rfl) rfl 1 5 rfl 2 1 (by decide) rfl⟩

theorem mapConn_delConn_self (s : KCPServer) (fd : Int) : fd ∉ (s.delConn fd).mapConn := by
  unfold delConn
  rw [mem_iff_exists]
  rintro ⟨q, hq⟩
  split at hq
  · next hnone => cases hnone.symm.trans hq
  · exact (erase_eq_some.mp hq).1 rfl

/-- The player of a session that waits for its deletion goes offline: `closeConn` has read the descriptor, the timeout
deletes the session, and a new client gets the descriptor. -/
theorem closes_other (n : Nat) : ∃ w w' c, Reach step Allowed (start n) w ∧ w.target = some (1, 5) ∧
    w.step .closeDel = .ok w' ∧ w.server.mapSessFd[(2 : Int)]? = some c ∧ w'.server.mapSessFd[(2 : Int)]? = none := by
  obtain ⟨s, p, hreach, hque, hconn, hsess, hfd, -, hid⟩ := bound_expired n
  obtain ⟨hlookup, hread⟩ := close_steps hsess hfd
  have hreach₁ := hreach.step (o := KcpOp.closeLookup 1) trivial hlookup
  have hreach₂ := hreach₁.step (o := KcpOp.closeFd) trivial hread
  have hreach₃ := hreach₂.step (o := KcpOp.delTimeout) (t := ⟨s.delTimeout, .del 1 5⟩) trivial rfl
  have hnone : 5 ∉ s.delTimeout.mapConn := by
    unfold delTimeout
    rw [hque]
    exact mapConn_delConn_self s 5
  have hreach₄ := hreach₃.step (o := KcpOp.createConn 5 [2, 0, 0, 0] [] 30001)
    (t := ⟨s.delTimeout.createConn 5 [2, 0, 0, 0] [] 30001, .del 1 5⟩) hnone rfl
  obtain ⟨q, c₀, -, hconn', hsess', hnew, -⟩ := createConn_spec (registry_reach hreach₃) 5 [2, 0, 0, 0] [] 30001
  dsimp only at hconn' hsess' hnew
  have hint : int32 (s.delTimeout.sessId + 1) = 2 := by
    rw [(change_delTimeout s).sessId, hid]
    rfl
  rw [hint] at hsess' hnew
  set t := s.delTimeout.createConn 5 [2, 0, 0, 0] [] 30001 with ht
  refine ⟨_, ⟨t.delConn 5, .idle⟩, q, hreach₄, rfl, rfl, ?_, ?_⟩
  · dsimp only
    rw [hsess']
    exact insert_eq_some.mpr (.inl ⟨rfl, rfl⟩)
  · have hq : t.mapConn[(5 : Int)]? = some q := by
      rw [hconn']
      exact insert_eq_some.mpr (.inl ⟨rfl, rfl⟩)
    have heq : t.delConn 5 = t.release 5 q := by
      unfold delConn
      rw [hq]
    have hqid : (t.conns q).id = 2 := by
      rw [hnew]
      rfl
    dsimp only
    rw [heq, Option.eq_none_iff_forall_ne_some]
    intro c hc
    exact (erase_eq_some.mp hc).1 hqid.symm

theorem not_closes_only : ∃ w w' c, Reach step Allowed (start KCP_UDPCONN_SIZE) w ∧ w.target = some (1, 5) ∧
    w.step .closeDel = .ok w' ∧ w.server.mapSessFd[(2 : Int)]? = some c ∧ w'.server.mapSessFd[(2 : Int)]? = none :=
  closes_other KCP_UDPCONN_SIZE

end KcpThreads

end KcpServer
