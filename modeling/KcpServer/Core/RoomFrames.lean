import KcpServer.Core.Room

/-!
# The frames of the rooms

`FramePool.Owned` at the places of all rooms: `m_pt2001`, and the entries of `m_allOperMap`. Every method of `roomObj`
keeps it, and leaves what the places of other rooms hold as it was (`Keeps`).
-/

namespace KcpServer
open Lib FramePool

/-- The places of a room: `none` is `m_pt2001`, `some k` is the entry `k` of `m_allOperMap`. -/
def Room.slot (r : Room) : Option Int → Option Nat
  | none => r.pt2001
  | some k => r.allOperMap[k]?

theorem Room.slot_record {r : Room} {f f' g : Nat} {k : Option Int} : (r.record f f').slot k = some g ↔
    (k = none ∧ g = f') ∨ (k = some r.frameId ∧ g = f) ∨ (k ≠ none ∧ k ≠ some r.frameId ∧ r.slot k = some g) := by
  cases k with
  | none => simp [slot, record, eq_comm]
  | some k =>
    change (r.allOperMap.insert r.frameId f)[k]? = some g ↔ _
    rw [insert_eq_some]
    simp [slot]

namespace RoomMgr

/-- Which place of which room holds which frame. -/
def Holds (m : RoomMgr) (x : Nat × Option Int) (f : Nat) : Prop := (m.rooms x.1).slot x.2 = some f

/-- Every frame is in one place or queued, every command in one frame or queued. -/
def Owned (m : RoomMgr) : Prop := m.msgs.Owned m.Holds

/-- The frames in the places `P` are still there, as they were. -/
def Keeps (P : Nat × Option Int → Prop) (m m' : RoomMgr) : Prop :=
  ∀ x f, P x → m.Holds x f → m'.Holds x f ∧ Kept m.msgs m'.msgs f

def pending (m : RoomMgr) (r : Nat) : List Cmd := (m.rooms r).pt2001.elim [] m.msgs.content

variable {m m' m'' : RoomMgr} {r : Nat} {P Q : Nat × Option Int → Prop}

theorem Keeps.refl (P : Nat × Option Int → Prop) (m : RoomMgr) : Keeps P m m := fun _ _ _ hx => ⟨hx, .refl _ _⟩

theorem Keeps.trans (h : Keeps P m m') (h' : Keeps P m' m'') : Keeps P m m'' := by
  intro x f hP hx
  obtain ⟨hx', hkept⟩ := h x f hP hx
  obtain ⟨hx'', hkept'⟩ := h' x f hP hx'
  exact ⟨hx'', hkept.trans hkept'⟩

theorem Keeps.mono (h : Keeps P m m') (hQ : ∀ x, Q x → P x) : Keeps Q m m' := fun x f hx => h x f (hQ x hx)

theorem holds_modify {f : Room → Room} (hf : (f (m.rooms r)).slot = (m.rooms r).slot) :
    (m.modify r f).Holds = m.Holds := by
  funext x g
  unfold Holds
  by_cases hx : x.1 = r
  · rw [hx, modify_self, hf]
  · rw [modify_of_ne m hx]

theorem Owned.modify (h : m.Owned) {f : Room → Room} (hf : (f (m.rooms r)).slot = (m.rooms r).slot) :
    (m.modify r f).Owned := by
  unfold Owned
  rw [holds_modify hf]
  exact h

theorem keeps_modify {f : Room → Room} (hf : (f (m.rooms r)).slot = (m.rooms r).slot) : Keeps P m (m.modify r f) := by
  intro x g _ hx
  rw [holds_modify hf]
  exact ⟨hx, .refl _ _⟩

/-! ## Commands -/

theorem Owned.fetchPending (h : m.Owned) {f : Nat} (heq : m.fetchPending r = (f, m')) :
    m'.Owned ∧ Keeps (fun _ => True) m m' ∧ m'.rooms r = { m.rooms r with pt2001 := some f } ∧
      (∀ q ≠ r, m'.rooms q = m.rooms q) ∧ m'.msgs.content f = m.pending r ∧ m'.msgs.cmds = m.msgs.cmds ∧
      ∀ c, LooseCmd m.msgs c → LooseCmd m'.msgs c := by
  unfold RoomMgr.fetchPending at heq
  unfold pending
  cases hpt : (m.rooms r).pt2001 with
  | some g =>
    rw [hpt] at heq
    cases heq
    refine ⟨h, .refl _ _, ?_, fun _ _ => rfl, rfl, rfl, fun _ hc => hc⟩
    rw [← hpt]
  | none =>
    obtain ⟨g, msgs, hfetch⟩ : ∃ g msgs, m.msgs.fetchPt2001 = (g, msgs) := ⟨_, _, rfl⟩
    obtain ⟨hown, hloose, hkept, hcmd⟩ := FramePool.Owned.fetchPt2001 h hfetch
    obtain ⟨hcmds, -, hclear⟩ := fetchPt2001_eq hfetch
    rw [hpt] at heq
    simp only [hfetch] at heq
    cases heq
    have hslot : ∀ x g, ({ m with msgs }.modify r ({ · with pt2001 := some f })).Holds x g →
        m.Holds x g ∨ (x = (r, none) ∧ g = f) := by
      rintro ⟨q, k⟩ g hx
      unfold Holds at hx ⊢
      by_cases hq : q = r
      · subst hq
        rw [modify_self] at hx
        cases k with
        | none => exact Or.inr ⟨rfl, (Option.some.inj hx).symm⟩
        | some k => exact Or.inl hx
      · rw [modify_of_ne _ hq] at hx
        exact Or.inl hx
    refine ⟨hown.put hloose _ hslot, fun x g _ hx => ⟨?_, hkept g (h.held hx).1 (h.held hx).2⟩, modify_self ..,
      fun q hq => modify_of_ne _ hq _, ?_, hcmds, hcmd⟩
    · obtain ⟨q, k⟩ := x
      unfold Holds at hx ⊢
      by_cases hq : q = r
      · subst hq
        rw [modify_self]
        cases k with
        | none => cases hpt.symm.trans hx
        | some k => exact hx
      · rw [modify_of_ne _ hq]
        exact hx
    · change msgs.content f = []
      rw [content, hclear]
      rfl

theorem Owned.pushCmd (h : m.Owned) (cmd : Cmd) : (m.pushCmd r cmd).Owned ∧
    Keeps (· ≠ (r, none)) m (m.pushCmd r cmd) ∧
    (∃ f, (m.pushCmd r cmd).rooms r = { m.rooms r with pt2001 := some f }) ∧
    (∀ q ≠ r, (m.pushCmd r cmd).rooms q = m.rooms q) ∧
    (m.pushCmd r cmd).pending r = m.pending r ++ [cmd] := by
  obtain ⟨c, msgs, hfetch⟩ : ∃ c msgs, m.msgs.fetchPt = (c, msgs) := ⟨_, _, rfl⟩
  obtain ⟨hown, hc, hkept⟩ := FramePool.Owned.fetchPt h hfetch
  obtain ⟨hframes, hpool, -⟩ := fetchPt_eq hfetch
  obtain ⟨hown, hc, hkept'⟩ := hown.setCmd hc cmd
  -- the manager with the command filled in
  set m₁ : RoomMgr := { m with msgs := msgs.setCmd c cmd } with hm₁
  have hkept₁ : Keeps (fun _ => True) m m₁ := by
    intro x g _ hx
    have hlt := (h.held hx).1
    exact ⟨hx, (hkept g hlt).trans (hkept' g (hframes ▸ hlt))⟩
  have hpending : m₁.pending r = m.pending r := by
    unfold pending
    cases hpt : (m.rooms r).pt2001 with
    | none => simp [hm₁]
    | some f => simpa [hm₁, hpt] using (hkept₁ (r, none) f trivial hpt).2.content
  obtain ⟨f, m₂, hpend⟩ : ∃ f m₂, m₁.fetchPending r = (f, m₂) := ⟨_, _, rfl⟩
  obtain ⟨hown₂, hkept₂, hself, hother, hcontent, hcmds, hloose⟩ := Owned.fetchPending (m := m₁) hown hpend
  have hholds : m₂.Holds (r, none) f := by
    unfold Holds
    rw [hself]
    rfl
  obtain ⟨hown₃, hkept₃⟩ := FramePool.Owned.addAllocated hown₂ (hloose c hc) (hown₂.held hholds).2
  have heq : m.pushCmd r cmd = { m₂ with msgs := m₂.msgs.addAllocated f c } := by
    simp only [RoomMgr.pushCmd, hfetch, ← hm₁, hpend]
  rw [heq]
  refine ⟨hown₃, fun x g hne hx => ?_, ⟨f, hself⟩, hother, ?_⟩
  · obtain ⟨hx', hk⟩ := (hkept₁.trans hkept₂) x g trivial hx
    refine ⟨hx', hk.trans (hkept₃ g ?_)⟩
    rintro rfl
    exact hne (hown₂.inj hx' hholds)
  · unfold pending
    dsimp only
    rw [hself]
    change (m₂.msgs.addAllocated f c).content f = _
    rw [content_addAllocated, hcontent, hpending, hcmds]
    simp [hm₁, FramePool.setCmd, pending]

/-! ## The frame clock -/

/-- A frame moves from `m_pt2001` to the record, under the frame id, and another one is pending. -/
theorem holds_record {f f' g : Nat} {x : Nat × Option Int} : (m.modify r (·.record f f')).Holds x g ↔
    (x = (r, none) ∧ g = f') ∨ (x = (r, some (m.rooms r).frameId) ∧ g = f) ∨
      (x ≠ (r, none) ∧ x ≠ (r, some (m.rooms r).frameId) ∧ m.Holds x g) := by
  obtain ⟨q, k⟩ := x
  unfold Holds
  by_cases hq : q = r
  · subst hq
    rw [modify_self, Room.slot_record]
    simp
  · rw [modify_of_ne _ hq]
    simp [hq]

theorem Owned.record {f f' : Nat} {s : FramePool} (h : s.Owned m.Holds) (hf : m.Holds (r, none) f)
    (hloose : Loose s m.Holds f') : Owned ({ m with msgs := s }.modify r (·.record f f')) := by
  set M := { m with msgs := s }.modify r (·.record f f')
  have hmoved : ∀ x g, x ≠ (r, none) → M.Holds x g →
      m.Holds (Equiv.swap (r, none) (r, some (m.rooms r).frameId) x) g := by
    intro x g hne hx
    rcases holds_record.mp hx with ⟨rfl, -⟩ | ⟨rfl, rfl⟩ | ⟨-, hne', hx⟩
    · exact absurd rfl hne
    · rw [Equiv.swap_apply_right]
      exact hf
    · rw [Equiv.swap_apply_of_ne_of_ne hne hne']
      exact hx
  have hown : s.Owned fun x g => x ≠ (r, none) ∧ M.Holds x g :=
    h.mono _ (Equiv.injective _) fun x g hx => hmoved x g hx.1 hx.2
  have hloose' : Loose s (fun x g => x ≠ (r, none) ∧ M.Holds x g) f' :=
    ⟨hloose.lt, hloose.queued, fun x hx => hloose.held _ (hmoved x f' hx.1 hx.2)⟩
  refine hown.put hloose' (r, none) fun x g hx => ?_
  rcases holds_record.mp hx with ⟨rfl, rfl⟩ | ⟨rfl, -⟩ | ⟨hne, -, -⟩
  · exact Or.inr ⟨rfl, rfl⟩
  · exact Or.inl ⟨by simp, hx⟩
  · exact Or.inl ⟨hne, hx⟩

/-- One frame: the pending commands are recorded under the room's frame id and broadcast, in this order, and a new frame
is pending. -/
theorem Owned.emitFrame (h : m.Owned) {out : Out} (heq : m.emitFrame r = .ok (m', out)) :
    m'.Owned ∧ Keeps (fun x => x ≠ (r, none) ∧ x ≠ (r, some (m.rooms r).frameId)) m m' ∧
      (∀ q ≠ r, m'.rooms q = m.rooms q) ∧ (m.rooms r).frameId ≠ 2 ^ 31 - 1 ∧ m'.pending r = [] ∧
      out = .frame r (m.rooms r).pidConn.values (uint32 (m.rooms r).frameId, m.pending r) ∧
      ∃ f f', m'.rooms r = (m.rooms r).record f f' ∧
        m'.msgs.frameData f = (uint32 (m.rooms r).frameId, m.pending r) := by
  obtain ⟨f, m₁, hpend⟩ : ∃ f m₁, m.fetchPending r = (f, m₁) := ⟨_, _, rfl⟩
  obtain ⟨hown₁, hkept₁, hself, hother, hcontent, -, -⟩ := h.fetchPending hpend
  have hholds : m₁.Holds (r, none) f := by
    unfold Holds
    rw [hself]
    rfl
  have hfid : (m₁.rooms r).frameId = (m.rooms r).frameId := by rw [hself]
  have hconns : (m₁.rooms r).pidConn = (m.rooms r).pidConn := by rw [hself]
  obtain ⟨hown₂, hkept₂⟩ := FramePool.Owned.setFrameid hown₁ f (uint32 (m.rooms r).frameId)
  set s₂ := m₁.msgs.setFrameid f (uint32 (m.rooms r).frameId) with hs₂
  obtain ⟨f', s₃, hfetch⟩ : ∃ f' s₃, s₂.fetchPt2001 = (f', s₃) := ⟨_, _, rfl⟩
  obtain ⟨hown₃, hloose, hkept₃, -⟩ := hown₂.fetchPt2001 hfetch
  obtain ⟨-, -, hclear⟩ := fetchPt2001_eq hfetch
  have hheld : ∀ {x g}, m₁.Holds x g → Kept s₂ s₃ g := fun hx => hkept₃ _ (hown₂.held hx).1 (hown₂.held hx).2
  have hdata : s₂.frameData f = (uint32 (m.rooms r).frameId, m.pending r) := by
    rw [frameData, hs₂, content_setFrameid, hcontent]
    simp [FramePool.setFrameid]
  simp only [RoomMgr.emitFrame, hpend, hfid, hconns, ← hs₂, hfetch, hdata] at heq
  split at heq
  · cases heq
  · next hmax =>
    cases heq
    have hroom : ({ m₁ with msgs := s₃ }.modify r (·.record f f')).rooms r = (m.rooms r).record f f' := by
      rw [modify_self]
      change (m₁.rooms r).record f f' = _
      rw [hself]
      rfl
    refine ⟨Owned.record hown₃ hholds hloose, ?_, fun q hq => (modify_of_ne _ hq _).trans (hother q hq), hmax, ?_, rfl,
      f, f', hroom, ?_⟩
    · rintro x g ⟨hne, hne'⟩ hx
      obtain ⟨hx₁, hk₁⟩ := hkept₁ x g trivial hx
      have hgf : g ≠ f := by
        rintro rfl
        exact hne (hown₁.inj hx₁ hholds)
      refine ⟨holds_record.mpr (Or.inr (Or.inr ⟨hne, ?_, hx₁⟩)), (hk₁.trans (hkept₂ g hgf)).trans (hheld hx₁)⟩
      show x ≠ (r, some (m₁.rooms r).frameId)
      rw [hfid]
      exact hne'
    · unfold pending
      rw [hroom]
      change s₃.content f' = []
      rw [content, hclear]
      rfl
    · change s₃.frameData f = _
      rw [(hheld hholds).frameData, hdata]

/-- An iteration fails only where the frame id would leave `int`. -/
theorem Owned.emitFrame_ok (h : m.Owned) (hmax : (m.rooms r).frameId ≠ 2 ^ 31 - 1) :
    ∃ m' out, m.emitFrame r = .ok (m', out) := by
  obtain ⟨f, m₁, hpend⟩ : ∃ f m₁, m.fetchPending r = (f, m₁) := ⟨_, _, rfl⟩
  obtain ⟨-, -, hself, -⟩ := h.fetchPending hpend
  have hfid : (m₁.rooms r).frameId = (m.rooms r).frameId := by rw [hself]
  simp only [RoomMgr.emitFrame, hpend, hfid, if_neg hmax]
  exact ⟨_, _, rfl⟩

/-- **The clock emits a frame for every full tick.** -/
theorem Owned.emitFrames_ok (accMs : Nat) (h : m.Owned) (htick : 0 < (m.rooms r).frameTick)
    (hmax : (m.rooms r).frameId + (accMs / (m.rooms r).frameTick : Nat) < 2 ^ 31) :
    ∃ m' outs, m.emitFrames r accMs = .ok (m', accMs % (m.rooms r).frameTick, outs) ∧
      outs.length = accMs / (m.rooms r).frameTick ∧
      (m'.rooms r).frameId = (m.rooms r).frameId + (accMs / (m.rooms r).frameTick : Nat) ∧
      (m'.rooms r).endFrameId = (m.rooms r).endFrameId ∧ (m'.rooms r).frameTick = (m.rooms r).frameTick := by
  induction accMs using Nat.strong_induction_on generalizing m with
  | _ accMs ih =>
    rw [emitFrames]
    split
    · next hlt =>
      rw [Nat.div_eq_of_lt hlt, Nat.mod_eq_of_lt hlt]
      exact ⟨m, [], rfl, rfl, by simp, rfl, rfl⟩
    · next hge =>
      have hle : (m.rooms r).frameTick ≤ accMs := Nat.le_of_not_lt hge
      obtain ⟨n, hn⟩ : ∃ n, (accMs - (m.rooms r).frameTick) / (m.rooms r).frameTick = n := ⟨_, rfl⟩
      have hdiv : accMs / (m.rooms r).frameTick = n + 1 := by rw [Nat.div_eq_sub_div htick hle, hn]
      rw [hdiv] at hmax ⊢
      rw [if_neg htick.ne']
      obtain ⟨m₁, out, hemit⟩ := h.emitFrame_ok (r := r) (by omega)
      obtain ⟨hown, -, -, -, -, -, f, f', hroom, -⟩ := h.emitFrame hemit
      have hfid : (m₁.rooms r).frameId = (m.rooms r).frameId + 1 := by rw [hroom]; rfl
      have htick₁ : (m₁.rooms r).frameTick = (m.rooms r).frameTick := by rw [hroom]; rfl
      have hend₁ : (m₁.rooms r).endFrameId = (m.rooms r).endFrameId := by rw [hroom]; rfl
      obtain ⟨m₂, outs, heq, hlen, hfid₂, hend₂, htick₂⟩ :=
        ih (accMs - (m.rooms r).frameTick) (by omega) hown (by omega) (by rw [htick₁, hfid, hn]; omega)
      rw [htick₁] at heq
      rw [htick₁, hn] at hlen hfid₂
      rw [hemit]
      dsimp only
      rw [heq]
      refine ⟨m₂, out :: outs, ?_, by rw [List.length_cons, hlen], by rw [hfid₂, hfid]; omega, hend₂.trans hend₁,
        htick₂.trans htick₁⟩
      rw [Nat.mod_eq_sub_mod hle]

/-! ## The other methods -/

theorem Owned.of_holds (h : m.Owned) (hmsgs : m'.msgs = m.msgs) (hsub : ∀ x f, m'.Holds x f → m.Holds x f) :
    m'.Owned := by
  unfold Owned
  rw [hmsgs]
  exact FramePool.Owned.mono h id Function.injective_id hsub

theorem Owned.init (h : m.Owned) (roomid : Int) : (m.modify r (·.init roomid)).Owned := by
  refine h.of_holds rfl fun x f hx => ?_
  obtain ⟨q, k⟩ := x
  unfold Holds at hx ⊢
  by_cases hq : q = r
  · subst hq
    rw [modify_self] at hx
    cases k with
    | none => cases hx
    | some k => cases Std.TreeMap.getElem?_emptyc.symm.trans hx
  · rwa [modify_of_ne _ hq] at hx

/-- The copies that `GetFramesData` recycles are its own. -/
theorem Owned.getFramesData (h : m.Owned) (pb : Pb) (players : Heap Player) (kcp : KCPServer) (p : Nat) (body : Bytes) :
    (m.getFramesData pb players kcp r p body).1.Owned ∧
      Keeps (fun _ => True) m (m.getFramesData pb players kcp r p body).1 ∧
      (m.getFramesData pb players kcp r p body).1.rooms = m.rooms := by
  obtain ⟨copies, msgs, hcopy⟩ : ∃ copies msgs,
    copyFrames (m.foundFrames r (pb.frameids2002 body)) m.msgs = (copies, msgs) := ⟨_, _, rfl⟩
  obtain ⟨hown, hkept⟩ := FramePool.Owned.copyRecycle h hcopy
  simp only [RoomMgr.getFramesData, hcopy]
  exact ⟨hown, fun x f _ hx => ⟨hx, hkept f (h.held hx).1⟩, trivial⟩

/-- `Finnal` recycles the recorded frames of its room. -/
theorem Owned.finnal (h : m.Owned) : (m.finnal r).1.Owned ∧ Keeps (·.1 ≠ r) m (m.finnal r).1 ∧
    ∀ q ≠ r, (m.finnal r).1.rooms q = m.rooms q := by
  set fs := (m.rooms r).allOperMap.toList.map Prod.snd with hfs
  set M : RoomMgr := (m.finnal r).1 with hM
  have hrooms : ∀ q ≠ r, M.rooms q = m.rooms q := fun q hq => modify_of_ne _ hq _
  have hroom : M.rooms r = { m.rooms r with allOperMap := ∅ } := modify_self ..
  have hmsgs : M.msgs = fs.foldl FramePool.recyclePt2001 m.msgs := rfl
  have hmem : ∀ f ∈ fs, ∃ k, m.Holds (r, some k) f := by
    intro f hf
    obtain ⟨⟨k, g⟩, hkg, rfl⟩ := List.mem_map.mp hf
    exact ⟨k, Std.TreeMap.mem_toList_iff_getElem?_eq_some.mp hkg⟩
  have hsub : ∀ x f, M.Holds x f → m.Holds x f ∧ ∀ k, x ≠ (r, some k) := by
    rintro ⟨q, k⟩ f hx
    unfold Holds at hx ⊢
    by_cases hq : q = r
    · subst hq
      rw [hroom] at hx
      cases k with
      | none => exact ⟨hx, by simp⟩
      | some k => cases Std.TreeMap.getElem?_emptyc.symm.trans hx
    · rw [hrooms q hq] at hx
      exact ⟨hx, by simp [hq]⟩
  have hown : m.msgs.Owned M.Holds := FramePool.Owned.mono h id Function.injective_id fun x f hx => (hsub x f hx).1
  have hloose : ∀ f ∈ fs, Loose m.msgs M.Holds f := by
    intro f hf
    obtain ⟨k, hk⟩ := hmem f hf
    refine ⟨(h.held hk).1, (h.held hk).2, fun x hx => ?_⟩
    exact (hsub x f hx).2 k (h.inj (hsub x f hx).1 hk)
  have hnodup : fs.Nodup := by
    refine List.Nodup.map_on ?_ (nodup_toList _)
    rintro ⟨k, f⟩ hk ⟨k', f'⟩ hk' rfl
    have := h.inj (x := (r, some k)) (y := (r, some k')) (f := f)
      (Std.TreeMap.mem_toList_iff_getElem?_eq_some.mp hk) (Std.TreeMap.mem_toList_iff_getElem?_eq_some.mp hk')
    simpa using this
  obtain ⟨hown', hkept⟩ := hown.recycleAll hnodup hloose
  refine ⟨?_, ?_, hrooms⟩
  · unfold Owned
    rw [hmsgs]
    exact hown'
  · rintro ⟨q, k⟩ f hq hx
    refine ⟨?_, ?_⟩
    · unfold Holds at hx ⊢
      rw [hrooms q hq]
      exact hx
    · rw [hmsgs]
      refine hkept f (fun hf => ?_) (h.held hx).1
      obtain ⟨k', hk'⟩ := hmem f hf
      exact hq (congrArg Prod.fst (h.inj hx hk'))

end RoomMgr

end KcpServer
