import KcpServer.Lib.Cxx
import KcpServer.Lib.Heap

/-!
# The message pools of `roomMgr`

Command and frame messages are reused through two queues that all rooms share. A frame holds its commands by pointer, a
room holds frames by pointer, and nothing in the code says who owns what. `Owned` does: against a relation `holds` that
says which places hold which frames, every frame is held in one place or queued, and every command is in one frame's
list, once, or queued. `Kept` is what an operation leaves of a frame that somebody else holds.
-/

namespace KcpServer
open Lib

/-- `C2SFrameCommand_2000` -/
structure Cmd where
  data : Nat
  frameidx : Nat
  deriving DecidableEq

/-- `C2SFrameCommand_2000::Clear` -/
def Cmd.clear : Cmd := ⟨0, 0⟩

/-- `S2CServerFrameUpdate_2001`; `cmdlist` holds pointers. -/
structure FrameUpdate where
  frameid : Nat
  cmdlist : List Nat

/-- `S2CServerFrameUpdate_2001::Clear` on a frame without commands. -/
def FrameUpdate.clear : FrameUpdate := ⟨0, []⟩

/-- `m_pool` and `m_pool2001` of `roomMgr`, with the messages. -/
structure FramePool where
  cmds : Heap Cmd
  frames : Heap FrameUpdate
  pool : List Nat
  pool2001 : List Nat

namespace FramePool

/-- `roomMgr::initObjPool` with `n` messages of each class. -/
def withPool (n : Nat) : FramePool := ⟨.replicate n .clear, .replicate n .clear, List.range n, List.range n⟩

/-- `roomMgr::fetchPt` -/
def fetchPt (s : FramePool) : Nat × FramePool :=
  let (c, cmds, pool) := pop s.cmds s.pool .clear
  (c, { s with cmds := cmds.set c .clear, pool })

/-- `roomMgr::fetchPt2001` -/
def fetchPt2001 (s : FramePool) : Nat × FramePool :=
  let (f, frames, pool2001) := pop s.frames s.pool2001 .clear
  (f, { s with frames := frames.set f .clear, pool2001 })

/-- `roomMgr::recyclePt` -/
def recyclePt (s : FramePool) (c : Nat) : FramePool := { s with pool := s.pool ++ [c] }

/-- `roomMgr::recyclePt2001`: `Clear` clears the commands as well, and `ReleaseCleared` returns the last one first. -/
def recyclePt2001 (s : FramePool) (f : Nat) : FramePool :=
  let cmdlist := (s.frames f).cmdlist
  let s := { s with
    cmds := s.cmds.fill cmdlist .clear
    frames := s.frames.set f { s.frames f with cmdlist := [] } }
  let s := cmdlist.reverse.foldl recyclePt s
  { s with pool2001 := s.pool2001 ++ [f] }

def setCmd (s : FramePool) (c : Nat) (cmd : Cmd) : FramePool := { s with cmds := s.cmds.set c cmd }

def setFrameid (s : FramePool) (f frameid : Nat) : FramePool :=
  { s with frames := s.frames.set f { s.frames f with frameid } }

/-- `mutable_cmdlist()->AddAllocated` -/
def addAllocated (s : FramePool) (f c : Nat) : FramePool :=
  { s with frames := s.frames.set f { s.frames f with cmdlist := (s.frames f).cmdlist ++ [c] } }

def copyCmds : List Nat → Heap Cmd → List Nat × Heap Cmd
  | [], h => ([], h)
  | c :: cs, h =>
    let (c', h) := h.alloc (h c)
    let (cs', h) := copyCmds cs h
    (c' :: cs', h)

/-- A new frame with the value of another one, for a copy of a message that contains it. -/
def copyFrame (s : FramePool) (f : Nat) : Nat × FramePool :=
  let (cmdlist, cmds) := copyCmds (s.frames f).cmdlist s.cmds
  let (f', frames) := s.frames.alloc { s.frames f with cmdlist }
  (f', { s with cmds, frames })

def copyFrames : List Nat → FramePool → List Nat × FramePool
  | [], s => ([], s)
  | f :: fs, s =>
    let (f', s) := s.copyFrame f
    let (fs', s) := copyFrames fs s
    (f' :: fs', s)

def content (s : FramePool) (f : Nat) : List Cmd := (s.frames f).cmdlist.map s.cmds

/-- A frame as it is serialised. -/
def frameData (s : FramePool) (f : Nat) : Nat × List Cmd := ((s.frames f).frameid, s.content f)

/-! ## Ownership -/

/-- Who owns what: `holds x f` says that place `x` holds frame `f`. -/
structure Owned {σ : Type*} (s : FramePool) (holds : σ → Nat → Prop) : Prop where
  free : FreeList s.cmds s.pool
  free2001 : FreeList s.frames s.pool2001
  clear : ∀ f ∈ s.pool2001, (s.frames f).cmdlist = []
  held : ∀ {x f}, holds x f → f < s.frames.next ∧ f ∉ s.pool2001
  inj : ∀ {x y f}, holds x f → holds y f → x = y
  nodup : ∀ {f}, f < s.frames.next → (s.frames f).cmdlist.Nodup
  cmd : ∀ {f c}, f < s.frames.next → c ∈ (s.frames f).cmdlist → c < s.cmds.next ∧ c ∉ s.pool
  cmdInj : ∀ {f f' c}, f < s.frames.next → f' < s.frames.next → c ∈ (s.frames f).cmdlist → c ∈ (s.frames f').cmdlist →
    f = f'

/-- A frame that has been taken out of its queue, or out of its place, and is nowhere else yet. -/
structure Loose {σ : Type*} (s : FramePool) (holds : σ → Nat → Prop) (f : Nat) : Prop where
  lt : f < s.frames.next
  queued : f ∉ s.pool2001
  held : ∀ x, ¬ holds x f

/-- A command that is nowhere. -/
structure LooseCmd (s : FramePool) (c : Nat) : Prop where
  lt : c < s.cmds.next
  queued : c ∉ s.pool
  listed : ∀ f < s.frames.next, c ∉ (s.frames f).cmdlist

structure Kept (s t : FramePool) (f : Nat) : Prop where
  frame : t.frames f = s.frames f
  cmds : ∀ c ∈ (s.frames f).cmdlist, t.cmds c = s.cmds c

theorem Kept.refl (s : FramePool) (f : Nat) : Kept s s f := ⟨rfl, fun _ _ => rfl⟩

theorem Kept.trans {s t u : FramePool} {f : Nat} (h : Kept s t f) (h' : Kept t u f) : Kept s u f := by
  refine ⟨h'.frame.trans h.frame, fun c hc => ?_⟩
  rw [h'.cmds c (h.frame ▸ hc), h.cmds c hc]

theorem Kept.content {s t : FramePool} {f : Nat} (h : Kept s t f) : t.content f = s.content f := by
  unfold FramePool.content
  rw [h.frame]
  exact List.map_congr_left h.cmds

theorem Kept.frameData {s t : FramePool} {f : Nat} (h : Kept s t f) : t.frameData f = s.frameData f := by
  unfold FramePool.frameData
  rw [h.content, h.frame]

section Owned
variable {σ : Type*} {s : FramePool} {holds : σ → Nat → Prop}

theorem owned_withPool (n : Nat) {holds : σ → Nat → Prop} (h : ∀ x f, ¬ holds x f) : Owned (withPool n) holds where
  free := FreeList.range n _
  free2001 := FreeList.range n _
  clear _ _ := rfl
  held hx := absurd hx (h _ _)
  inj hx := absurd hx (h _ _)
  nodup _ := List.nodup_nil
  cmd _ hc := absurd hc List.not_mem_nil
  cmdInj _ _ hc := absurd hc List.not_mem_nil

theorem Owned.mono (h : Owned s holds) {τ : Type*} {holds' : τ → Nat → Prop} (e : τ → σ) (he : Function.Injective e)
    (hsub : ∀ x f, holds' x f → holds (e x) f) : Owned s holds' where
  free := h.free
  free2001 := h.free2001
  clear := h.clear
  held hx := h.held (hsub _ _ hx)
  inj hx hy := he (h.inj (hsub _ _ hx) (hsub _ _ hy))
  nodup := h.nodup
  cmd := h.cmd
  cmdInj := h.cmdInj

theorem Owned.put (h : Owned s holds) {f : Nat} (hf : Loose s holds f) (x₀ : σ) {holds' : σ → Nat → Prop}
    (hsub : ∀ x g, holds' x g → holds x g ∨ (x = x₀ ∧ g = f)) : Owned s holds' where
  free := h.free
  free2001 := h.free2001
  clear := h.clear
  held hx := by
    rcases hsub _ _ hx with hx | ⟨-, rfl⟩
    · exact h.held hx
    · exact ⟨hf.lt, hf.queued⟩
  inj hx hy := by
    rcases hsub _ _ hx with hx | ⟨rfl, rfl⟩
    · rcases hsub _ _ hy with hy | ⟨-, rfl⟩
      · exact h.inj hx hy
      · exact absurd hx (hf.held _)
    · rcases hsub _ _ hy with hy | ⟨rfl, -⟩
      · exact absurd hy (hf.held _)
      · rfl
  nodup := h.nodup
  cmd := h.cmd
  cmdInj := h.cmdInj

/-! ## Fetching -/

theorem fetchPt_eq {c : Nat} {t : FramePool} (heq : s.fetchPt = (c, t)) :
    t.frames = s.frames ∧ t.pool2001 = s.pool2001 ∧ t.cmds c = .clear := by
  unfold fetchPt at heq
  cases heq
  exact ⟨rfl, rfl, Heap.set_self ..⟩

theorem fetchPt2001_eq {f : Nat} {t : FramePool} (heq : s.fetchPt2001 = (f, t)) :
    t.cmds = s.cmds ∧ t.pool = s.pool ∧ t.frames f = .clear := by
  unfold fetchPt2001 at heq
  cases heq
  exact ⟨rfl, rfl, Heap.set_self ..⟩

/-- A fetched command is loose, and what all frames hold is as it was. -/
theorem Owned.fetchPt (h : Owned s holds) {c : Nat} {t : FramePool} (heq : s.fetchPt = (c, t)) :
    Owned t holds ∧ LooseCmd t c ∧ ∀ f < s.frames.next, Kept s t f := by
  obtain ⟨p, cmds, pool, hpop⟩ : ∃ c cmds pool, pop s.cmds s.pool Cmd.clear = (c, cmds, pool) := ⟨_, _, _, rfl⟩
  obtain ⟨hfree, hlt, hnot, horigin, hle, hsub, hsame, -⟩ := h.free.pop _ hpop
  unfold FramePool.fetchPt at heq
  rw [hpop] at heq
  cases heq
  have hloose : ∀ f < s.frames.next, c ∉ (s.frames f).cmdlist := by
    intro f hf hc
    obtain ⟨hlt', hpool⟩ := h.cmd hf hc
    rcases horigin with hin | hnext
    · exact hpool hin
    · omega
  refine ⟨⟨hfree.set _ _, h.free2001, h.clear, h.held, h.inj, h.nodup, fun hf hc => ?_, h.cmdInj⟩, ⟨hlt, hnot, hloose⟩,
    fun f hf => ⟨rfl, fun b hb => ?_⟩⟩
  · obtain ⟨hlt', hpool⟩ := h.cmd hf hc
    exact ⟨lt_of_lt_of_le hlt' hle, fun hin => hpool (hsub _ hin)⟩
  · change (cmds.set c Cmd.clear) b = s.cmds b
    have hbc : b ≠ c := by
      rintro rfl
      exact hloose f hf hb
    rw [Heap.set_of_ne _ hbc, hsame b (h.cmd hf hb).1]

/-- A fetched frame is loose, and a frame that is not queued is as it was. -/
theorem Owned.fetchPt2001 (h : Owned s holds) {f : Nat} {t : FramePool} (heq : s.fetchPt2001 = (f, t)) :
    Owned t holds ∧ Loose t holds f ∧ (∀ g < s.frames.next, g ∉ s.pool2001 → Kept s t g) ∧
      (∀ c, LooseCmd s c → LooseCmd t c) := by
  obtain ⟨p, frames, pool, hpop⟩ : ∃ f frames pool, pop s.frames s.pool2001 FrameUpdate.clear = (f, frames, pool) :=
    ⟨_, _, _, rfl⟩
  obtain ⟨hfree, hlt, hnot, horigin, hle, hsub, hsame, hnext⟩ := h.free2001.pop _ hpop
  unfold FramePool.fetchPt2001 at heq
  rw [hpop] at heq
  cases heq
  have hne : ∀ g < s.frames.next, g ∉ s.pool2001 → g ≠ f := by
    rintro g hg hpool rfl
    rcases horigin with hin | hnext
    · exact hpool hin
    · omega
  -- whatever a frame lists now it listed before
  have hlist : ∀ {g c : Nat}, g < frames.next → c ∈ ((frames.set f FrameUpdate.clear) g).cmdlist →
      g < s.frames.next ∧ c ∈ (s.frames g).cmdlist := by
    intro g c hg hc
    by_cases hgf : g = f
    · subst hgf
      rw [Heap.set_self] at hc
      exact absurd hc List.not_mem_nil
    · have hlt' : g < s.frames.next := (hnext g hg).resolve_right hgf
      rw [Heap.set_of_ne _ hgf, hsame g hlt'] at hc
      exact ⟨hlt', hc⟩
  refine ⟨⟨h.free, hfree.set _ _, fun g hg => ?_, fun {x g} hx => ?_, h.inj, fun {g} hg => ?_, fun hg hc => ?_,
    fun hg hg' hc hc' => ?_⟩, ⟨hlt, hnot, fun x hx => ?_⟩, fun g hg hpool => ⟨?_, fun _ _ => rfl⟩,
    fun c hc => ⟨hc.lt, hc.queued, fun g hg hcg => ?_⟩⟩
  · have hgf : g ≠ f := fun hgf => hnot (hgf ▸ hg)
    change ((frames.set f FrameUpdate.clear) g).cmdlist = []
    rw [Heap.set_of_ne _ hgf, hsame g (h.free2001.lt_next g (hsub g hg))]
    exact h.clear g (hsub g hg)
  · obtain ⟨hlt', hpool⟩ := h.held hx
    exact ⟨lt_of_lt_of_le hlt' hle, fun hin => hpool (hsub g hin)⟩
  · change ((frames.set f FrameUpdate.clear) g).cmdlist.Nodup
    by_cases hgf : g = f
    · subst hgf
      rw [Heap.set_self]
      exact List.nodup_nil
    · have hlt' : g < s.frames.next := (hnext g hg).resolve_right hgf
      rw [Heap.set_of_ne _ hgf, hsame g hlt']
      exact h.nodup hlt'
  · obtain ⟨hg, hc⟩ := hlist hg hc
    exact h.cmd hg hc
  · obtain ⟨hg, hc⟩ := hlist hg hc
    obtain ⟨hg', hc'⟩ := hlist hg' hc'
    exact h.cmdInj hg hg' hc hc'
  · obtain ⟨hlt', hpool⟩ := h.held hx
    exact hne f hlt' hpool rfl
  · change (frames.set f FrameUpdate.clear) g = s.frames g
    rw [Heap.set_of_ne _ (hne g hg hpool), hsame g hg]
  · obtain ⟨hg, hcg⟩ := hlist hg hcg
    exact hc.listed g hg hcg

/-! ## Filling in -/

theorem Owned.setCmd (h : Owned s holds) {c : Nat} (hc : LooseCmd s c) (cmd : Cmd) :
    Owned (s.setCmd c cmd) holds ∧ LooseCmd (s.setCmd c cmd) c ∧ ∀ f < s.frames.next, Kept s (s.setCmd c cmd) f := by
  refine ⟨⟨h.free.set _ _, h.free2001, h.clear, h.held, h.inj, h.nodup, h.cmd, h.cmdInj⟩,
    ⟨hc.lt, hc.queued, hc.listed⟩, fun f hf => ⟨rfl, fun b hb => Heap.set_of_ne _ ?_ _⟩⟩
  rintro rfl
  exact hc.listed f hf hb

theorem Owned.setFrameid (h : Owned s holds) (f frameid : Nat) : Owned (s.setFrameid f frameid) holds ∧
    ∀ g ≠ f, Kept s (s.setFrameid f frameid) g := by
  have hlist : ∀ g, ((s.setFrameid f frameid).frames g).cmdlist = (s.frames g).cmdlist := by
    intro g
    by_cases hg : g = f
    · subst hg
      simp [FramePool.setFrameid]
    · simp [FramePool.setFrameid, Heap.set_of_ne _ hg]
  refine ⟨⟨h.free, h.free2001.set _ _, fun g hg => ?_, h.held, h.inj, fun {g} hg => ?_, fun hg hc => ?_,
    fun hg hg' hc hc' => ?_⟩, fun g hg => ⟨Heap.set_of_ne _ hg _, fun _ _ => rfl⟩⟩
  · rw [hlist]
    exact h.clear g hg
  · rw [hlist]
    exact h.nodup hg
  · rw [hlist] at hc
    exact h.cmd hg hc
  · rw [hlist] at hc hc'
    exact h.cmdInj hg hg' hc hc'

theorem content_setFrameid (s : FramePool) (f frameid g : Nat) : (s.setFrameid f frameid).content g = s.content g := by
  unfold content FramePool.setFrameid
  by_cases hg : g = f
  · subst hg
    simp
  · simp [Heap.set_of_ne _ hg]

theorem content_addAllocated (s : FramePool) (f c : Nat) : (s.addAllocated f c).content f = s.content f ++ [s.cmds c] := by
  simp [content, FramePool.addAllocated]

theorem Owned.addAllocated (h : Owned s holds) {f c : Nat} (hc : LooseCmd s c) (hf : f ∉ s.pool2001) :
    Owned (s.addAllocated f c) holds ∧ ∀ g ≠ f, Kept s (s.addAllocated f c) g := by
  have hother : ∀ {g : Nat}, g ≠ f → (s.addAllocated f c).frames g = s.frames g := fun hg => Heap.set_of_ne _ hg _
  have hself : ((s.addAllocated f c).frames f).cmdlist = (s.frames f).cmdlist ++ [c] := by simp [FramePool.addAllocated]
  -- what a frame lists it listed before, or it is `c`
  have hlist : ∀ {g b : Nat}, b ∈ ((s.addAllocated f c).frames g).cmdlist →
      b ∈ (s.frames g).cmdlist ∨ (g = f ∧ b = c) := by
    intro g b hb
    by_cases hg : g = f
    · subst hg
      rw [hself, List.mem_append, List.mem_singleton] at hb
      exact hb.imp_right fun hb => ⟨rfl, hb⟩
    · rw [hother hg] at hb
      exact Or.inl hb
  refine ⟨⟨h.free, h.free2001.set _ _, fun g hg => ?_, h.held, h.inj, fun {g} hg => ?_, fun hg hb => ?_,
    fun hg hg' hb hb' => ?_⟩, fun g hg => ⟨hother hg, fun _ _ => rfl⟩⟩
  · rw [hother fun hgf => hf (hgf ▸ hg)]
    exact h.clear g hg
  · by_cases hgf : g = f
    · subst hgf
      rw [hself, List.nodup_append]
      refine ⟨h.nodup hg, List.nodup_singleton c, ?_⟩
      rintro a ha b hb rfl
      exact hc.listed g hg (List.mem_singleton.mp hb ▸ ha)
    · rw [hother hgf]
      exact h.nodup hg
  · rcases hlist hb with hb | ⟨-, rfl⟩
    · exact h.cmd hg hb
    · exact ⟨hc.lt, hc.queued⟩
  · rcases hlist hb with hold | ⟨rfl, rfl⟩
    · rcases hlist hb' with hold' | ⟨-, rfl⟩
      · exact h.cmdInj hg hg' hold hold'
      · exact absurd hold (hc.listed _ hg)
    · rcases hlist hb' with hold' | ⟨rfl, -⟩
      · exact absurd hold' (hc.listed _ hg')
      · rfl

/-! ## Recycling -/

theorem foldl_recyclePt (l : List Nat) (s : FramePool) : l.foldl recyclePt s = { s with pool := s.pool ++ l } := by
  induction l generalizing s with
  | nil => simp
  | cons c l ih => rw [List.foldl_cons, ih, recyclePt]; simp

theorem recyclePt2001_eq (s : FramePool) (f : Nat) : s.recyclePt2001 f =
    { cmds := s.cmds.fill (s.frames f).cmdlist .clear
      frames := s.frames.set f { s.frames f with cmdlist := [] }
      pool := s.pool ++ (s.frames f).cmdlist.reverse
      pool2001 := s.pool2001 ++ [f] } := by
  simp only [recyclePt2001, foldl_recyclePt]

/-- A loose frame may be recycled; its commands are queued with it. -/
theorem Owned.recyclePt2001 (h : Owned s holds) {f : Nat} (hf : Loose s holds f) :
    Owned (s.recyclePt2001 f) holds ∧ (∀ g ≠ f, g < s.frames.next → Kept s (s.recyclePt2001 f) g) ∧
      ∀ g ≠ f, Loose s holds g → Loose (s.recyclePt2001 f) holds g := by
  rw [recyclePt2001_eq]
  set frames := s.frames.set f { s.frames f with cmdlist := [] } with hframes
  have hother : ∀ {g : Nat}, g ≠ f → frames g = s.frames g := fun hg => Heap.set_of_ne _ hg _
  have hself : (frames f).cmdlist = [] := by simp [hframes]
  have hlist : ∀ {g b : Nat}, b ∈ (frames g).cmdlist → g ≠ f ∧ b ∈ (s.frames g).cmdlist := by
    intro g b hb
    by_cases hg : g = f
    · subst hg
      rw [hself] at hb
      exact absurd hb List.not_mem_nil
    · rw [hother hg] at hb
      exact ⟨hg, hb⟩
  refine ⟨⟨?_, h.free2001.push hf.queued hf.lt |>.set _ _, fun g hg => ?_, fun {x g} hx => ?_, h.inj, fun {g} hg => ?_,
    fun {g b} hg hb => ?_, fun hg hg' hb hb' => ?_⟩, fun g hgf hg => ⟨hother hgf, fun b hb => ?_⟩,
    fun g hgf hg => ⟨hg.lt, ?_, hg.held⟩⟩
  · refine ⟨?_, fun b hb => ?_⟩
    · rw [List.nodup_append]
      refine ⟨h.free.nodup, List.nodup_reverse.mpr (h.nodup hf.lt), ?_⟩
      rintro a ha b hb rfl
      exact (h.cmd hf.lt (List.mem_reverse.mp hb)).2 ha
    · rcases List.mem_append.mp hb with hb | hb
      · exact h.free.lt_next b hb
      · exact (h.cmd hf.lt (List.mem_reverse.mp hb)).1
  · by_cases hgf : g = f
    · subst hgf
      exact hself
    · have hg : g ∈ s.pool2001 := by
        rcases List.mem_append.mp hg with hg | hg
        · exact hg
        · exact absurd (List.mem_singleton.mp hg) hgf
      change (frames g).cmdlist = []
      rw [hother hgf]
      exact h.clear g hg
  · obtain ⟨hlt, hpool⟩ := h.held hx
    refine ⟨hlt, fun hg => ?_⟩
    rcases List.mem_append.mp hg with hg | hg
    · exact hpool hg
    · exact hf.held x (List.mem_singleton.mp hg ▸ hx)
  · by_cases hgf : g = f
    · subst hgf
      change (frames g).cmdlist.Nodup
      rw [hself]
      exact List.nodup_nil
    · change (frames g).cmdlist.Nodup
      rw [hother hgf]
      exact h.nodup hg
  · obtain ⟨hgf, hb⟩ := hlist hb
    obtain ⟨hlt, hpool⟩ := h.cmd hg hb
    refine ⟨hlt, fun hb' => ?_⟩
    rcases List.mem_append.mp hb' with hb' | hb'
    · exact hpool hb'
    · exact hgf (h.cmdInj hg hf.lt hb (List.mem_reverse.mp hb'))
  · exact h.cmdInj hg hg' (hlist hb).2 (hlist hb').2
  · exact Heap.fill_of_not_mem _ (fun hb' => hgf (h.cmdInj hg hf.lt hb hb')) _
  · intro hg'
    rcases List.mem_append.mp hg' with hg' | hg'
    · exact hg.queued hg'
    · exact hgf (List.mem_singleton.mp hg')

theorem Owned.recycleAll (h : Owned s holds) {fs : List Nat} (hnodup : fs.Nodup) (hfs : ∀ f ∈ fs, Loose s holds f) :
    Owned (fs.foldl FramePool.recyclePt2001 s) holds ∧
      ∀ g ∉ fs, g < s.frames.next → Kept s (fs.foldl FramePool.recyclePt2001 s) g := by
  induction fs generalizing s with
  | nil => exact ⟨h, fun g _ _ => .refl s g⟩
  | cons f fs ih =>
    obtain ⟨hnot, hnodup⟩ := List.nodup_cons.mp hnodup
    obtain ⟨hown, hkept, hloose⟩ := h.recyclePt2001 (hfs f List.mem_cons_self)
    have hne : ∀ g ∈ fs, g ≠ f := fun g hg hgf => hnot (hgf ▸ hg)
    obtain ⟨hown', hkept'⟩ := ih hown hnodup fun g hg => hloose g (hne g hg) (hfs g (List.mem_cons_of_mem _ hg))
    refine ⟨hown', fun g hg hlt => ?_⟩
    rw [List.mem_cons, not_or] at hg
    refine (hkept g hg.1 hlt).trans (hkept' g hg.2 ?_)
    rw [recyclePt2001_eq]
    exact hlt

/-! ## Copies -/

theorem copyCmds_spec {cs cs' : List Nat} {h h' : Heap Cmd} (heq : copyCmds cs h = (cs', h')) :
    cs' = List.range' h.next cs.length ∧ h'.next = h.next + cs.length ∧ ∀ q < h.next, h' q = h q := by
  induction cs generalizing h cs' h' with
  | nil =>
    cases heq
    exact ⟨rfl, rfl, fun _ _ => rfl⟩
  | cons c cs ih =>
    obtain ⟨ds, k, hk⟩ : ∃ ds k, copyCmds cs (h.alloc (h c)).2 = (ds, k) := ⟨_, _, rfl⟩
    obtain ⟨hds, hnext, hold⟩ := ih hk
    simp only [copyCmds, hk] at heq
    cases heq
    rw [Heap.alloc_next] at hds hnext hold
    refine ⟨?_, ?_, fun q hq => ?_⟩
    · rw [hds, Heap.alloc_fst, List.length_cons, List.range'_succ]
    · rw [hnext, List.length_cons]
      omega
    · rw [hold q (by omega), Heap.alloc_of_lt h hq]

/-- A copy of a frame is loose, and nothing that existed has changed. -/
theorem Owned.copyFrame (h : Owned s holds) (f : Nat) {f' : Nat} {t : FramePool} (heq : s.copyFrame f = (f', t)) :
    Owned t holds ∧ Loose t holds f' ∧ f' = s.frames.next ∧ t.frames.next = s.frames.next + 1 ∧
      t.pool2001 = s.pool2001 ∧ ∀ g < s.frames.next, Kept s t g := by
  obtain ⟨cs, cmds, hcopy⟩ : ∃ cs cmds, copyCmds (s.frames f).cmdlist s.cmds = (cs, cmds) := ⟨_, _, rfl⟩
  obtain ⟨hcs, hnext, hold⟩ := copyCmds_spec hcopy
  unfold FramePool.copyFrame at heq
  rw [hcopy] at heq
  cases heq
  set frames := (s.frames.alloc { s.frames f with cmdlist := cs }).2 with hframes
  have hother : ∀ {g : Nat}, g < s.frames.next → frames g = s.frames g := fun hg => Heap.alloc_of_lt _ hg _
  have hself : (frames s.frames.next).cmdlist = cs := by rw [hframes, Heap.alloc_self]
  have hsplit : ∀ {g : Nat}, g < s.frames.next + 1 → g < s.frames.next ∨ g = s.frames.next := by omega
  have hfresh : ∀ {c : Nat}, c ∈ cs → s.cmds.next ≤ c ∧ c < cmds.next := by
    intro c hc
    rw [hcs, List.mem_range'_1] at hc
    omega
  have hlist : ∀ {g c : Nat}, g < s.frames.next + 1 → c ∈ (frames g).cmdlist →
      (g < s.frames.next ∧ c ∈ (s.frames g).cmdlist) ∨ (g = s.frames.next ∧ c ∈ cs) := by
    intro g c hg hc
    rcases hsplit hg with hlt | rfl
    · rw [hother hlt] at hc
      exact Or.inl ⟨hlt, hc⟩
    · rw [hself] at hc
      exact Or.inr ⟨rfl, hc⟩
  have hnew : ∀ {g c : Nat}, g < s.frames.next → c ∈ (s.frames g).cmdlist → c ∉ cs := by
    intro g c hg hc hcs
    have := (h.cmd hg hc).1
    have := (hfresh hcs).1
    omega
  refine ⟨⟨⟨h.free.nodup, fun c hc => ?_⟩, ⟨h.free2001.nodup, fun g hg => ?_⟩, fun g hg => ?_, fun {x g} hx => ?_, h.inj,
    fun {g} hg => ?_, fun {g c} hg hc => ?_, fun {g g' c} hg hg' hc hc' => ?_⟩,
    ⟨Nat.lt_succ_self _, fun hf => ?_, fun x hx => ?_⟩, rfl, rfl, rfl, fun g hg => ⟨hother hg, fun c hc => ?_⟩⟩
  · have := h.free.lt_next c hc
    change c < cmds.next
    omega
  · exact Nat.lt_succ_of_lt (h.free2001.lt_next g hg)
  · change (frames g).cmdlist = []
    rw [hother (h.free2001.lt_next g hg)]
    exact h.clear g hg
  · exact ⟨Nat.lt_succ_of_lt (h.held hx).1, (h.held hx).2⟩
  · change (frames g).cmdlist.Nodup
    rcases hsplit hg with hlt | rfl
    · rw [hother hlt]
      exact h.nodup hlt
    · rw [hself, hcs]
      exact List.nodup_range'
  · rcases hlist hg hc with ⟨hlt, hc⟩ | ⟨-, hc⟩
    · obtain ⟨hclt, hpool⟩ := h.cmd hlt hc
      refine ⟨?_, hpool⟩
      change c < cmds.next
      omega
    · refine ⟨(hfresh hc).2, fun hpool => ?_⟩
      have := h.free.lt_next c hpool
      have := (hfresh hc).1
      omega
  · rcases hlist hg hc with ⟨hlt, hold⟩ | ⟨rfl, hnewc⟩
    · rcases hlist hg' hc' with ⟨hlt', hold'⟩ | ⟨-, hnewc'⟩
      · exact h.cmdInj hlt hlt' hold hold'
      · exact absurd hnewc' (hnew hlt hold)
    · rcases hlist hg' hc' with ⟨hlt', hold'⟩ | ⟨rfl, -⟩
      · exact absurd hnewc (hnew hlt' hold')
      · rfl
  · have := h.free2001.lt_next _ hf
    exact lt_irrefl _ this
  · exact lt_irrefl _ (h.held hx).1
  · exact hold c (h.cmd hg hc).1

theorem Owned.copyFrames (h : Owned s holds) {fs fs' : List Nat} {t : FramePool} (heq : copyFrames fs s = (fs', t)) :
    Owned t holds ∧ fs' = List.range' s.frames.next fs.length ∧ t.frames.next = s.frames.next + fs.length ∧
      t.pool2001 = s.pool2001 ∧ ∀ g < s.frames.next, Kept s t g := by
  induction fs generalizing s fs' t with
  | nil =>
    cases heq
    exact ⟨h, rfl, rfl, rfl, fun g _ => .refl _ g⟩
  | cons f fs ih =>
    obtain ⟨f', u, hu⟩ : ∃ f' u, s.copyFrame f = (f', u) := ⟨_, _, rfl⟩
    obtain ⟨gs, v, hv⟩ : ∃ gs v, FramePool.copyFrames fs u = (gs, v) := ⟨_, _, rfl⟩
    obtain ⟨hown, -, hf', hnext, hpool, hkept⟩ := h.copyFrame f hu
    obtain ⟨hown', hgs, hnext', hpool', hkept'⟩ := ih hown hv
    simp only [FramePool.copyFrames, hu, hv] at heq
    cases heq
    refine ⟨hown', ?_, ?_, hpool'.trans hpool, fun g hg => (hkept g hg).trans (hkept' g (by omega))⟩
    · rw [hgs, hf', hnext, List.length_cons, List.range'_succ]
    · rw [hnext', hnext, List.length_cons]
      omega

/-- Copying frames and recycling the copies, the last one first. -/
theorem Owned.copyRecycle (h : Owned s holds) {fs fs' : List Nat} {t : FramePool} (heq : FramePool.copyFrames fs s = (fs', t)) :
    Owned (fs'.reverse.foldl FramePool.recyclePt2001 t) holds ∧
      ∀ g < s.frames.next, Kept s (fs'.reverse.foldl FramePool.recyclePt2001 t) g := by
  obtain ⟨hown, hfs', hnext, hpool, hkept⟩ := h.copyFrames heq
  have hge : ∀ g ∈ fs', s.frames.next ≤ g ∧ g < t.frames.next := by
    intro g hg
    rw [hfs', List.mem_range'_1] at hg
    omega
  have hnodup : fs'.reverse.Nodup := List.nodup_reverse.mpr (hfs' ▸ List.nodup_range')
  obtain ⟨hown', hkept'⟩ := hown.recycleAll hnodup fun g hg => by
    have hg := hge g (List.mem_reverse.mp hg)
    refine ⟨hg.2, fun hmem => ?_, fun x hx => ?_⟩
    · rw [hpool] at hmem
      have := h.free2001.lt_next g hmem
      omega
    · have := (h.held hx).1
      omega
  refine ⟨hown', fun g hg => (hkept g hg).trans (hkept' g (fun hmem => ?_) (by omega))⟩
  have := (hge g (List.mem_reverse.mp hmem)).1
  omega

end Owned

end FramePool

end KcpServer
