import KcpServer.ReadEdges

/-!
# Seeing that the peer has closed

`read` returns 0 at the end of the stream, and also where it is asked for no byte. `m_bChkReadZero` is to tell the two
apart: it is set when a `read` reports `EAGAIN` and cleared when one delivers bytes. So an end that is read right behind
the last bytes is taken for a full buffer.

* `Inv` : the flag, as a fact about the `read`s so far;
* `detectsEnd_iff` : when the end is seen;
* `missed_reach` : an end that has been missed once is missed for good.
-/

namespace KcpServer
open Lib

/-- Every `read` that has delivered bytes has been followed by one that reported `EAGAIN`. -/
def Emptied (reads : List ReadRes) : Prop :=
  ∀ before bs behind, reads = before ++ .data bs :: behind → bs ≠ [] → .again ∈ behind

theorem emptied_nil : Emptied [] := fun before bs behind h => by simp at h

theorem emptied_concat (reads : List ReadRes) (r : ReadRes) :
    Emptied (reads ++ [r]) ↔ r = .again ∨ r.bytes = [] ∧ Emptied reads := by
  constructor
  · intro h
    by_cases hagain : r = .again
    · exact .inl hagain
    refine .inr ⟨?_, fun before bs behind heq hne => ?_⟩
    · cases r with
      | data bs =>
        by_contra hne
        simpa using h reads bs [] rfl hne
      | again => rfl
      | error => rfl
    · have hmem := h before bs (behind ++ [r]) (by simp [heq]) hne
      simpa [Ne.symm hagain] using hmem
  · intro h before bs behind heq hne
    rcases List.eq_nil_or_concat behind with rfl | ⟨behind, r', rfl⟩
    · obtain ⟨-, rfl⟩ := List.append_inj' heq rfl |>.imp_right List.singleton_inj.mp
      simp [ReadRes.bytes, hne] at h
    · obtain ⟨rfl, rfl⟩ : reads = before ++ .data bs :: behind ∧ r = r' := by
        rw [List.concat_eq_append, ← List.cons_append, ← List.append_assoc] at heq
        exact (List.append_inj' heq rfl).imp_right List.singleton_inj.mp
      rcases h with rfl | ⟨-, h⟩
      · simp
      · simp [h before bs behind rfl hne]

namespace ConnObj
variable {c c' : ConnObj}

/-! ## One `_OnRead` -/

/-- Which `_OnRead` queues a `QUIT_CONN`, and what it makes of the flag. -/
theorem _onRead_flag (hc : c.Filled) {s : Socket} {r : ReadRes} (hr : s.Answers (RECV_BUFFER_SIZE - c.netOffset) r)
    {ret : Int} {quits : List Int} (h : c._onRead r = .ok (c', ret, quits)) :
    (c'.chkReadZero = true ↔ r = .again ∨ r.bytes = [] ∧ c.chkReadZero = true) ∧
      (c.fd ∈ quits ↔ r = .error ∨ r = .data [] ∧ c.chkReadZero = true) := by
  have hR : RECV_BUFFER_SIZE = 4096 := rfl
  have hB : BUFFER_SIZE = 32768 := rfl
  have hle := hc.netOffset_le
  unfold _onRead at h
  rw [if_neg (by simp [hc.bclose])] at h
  cases r with
  | error =>
    cases h
    simp [ReadRes.bytes]
  | again =>
    cases h
    simp
  | data bs =>
    obtain ⟨hlen, -, -⟩ := hr
    obtain ⟨m, -, h⟩ := bind_eq_ok.mp h
    dsimp only at h
    split at h
    · next hzero =>
      cases h
      simp [ReadRes.bytes, List.length_eq_zero_iff.mp hzero.1, hzero.2]
    · next hzero =>
      rw [if_pos (by omega)] at h
      cases h
      rw [List.length_eq_zero_iff] at hzero
      simpa [ReadRes.bytes] using hzero

theorem parseBuff_chkReadZero {addr : Nat} {sec : Int} {parsed : Bool} {msgs : List Msg} {quits : List Int}
    (h : c.parseBuff addr sec = .ok (parsed, c', msgs, quits)) : c'.chkReadZero = c.chkReadZero := by
  unfold parseBuff at h
  split at h
  · cases h
    rfl
  · obtain ⟨out, -, h⟩ := bind_eq_ok.mp h
    cases h
    rfl

theorem resetBuffer_chkReadZero (h : c.resetBuffer = .ok c') : c'.chkReadZero = c.chkReadZero := by
  unfold resetBuffer at h
  split at h
  · cases h
    rfl
  · obtain ⟨m, -, h⟩ := bind_eq_ok.mp h
    cases h
    rfl

theorem onRead_flag (hc : c.Filled) {s : Socket} {r : ReadRes} (hr : s.Answers (RECV_BUFFER_SIZE - c.netOffset) r)
    {addr : Nat} {sec : Int} {out : ReadOut} (h : c.onRead addr sec r = .ok out) :
    out.conn.chkReadZero = true ↔ r = .again ∨ r.bytes = [] ∧ c.chkReadZero = true := by
  unfold onRead at h
  rw [if_neg (by simp [hc.bclose])] at h
  obtain ⟨⟨c₁, ret, quits⟩, hread, h⟩ := bind_eq_ok.mp h
  obtain ⟨⟨parsed, c₂, msgs, quits'⟩, hparse, h⟩ := bind_eq_ok.mp h
  obtain ⟨c₃, hreset, h⟩ := bind_eq_ok.mp h
  cases h
  rw [resetBuffer_chkReadZero hreset, parseBuff_chkReadZero hparse]
  exact (_onRead_flag hc hr hread).1

/-- An `_OnRead` at the end of the stream returns. -/
theorem _onRead_end (hc : c.Filled) : ∃ c' ret quits, c._onRead (.data []) = .ok (c', ret, quits) := by
  have hB : BUFFER_SIZE = 32768 := rfl
  have hR : RECV_BUFFER_SIZE = 4096 := rfl
  have hle := hc.netOffset_le
  obtain ⟨m, hm, -⟩ := c.netBuffer.memcpy_eq_ok c.netOffset [] (by simpa using hle)
  rw [_onRead, if_neg (by simp [hc.bclose]), hm, ok_bind]
  dsimp only
  split
  · exact ⟨_, _, _, rfl⟩
  · rw [if_pos (by simp only [List.length_nil]; omega)]
    exact ⟨_, _, _, rfl⟩

end ConnObj

/-! ## Histories of reads -/

/-- A connection, and what its `read`s have returned. -/
structure EndWorld where
  conn : ConnObj
  reads : List ReadRes

namespace EndWorld

def step (addr : Nat) (w : EndWorld) (o : Int × ReadRes) : Except Fault EndWorld := do
  let out ← w.conn.onRead addr o.1 o.2
  return ⟨out.conn, w.reads ++ [o.2]⟩

/-- A `read` returns what a socket can answer to a request of that size. -/
def Answered (w : EndWorld) (r : ReadRes) : Prop := ∃ s : Socket, s.Answers (RECV_BUFFER_SIZE - w.conn.netOffset) r

def start (kind : ConnKind) (fd : Int) : EndWorld := ⟨.new kind fd, []⟩

/-- **End-of-stream detection**: where there is room in the buffer, a `read` of 0 queues a `QUIT_CONN`, and nothing else
does but an error and a `read` of 0 of some bytes asked for. -/
structure DetectsEnd (w : EndWorld) : Prop where
  seen : w.conn.netOffset < RECV_BUFFER_SIZE →
    ∃ c ret quits, w.conn._onRead (.data []) = .ok (c, ret, quits) ∧ w.conn.fd ∈ quits
  only : ∀ r c ret quits, w.Answered r → w.conn._onRead r = .ok (c, ret, quits) → w.conn.fd ∈ quits →
    r = .error ∨ r = .data [] ∧ w.conn.netOffset < RECV_BUFFER_SIZE

structure Inv (w : EndWorld) : Prop where
  filled : w.conn.Filled
  flag : w.conn.chkReadZero = true ↔ Emptied w.reads

variable {addr : Nat} {w w' : EndWorld}

theorem inv_start (kind : ConnKind) (fd : Int) : (start kind fd).Inv := by
  have hR : (0 : Nat) ≠ RECV_BUFFER_SIZE := by decide
  refine ⟨⟨rfl, Nat.zero_le _, fun hfull => absurd hfull hR⟩, ?_⟩
  simp [start, ConnObj.new, emptied_nil]

theorem inv_step (hw : w.Inv) {o : Int × ReadRes} (hans : w.Answered o.2) (h : w.step addr o = .ok w') : w'.Inv := by
  obtain ⟨s, hs⟩ := hans
  obtain ⟨out, hout, h⟩ := bind_eq_ok.mp h
  cases h
  refine ⟨(ConnObj.onRead_ret_zero hw.filled hs hout).1, ?_⟩
  rw [emptied_concat, ← hw.flag]
  exact ConnObj.onRead_flag hw.filled hs hout

theorem inv_reach {kind : ConnKind} {fd : Int}
    (h : Reach (step addr) (fun w o => w.Answered o.2) (start kind fd) w) : w.Inv :=
  h.invariant (inv_start kind fd) fun _ _ _ hw hans heq => inv_step hw hans heq

theorem Inv.only (hw : w.Inv) {r : ReadRes} {c : ConnObj} {ret : Int} {quits : List Int} (hans : w.Answered r)
    (h : w.conn._onRead r = .ok (c, ret, quits)) (hquit : w.conn.fd ∈ quits) :
    r = .error ∨ r = .data [] ∧ w.conn.netOffset < RECV_BUFFER_SIZE := by
  obtain ⟨s, hs⟩ := hans
  refine ((ConnObj._onRead_flag hw.filled hs h).2.mp hquit).imp_right fun ⟨hend, hflag⟩ => ⟨hend, ?_⟩
  -- a full buffer has just been read into
  refine lt_of_le_of_ne hw.filled.netOffset_le fun hfull => ?_
  simp [hw.filled.full hfull] at hflag

theorem Inv.seen_iff (hw : w.Inv) :
    (∃ c ret quits, w.conn._onRead (.data []) = .ok (c, ret, quits) ∧ w.conn.fd ∈ quits) ↔ Emptied w.reads := by
  have hs : (⟨[], 0, true, false⟩ : Socket).Answers (RECV_BUFFER_SIZE - w.conn.netOffset) (.data []) :=
    ⟨Nat.zero_le _, List.nil_prefix, fun _ => .inr ⟨rfl, rfl⟩⟩
  obtain ⟨c, ret, quits, heq⟩ := ConnObj._onRead_end hw.filled
  have hquit := (ConnObj._onRead_flag hw.filled hs heq).2
  rw [← hw.flag]
  constructor
  · rintro ⟨c', ret', quits', heq', hmem⟩
    cases heq.symm.trans heq'
    simpa using hquit.mp hmem
  · intro hflag
    exact ⟨c, ret, quits, heq, hquit.mpr (.inr ⟨rfl, hflag⟩)⟩

theorem Inv.detects_iff (hw : w.Inv) :
    w.DetectsEnd ↔ (w.conn.netOffset < RECV_BUFFER_SIZE → Emptied w.reads) := by
  constructor
  · intro h hroom
    exact hw.seen_iff.mp (h.seen hroom)
  · intro h
    refine ⟨fun hroom => hw.seen_iff.mpr (h hroom), fun r c ret quits hans heq hquit => ?_⟩
    exact hw.only hans heq hquit

/-- An end that has been missed stays missed: every later `read` returns 0, and no `_OnRead` queues a `QUIT_CONN`. -/
theorem missed_reach {w₀ : EndWorld} (h₀ : w₀.Inv) (hmissed : ¬ Emptied w₀.reads)
    (h : Reach (step addr) (fun _ o => o.2 = .data []) w₀ w) :
    ¬ ∃ c ret quits, w.conn._onRead (.data []) = .ok (c, ret, quits) ∧ w.conn.fd ∈ quits := by
  have hinv : w.Inv ∧ ¬ Emptied w.reads := by
    refine h.invariant (I := fun w => w.Inv ∧ ¬ Emptied w.reads) ⟨h₀, hmissed⟩ ?_
    rintro w ⟨sec, r⟩ w' ⟨hw, hnot⟩ rfl heq
    have hans : w.Answered (.data []) := ⟨⟨[], 0, true, false⟩, Nat.zero_le _, List.nil_prefix, fun _ => .inr ⟨rfl, rfl⟩⟩
    refine ⟨inv_step hw hans heq, ?_⟩
    obtain ⟨out, -, heq⟩ := bind_eq_ok.mp heq
    cases heq
    rw [emptied_concat]
    simpa using fun _ => hnot
  rw [hinv.1.seen_iff]
  exact hinv.2

/-- **When the end of the stream is seen.** After every history of `read`s on an accepted connection, the connection sees
its end if and only if every `read` that has delivered bytes has been followed by one that reported `EAGAIN`, or its
buffer is full. -/
theorem detectsEnd_iff {kind : ConnKind} {fd : Int}
    (h : Reach (step addr) (fun w o => w.Answered o.2) (start kind fd) w) :
    w.DetectsEnd ↔ (w.conn.netOffset < RECV_BUFFER_SIZE → Emptied w.reads) := (inv_reach h).detects_iff

theorem exists_read (addr : Nat) (kind : ConnKind) (fd : Int) {r : ReadRes} (hr : (start kind fd).Answered r)
    (hlen : r.bytes.length < 4) : ∃ w, Reach (step addr) (fun w o => w.Answered o.2) (start kind fd) w ∧
      w.reads = [r] ∧ w.conn.kind = kind ∧ w.conn.bclose = false ∧ w.conn.netOffset = r.bytes.length ∧
      w.conn.pending = r.bytes := by
  have hR : RECV_BUFFER_SIZE = 4096 := rfl
  have hshort : r.bytes.length < kind.extra + 4 := by omega
  obtain ⟨out, hout, -, hkind, hopen, hoff, hpend⟩ := ConnObj.onRead_spec (k := kind) (c := .new kind fd) rfl rfl
    (hold_nil addr) (lenPrefixed_incomplete_of_lt hshort) (by simp only [ConnObj.new]; omega) rfl 0
  rw [if_neg (fun h => h.1 rfl)] at hpend
  have hstep : (start kind fd).step addr (0, r) = .ok ⟨out.conn, [] ++ [r]⟩ := by
    simp only [step, start, hout]
    rfl
  exact ⟨_, Reach.refl.step (P := fun w o => Answered w o.2) (o := (0, r)) hr hstep, rfl, hkind, hopen,
    by rw [hoff, hpend], hpend⟩

/-- A game node reads one byte from its net node, which closes behind it. -/
theorem not_detectsEnd : ∃ w, Reach (step 0) (fun w o => w.Answered o.2) (start .rpc 5) w ∧
    w.conn.netOffset < RECV_BUFFER_SIZE ∧ ¬ w.DetectsEnd := by
  have hans : (start .rpc 5).Answered (.data [1]) := ⟨⟨[1], 0, true, false⟩, by decide, List.prefix_refl _, by simp⟩
  obtain ⟨w, hw, hreads, -, -, hoff, -⟩ := exists_read 0 .rpc 5 hans (by decide)
  have hroom : w.conn.netOffset < RECV_BUFFER_SIZE := by
    rw [hoff]
    decide
  refine ⟨w, hw, hroom, fun hdetects => ?_⟩
  have hemptied := (inv_reach hw).detects_iff.mp hdetects hroom
  rw [hreads] at hemptied
  simpa using hemptied [] [1] [] rfl

/-- Behind that byte it finds nothing to read. -/
theorem detectsEnd_again : ∃ w, Reach (step 0) (fun w o => w.Answered o.2) (start .rpc 5) w ∧
    w.reads = [.data [1], .again] ∧ w.conn.netOffset < RECV_BUFFER_SIZE ∧ w.DetectsEnd := by
  have hR : RECV_BUFFER_SIZE = 4096 := rfl
  have hans : (start .rpc 5).Answered (.data [1]) := ⟨⟨[1], 0, true, false⟩, by decide, List.prefix_refl _, by simp⟩
  obtain ⟨w, hw, hreads, hkind, hopen, hoff, hpend⟩ := exists_read 0 .rpc 5 hans (by decide)
  have hlen : w.conn.netOffset = 1 := hoff
  have hagain : w.Answered .again := ⟨⟨[], 0, false, false⟩, by rw [hlen]; decide, rfl⟩
  obtain ⟨out, hout, -, -, -, hoff', hpend'⟩ := ConnObj.onRead_spec hkind hopen (hold_nil 0)
    (lenPrefixed_incomplete_of_lt (show [(1 : UInt8)].length < 0 + 4 by decide)) (r := .again)
    (by rw [hlen]; decide) (by rw [hpend]; rfl) 0
  rw [if_neg (fun h => h.1 rfl)] at hpend'
  have hstep : w.step 0 (0, .again) = .ok ⟨out.conn, w.reads ++ [.again]⟩ := by
    simp only [step, hout]
    rfl
  have hreach := hw.step (P := fun w o => Answered w o.2) (o := (0, .again)) hagain hstep
  have hroom : out.conn.netOffset < RECV_BUFFER_SIZE := by
    rw [hoff', hpend']
    decide
  exact ⟨_, hreach, by rw [hreads]; rfl, hroom, (detectsEnd_iff hreach).mpr fun _ =>
    (emptied_concat w.reads .again).mpr (.inl rfl)⟩

end EndWorld

end KcpServer
