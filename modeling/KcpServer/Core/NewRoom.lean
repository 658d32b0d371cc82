import KcpServer.Core.Node

/-!
# The arrays of `NewRoom`

`NewRoom` cuts its body into fields and lists, in four arrays of 16 elements that nothing initialises, and compares the
lists' lengths when everything has been written. `newRoom_atomic_iff` : it stays inside of the arrays, reads only what
it has filled and either enters the listed players one by one and registers the room, or leaves the maps alone, exactly
if there are 4 to 16 fields and none of the three lists is longer than 16.
-/

namespace KcpServer
open Lib

/-! ## Bodies -/

section Bodies
variable (body : Bytes)

/-- The strings in a list of the body; a field that is missing has none. -/
def newRoomList (i : Nat) : List Bytes := strtok 44 ((strtok 124 body).getD i [])

/-- The lists of pids, rids and camps have the same length. -/
def NewRoomEven : Prop :=
  (newRoomList body 0).length = (newRoomList body 1).length ∧ (newRoomList body 1).length = (newRoomList body 3).length

def newRoomEntry (i : Nat) : Int × Nat × Int :=
  (atoi ((newRoomList body 0).getD i []), atoull ((newRoomList body 1).getD i []),
    atoi ((newRoomList body 3).getD i []))

/-- The fields and lists fit in the parser's arrays, and the fields that it looks at are there. -/
structure NewRoomSized : Prop where
  filled : 4 ≤ (strtok 124 body).length
  fields : (strtok 124 body).length ≤ 16
  pids : (newRoomList body 0).length ≤ 16
  rids : (newRoomList body 1).length ≤ 16
  camps : (newRoomList body 3).length ≤ 16

end Bodies

section Parser
variable {body : Bytes} {b : NewRoomBody}

theorem parseNewRoom_of_sized (h : NewRoomSized body) : parseNewRoom body =
    .ok ⟨(newRoomList body 0).map atoi, (newRoomList body 1).map atoull, (newRoomList body 3).map atoi,
      uint32 (atoi ((strtok 124 body).getD 2 []))⟩ := by
  obtain ⟨hfilled, hfields, hpids, hrids, hcamps⟩ := h
  unfold newRoomList at *
  unfold parseNewRoom
  dsimp only
  rw [if_neg (by omega)]
  match hsvec : strtok 124 body with
  | pids :: rids :: delta :: camps :: rest =>
    rw [hsvec] at hpids hrids hcamps
    have hpids' : (strtok 44 pids).length ≤ 16 := hpids
    have hrids' : (strtok 44 rids).length ≤ 16 := hrids
    have hcamps' : (strtok 44 camps).length ≤ 16 := hcamps
    dsimp only
    rw [List.length_map, List.length_map, List.length_map, if_neg (by omega)]
    rfl
  | [] | [_] | [_, _] | [_, _, _] =>
    rw [hsvec] at hfilled
    simp at hfilled

theorem sized_of_parseNewRoom (h : parseNewRoom body = .ok b) : NewRoomSized body := by
  unfold parseNewRoom at h
  dsimp only at h
  split at h
  · cases h
  next hfields =>
  split at h
  · next pids rids delta camps rest hsvec =>
    split at h
    · cases h
    next hlists =>
    simp only [List.length_map, not_or, not_lt] at hlists
    refine ⟨by rw [hsvec]; simp, by omega, ?_, ?_, ?_⟩ <;> unfold newRoomList <;> rw [hsvec]
    · exact hlists.1
    · exact hlists.2.1
    · exact hlists.2.2
  · cases h

theorem zip_eq_newRoomEntry (h : NewRoomEven body) :
    ((newRoomList body 0).map atoi).zip (((newRoomList body 1).map atoull).zip ((newRoomList body 3).map atoi)) =
      (List.range (newRoomList body 0).length).map (newRoomEntry body) := by
  obtain ⟨hrids, hcamps⟩ := h
  apply List.ext_getElem
  · simp only [List.length_zip, List.length_map, List.length_range]
    omega
  · intro i hi hi'
    rw [List.length_map, List.length_range] at hi'
    simp only [List.getElem_zip, List.getElem_map, List.getElem_range, newRoomEntry]
    rw [List.getD_eq_getElem _ _ hi', List.getD_eq_getElem _ _ (by omega), List.getD_eq_getElem _ _ (by omega)]

end Parser

namespace GameNode

/-! ## The loop -/

/-- What stands before a call of `EnterP`: a player object with the pid, the rid and the camp of the entry, in both
maps. -/
structure Introduced (g g₁ : GameNode) (r p : Nat) (e : Int × Nat × Int) : Prop where
  player : g₁.pm.players p = ⟨e.1, 0, e.2.1, (g.room r).roomid, false, e.2.2⟩
  pidPMap : g₁.pm.pidPMap = g.pm.pidPMap.insert e.1 p
  ridPMap : g₁.pm.ridPMap = g.pm.ridPMap.insert e.2.1 p
  kcp : g₁.kcp = g.kcp
  rm : g₁.rm = g.rm

/-- One call of `EnterP` for each entry, in order. -/
inductive EnterPs (r : Nat) : GameNode → List (Int × Nat × Int) → GameNode → Prop
  | nil (g : GameNode) : EnterPs r g [] g
  | cons {g g₁ g' : GameNode} {p : Nat} {e : Int × Nat × Int} {es : List (Int × Nat × Int)} :
      Introduced g g₁ r p e → EnterPs r { g₁ with rm := g₁.rm.enterP g₁.pm.players r p none } es g' →
      EnterPs r g (e :: es) g'

theorem enterPs_enterNews (r : Nat) (es : List (Int × Nat × Int)) (g : GameNode) :
    EnterPs r g es (g.enterNews r es) := by
  induction es generalizing g with
  | nil => exact .nil g
  | cons e es ih =>
    obtain ⟨p, players, pool, -, heq⟩ := g.enterNew_eq r e.1 e.2.1 e.2.2
    have hrest := ih (g.enterNew r e.1 e.2.1 e.2.2)
    rw [heq] at hrest
    rw [enterNews, heq]
    set P : Player := ⟨e.1, 0, e.2.1, (g.room r).roomid, false, e.2.2⟩
    have hintro : Introduced g { g with pm := ⟨players.set p P, g.pm.ridPMap.insert e.2.1 p,
        g.pm.pidPMap.insert e.1 p, pool⟩ } r p e := ⟨Heap.set_self .., rfl, rfl, rfl, rfl⟩
    exact .cons hintro hrest

/-! ## `NewRoom` -/

/-- What a body whose lists are even does: the room that has been popped is filled by one `EnterP` for each index, with
that index's pid, rid and camp, and is then registered. -/
structure Creates (g : GameNode) (pid : Nat) (body : Bytes) (g' : GameNode) : Prop where
  enters : ∃ g₁ g₂, g₁.pm = g.pm ∧ g₁.rm.idMap = g.rm.idMap ∧ (g₁.room g.rm.popRoom.1).roomid = int32 pid ∧
    EnterPs g.rm.popRoom.1 g₁ ((List.range (newRoomList body 0).length).map (newRoomEntry body)) g₂ ∧
      g' = { g₂ with rm := g₂.rm.appendR g.rm.popRoom.1 }
  registered : g'.rm.idMap = g.rm.idMap.insert (int32 pid) g.rm.popRoom.1

/-- `NewRoom` returns, and creates the room or does nothing to the maps. -/
def NewRoomAtomic (g : GameNode) (pid : Nat) (body : Bytes) : Prop :=
  ∃ g', g.newRoom pid body = .ok g' ∧ (NewRoomEven body → g.Creates pid body g') ∧
    (¬ NewRoomEven body → g'.pm = g.pm ∧ g'.rm.idMap = g.rm.idMap)

theorem creates_enterNews {g g₁ : GameNode} {pid : Nat} {body : Bytes} {es : List (Int × Nat × Int)}
    (hes : es = (List.range (newRoomList body 0).length).map (newRoomEntry body)) (hquiet : Quiet (g.openRoom pid) g₁) :
    g.Creates pid body { g₁.enterNews g.rm.popRoom.1 es with
      rm := (g₁.enterNews g.rm.popRoom.1 es).rm.appendR g.rm.popRoom.1 } := by
  have henters := enterPs_enterNews g.rm.popRoom.1 es g₁
  rw [hes] at henters ⊢
  refine ⟨⟨g₁, _, hquiet.pm, hquiet.rm.idMap, roomid_openRoom hquiet, henters, rfl⟩, ?_⟩
  exact idMap_newRoom hquiet (entered_enterNews g₁ g.rm.popRoom.1 _)

/-- **`NewRoom` is safe and atomic** exactly if the body has 4 to 16 fields and its lists have at most 16 elements. -/
theorem newRoom_atomic_iff (g : GameNode) (pid : Nat) (body : Bytes) :
    g.NewRoomAtomic pid body ↔ NewRoomSized body := by
  constructor
  · rintro ⟨g', heq, -⟩
    obtain ⟨b, -, hbody, -⟩ := newRoom_eq_ok heq
    exact sized_of_parseNewRoom hbody
  · intro hsized
    have hparse := parseNewRoom_of_sized hsized
    obtain ⟨g', heq⟩ : ∃ g', g.newRoom pid body = .ok g' := by
      unfold newRoom
      dsimp only
      rw [hparse, ok_bind]
      split <;> exact ⟨_, rfl⟩
    obtain ⟨b, g₁, hbody, hg₁, hquiet, hcase⟩ := newRoom_eq_ok heq
    cases hparse.symm.trans hbody
    simp only [List.length_map] at hcase
    refine ⟨g', heq, fun heven => ?_, fun hodd => ?_⟩
    · obtain ⟨-, rfl⟩ | ⟨hodd, -⟩ := hcase
      · exact creates_enterNews (zip_eq_newRoomEntry heven) hquiet
      · exact absurd heven hodd
    · obtain ⟨heven, -⟩ | ⟨-, rfl⟩ := hcase
      · exact absurd heven hodd
      · exact ⟨hquiet.pm, hquiet.rm.idMap⟩

/-- A body with a single field: the second one is read from an element that nothing has filled. -/
theorem not_newRoom_atomic : ¬ GameNode.new.NewRoomAtomic 1 [49] := by
  rintro ⟨g', heq, -⟩
  have hfault : GameNode.new.newRoom 1 [49] = .error .uninit := rfl
  cases hfault.symm.trans heq

end GameNode

end KcpServer
