import KcpServer.Lib.Cxx

/-!
# Runs of a step function

`step s o` performs operation `o` in state `s` and either ends in a new state or fails. `Reach step P s₀ t` says that
`t` is reached from `s₀` by a run all of whose steps meet `P`, a condition on the operation and the state before it;
a condition is how a run is confined to what the environment can do, or to the runs that avoid a defect.
-/

namespace Lib

section Run
variable {σ ο ε : Type*} (step : σ → ο → Except ε σ)

/-- `t` is reached from `s₀` by a run whose steps all succeed and all meet `P`. -/
inductive Reach (P : σ → ο → Prop) (s₀ : σ) : σ → Prop
  | refl : Reach P s₀ s₀
  | step {s : σ} {o : ο} {t : σ} : Reach P s₀ s → P s o → step s o = .ok t → Reach P s₀ t

/-- Perform a list of operations, stopping at the first failure. -/
def run : σ → List ο → Except ε σ
  | s, [] => .ok s
  | s, o :: os => step s o >>= fun t => run t os

variable {step} {P Q : σ → ο → Prop} {s₀ s t : σ} {o : ο} {os : List ο}

/-- What holds at the start and is kept by every step that meets the condition holds in every state reached. -/
theorem Reach.invariant {I : σ → Prop} (h : Reach step P s₀ t) (h₀ : I s₀)
    (hstep : ∀ s o t, I s → P s o → step s o = .ok t → I t) : I t := by
  induction h with
  | refl => exact h₀
  | step _ hp hs ih => exact hstep _ _ _ ih hp hs

/-- An invariant may use another one that the same runs keep. -/
theorem Reach.invariant_of {I J : σ → Prop} (h : Reach step P s₀ t) (hI : ∀ t, Reach step P s₀ t → I t)
    (h₀ : J s₀) (hstep : ∀ s o t, I s → J s → P s o → step s o = .ok t → J t) : J t := by
  induction h with
  | refl => exact h₀
  | step hr hp hs ih => exact hstep _ _ _ (hI _ hr) ih hp hs

theorem Reach.mono (h : Reach step P s₀ t) (hpq : ∀ s o, P s o → Q s o) : Reach step Q s₀ t := by
  induction h with
  | refl => exact .refl
  | step _ hp hs ih => exact ih.step (hpq _ _ hp) hs

theorem Reach.trans {u : σ} (h₁ : Reach step P s₀ s) (h₂ : Reach step P s u) : Reach step P s₀ u := by
  induction h₂ with
  | refl => exact h₁
  | step _ hp hs ih => exact ih.step hp hs

theorem run_cons_eq_ok {u : σ} :
    run step s (o :: os) = .ok u ↔ ∃ t, step s o = .ok t ∧ run step t os = .ok u := bind_eq_ok

theorem Reach.run (h : Reach step P s₀ s) (hp : ∀ s, ∀ o ∈ os, P s o) (hr : Lib.run step s os = .ok t) :
    Reach step P s₀ t := by
  induction os generalizing s with
  | nil => cases hr; exact h
  | cons o os ih =>
    obtain ⟨u, hu, hr⟩ := run_cons_eq_ok.mp hr
    exact ih (h.step (hp s o (by simp)) hu) (fun s o' ho' => hp s o' (by simp [ho'])) hr

variable (step) in
/-- The operations lead to a state that meets `I`, and only one that does not meet `A` can fail. -/
def RunsTo (A : ο → Prop) (s : σ) (os : List ο) (I : σ → Prop) : Prop :=
  ((∀ o ∈ os, A o) → ∃ t, Lib.run step s os = .ok t) ∧ ∀ t, Lib.run step s os = .ok t → I t

section RunsTo
variable {A : ο → Prop} {I J : σ → Prop}

theorem RunsTo.nil (h : I s) : RunsTo step A s [] I := by
  refine ⟨fun _ => ⟨s, rfl⟩, ?_⟩
  rintro t ⟨⟩
  exact h

theorem RunsTo.cons (hok : A o → ∃ u, step s o = .ok u) (h : ∀ u, step s o = .ok u → RunsTo step A u os I) :
    RunsTo step A s (o :: os) I := by
  constructor
  · intro hall
    obtain ⟨u, hu⟩ := hok (hall o (by simp))
    obtain ⟨t, ht⟩ := (h u hu).1 fun o' ho' => hall o' (by simp [ho'])
    exact ⟨t, run_cons_eq_ok.mpr ⟨u, hu, ht⟩⟩
  · intro t ht
    obtain ⟨u, hu, ht⟩ := run_cons_eq_ok.mp ht
    exact (h u hu).2 t ht

theorem RunsTo.imp (h : RunsTo step A s os I) (hIJ : ∀ t, Lib.run step s os = .ok t → I t → J t) :
    RunsTo step A s os J := ⟨h.1, fun t ht => hIJ t ht (h.2 t ht)⟩

end RunsTo

variable (step) in
/-- Perform a list of operations that each meet a condition, which is tested. -/
def runIf (p : σ → ο → Bool) : σ → List ο → Option σ
  | s, [] => some s
  | s, o :: os =>
    if p s o then
      match step s o with
      | .ok t => runIf p t os
      | .error _ => none
    else
      none

theorem Reach.of_runIf {p : σ → ο → Bool} (hp : ∀ s o, p s o = true → P s o) (h : Reach step P s₀ s)
    (hr : runIf step p s os = some t) : Reach step P s₀ t := by
  induction os generalizing s with
  | nil => cases hr; exact h
  | cons o os ih =>
    unfold runIf at hr
    split at hr
    · next hpo =>
      split at hr
      · next u hu => exact ih (h.step (hp s o hpo) hu) hr
      · cases hr
    · cases hr

/-- A run that is tested, and what is tested of the state it ends in. -/
theorem Reach.of_runIf_any {p : σ → ο → Bool} {q : σ → Bool} (hp : ∀ s o, p s o = true → P s o)
    (hr : (runIf step p s os).any q = true) : ∃ t, Reach step P s t ∧ q t = true := by
  obtain ⟨t, ht, hq⟩ := (Option.any_eq_true _ _).mp hr
  exact ⟨t, Reach.of_runIf hp .refl ht, hq⟩

end Run

end Lib
