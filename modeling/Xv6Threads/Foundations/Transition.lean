import Mathlib

/-! Transition systems given by a partial step function. A label names the acting party
together with every choice that its environment makes, so one label has at most one
successor. A step that the modelled code refuses, or on which it stops, gives `none`. -/
namespace Xv6Threads
open Option

structure System (σ ℓ : Type) where
  init : σ → Prop
  step : σ → ℓ → Option σ

namespace System
variable {σ ℓ : Type} (M : System σ ℓ)

/-- The states of the runs all of whose steps meet `ok` in the state they are taken from. -/
inductive ReachWhile (ok : σ → ℓ → Prop) : σ → Prop
  | init {s : σ} (h : M.init s) : ReachWhile ok s
  | step {s t : σ} {l : ℓ} (hs : ReachWhile ok s) (hok : ok s l) (h : M.step s l = some t) :
      ReachWhile ok t

/-- The states of all runs. -/
def Reachable (s : σ) : Prop := M.ReachWhile (fun _ _ => True) s

/-- No label is enabled. -/
def Stuck (s : σ) : Prop := ∀ l, M.step s l = none

variable {M} {ok ok' : σ → ℓ → Prop} {s : σ}

lemma ReachWhile.mono (h : M.ReachWhile ok s) (himp : ∀ s l, ok s l → ok' s l) : M.ReachWhile ok' s := by
  induction h with
  | init h => exact .init h
  | step hs hok h ih => exact .step ih (himp _ _ hok) h

lemma ReachWhile.reachable (h : M.ReachWhile ok s) : M.Reachable s := h.mono (fun _ _ _ => trivial)

/-- The invariant rule: true at the start, kept by every step that meets `ok`. -/
lemma ReachWhile.invariant {I : σ → Prop} (hinit : ∀ s, M.init s → I s)
    (hstep : ∀ s l t, I s → ok s l → M.step s l = some t → I t) (h : M.ReachWhile ok s) : I s := by
  induction h with
  | init h => exact hinit _ h
  | step _ hok h ih => exact hstep _ _ _ ih hok h

/-- The invariant rule on top of a property that is known to hold in every state reached. -/
lemma ReachWhile.invariant_on {J I : σ → Prop} (hJ : ∀ s, M.ReachWhile ok s → J s) (hinit : ∀ s, M.init s → I s)
    (hstep : ∀ s l t, J s → I s → ok s l → M.step s l = some t → I t) (h : M.ReachWhile ok s) : I s := by
  induction h with
  | init h => exact hinit _ h
  | step hs hok h ih => exact hstep _ _ _ (hJ _ hs) ih hok h

lemma Reachable.invariant {I : σ → Prop} (hinit : ∀ s, M.init s → I s)
    (hstep : ∀ s l t, I s → M.step s l = some t → I t) (h : M.Reachable s) : I s :=
  ReachWhile.invariant hinit (fun s l t hi _ ht => hstep s l t hi ht) h

variable (M) in
/-- Take the steps of a schedule in order, as long as they meet a test. -/
def exec (test : σ → ℓ → Bool) : σ → List ℓ → Option σ
  | s, [] => some s
  | s, l :: ls => if test s l then (M.step s l).bind (fun t => exec test t ls) else none

/-- A schedule written as labels with the numbers of their steps. -/
def schedule (l : List (ℓ × ℕ)) : List ℓ := l.flatMap (fun a => List.replicate a.2 a.1)

lemma exec_reachWhile {test : σ → ℓ → Bool} (htest : ∀ s l, test s l = true → ok s l) {s t : σ}
    {ls : List ℓ} (hs : M.ReachWhile ok s) (h : M.exec test s ls = some t) : M.ReachWhile ok t := by
  induction ls generalizing s with
  | nil => cases h; exact hs
  | cons l ls ih =>
    simp only [exec] at h
    split_ifs at h with hl
    obtain ⟨u,hu,ht⟩ := bind_eq_some_iff.mp h
    exact ih (.step hs (htest s l hl) hu) ht

/-- If every step from a state that can be reached makes a rank smaller, no run is longer than the rank of its start. -/
lemma exec_length_le {test : σ → ℓ → Bool} {rank : σ → ℕ}
    (hstep : ∀ s l t, M.Reachable s → M.step s l = some t → rank t < rank s) {ls : List ℓ} (hs : M.Reachable s)
    (h : M.exec test s ls = some t) : ls.length+rank t ≤ rank s := by
  induction ls generalizing s with
  | nil => cases h; simp
  | cons l ls ih =>
    simp only [exec] at h
    split_ifs at h
    obtain ⟨u,hu,ht⟩ := bind_eq_some_iff.mp h
    have := ih (.step hs trivial hu) ht
    have := hstep s l u hs hu
    simp only [List.length_cons]
    omega

/-- A schedule from an initial state that meets `ok` and whose last state is in `P`. -/
lemma reachWhile_of_exec (test : σ → ℓ → Bool) (htest : ∀ s l, test s l = true → ok s l)
    (ls : List ℓ) (P : σ → Prop) [DecidablePred P] (hs : M.init s)
    (h : (M.exec test s ls).map (fun t => decide (P t)) = some true) : ∃ t, M.ReachWhile ok t ∧ P t := by
  obtain ⟨t,ht,hp⟩ := map_eq_some_iff.mp h
  exact ⟨t,exec_reachWhile htest (.init hs) ht,of_decide_eq_true hp⟩

/-- A schedule from an initial state whose last state is in `P`. -/
lemma reachable_of_exec (ls : List ℓ) (P : σ → Prop) [DecidablePred P] (hs : M.init s)
    (h : (M.exec (fun _ _ => true) s ls).map (fun t => decide (P t)) = some true) : ∃ t, M.Reachable t ∧ P t :=
  reachWhile_of_exec (fun _ _ => true) (fun _ _ _ => trivial) ls P hs h

end System

/-! Literals of finite types in fixed runs. -/
namespace FixedRuns

scoped instance neZero_two : NeZero 2 := ⟨by decide⟩

scoped instance neZero_three : NeZero 3 := ⟨by decide⟩

scoped instance neZero_slots : NeZero 64 := ⟨by decide⟩

end FixedRuns
end Xv6Threads
