import Mathlib

/-! Loops with a bound on the number of rounds, and the rule for their total correctness. -/
namespace Xv6Threads
variable {σ ρ ε : Type}

lemma ok_of_bind {x : Except ε σ} {g : σ → Except ε ρ} {b : ρ} (h : x >>= g = .ok b) : ∃ a, x = .ok a ∧ g a = .ok b := by
  cases x with
  | error e => cases h
  | ok a => exact ⟨a,rfl,h⟩

/-- At most `k` rounds of `body`, which goes on with a new state, returns or fails; `stop` is the
result when the bound is met first. -/
def rounds (body : σ → Except ε (σ ⊕ ρ)) (stop : σ → ρ) : ℕ → σ → Except ε ρ
  | 0,s => .ok (stop s)
  | k+1,s =>
    match body s with
    | .error e => .error e
    | .ok (.inr r) => .ok r
    | .ok (.inl s) => rounds body stop k s

variable {f : σ → Except ε (σ ⊕ ρ)} {g : σ → ρ}

/-- A loop that returns in its first round. -/
lemma rounds_return {s : σ} {r : ρ} (h : f s = .ok (.inr r)) (k : ℕ) : rounds f g (k+1) s = .ok r := by
  simp only [rounds,h]

/-- A loop that goes on after its first round. -/
lemma rounds_next {s t : σ} (h : f s = .ok (.inl t)) (k : ℕ) : rounds f g (k+1) s = rounds f g k t := by
  simp only [rounds,h]

/-- A loop whose body `f` keeps `I`, lowers `m` and returns only with `Q` returns with `Q`. -/
lemma rounds_spec {I : σ → Prop} {Q : ρ → Prop} (m : σ → ℕ)
    (hf : ∀ s, I s → (∃ t, f s = .ok (.inl t) ∧ I t ∧ m t < m s) ∨ ∃ r, f s = .ok (.inr r) ∧ Q r)
    {k : ℕ} {s : σ} (hs : I s) (hk : m s < k) : ∃ r, rounds f g k s = .ok r ∧ Q r := by
  induction k generalizing s with
  | zero => exact absurd hk (Nat.not_lt_zero _)
  | succ k ih =>
    rcases hf s hs with ⟨t,ht,hI,hm⟩ | ⟨r,hr,hQ⟩
    · obtain ⟨r,hr,hQ⟩ := ih hI (Nat.lt_of_lt_of_le hm (Nat.le_of_lt_succ hk))
      exact ⟨r,by simp only [rounds,ht,hr],hQ⟩
    · exact ⟨r,by simp only [rounds,hr],hQ⟩

end Xv6Threads
