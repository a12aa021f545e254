import Mathlib

/-! Sums over all parties of a weight that depends on the party's local state. They are the
invariants' counting terms: one party moving changes such a sum by that party's own weights. -/
namespace Xv6Threads
open Function Finset
open scoped BigOperators

/-- The total weight of a family of local states. -/
def total {α β : Type} [Fintype α] (w : α → β → ℕ) (f : α → β) : ℕ := ∑ x, w x (f x)

variable {α β : Type} [Fintype α]

lemma total_update [DecidableEq α] (w : α → β → ℕ) (f : α → β) (a : α) (b : β) :
    total w (update f a b)+w a (f a) = total w f+w a b := by
  unfold total
  rw [← add_sum_erase _ _ (mem_univ a), ← add_sum_erase _ (fun x => w x (f x)) (mem_univ a)]
  have he : ∑ x ∈ univ.erase a, w x (update f a b x) = ∑ x ∈ univ.erase a, w x (f x) := by
    apply sum_congr rfl
    intro x hx
    rw [update_of_ne (ne_of_mem_erase hx)]
  rw [he,update_self]
  omega

variable {w : α → β → ℕ} {f : α → β}

/-- A move between local states of one weight keeps the total. -/
lemma total_update_of_eq [DecidableEq α] {a : α} {b : β}
    (h : w a b = w a (f a)) : total w (update f a b) = total w f := by
  have := total_update w f a b
  omega

lemma weight_le_total (w : α → β → ℕ) (f : α → β) (a : α) : w a (f a) ≤ total w f :=
  single_le_sum (f := fun x => w x (f x)) (fun _ _ => Nat.zero_le _) (mem_univ a)

lemma add_weight_le_total (w : α → β → ℕ) (f : α → β) {a b : α} (h : a ≠ b) : w a (f a)+w b (f b) ≤ total w f := by
  classical
  calc w a (f a)+w b (f b) = ∑ x ∈ {a,b}, w x (f x) := (sum_pair (f := fun x => w x (f x)) h).symm
    _ ≤ total w f := sum_le_sum_of_subset (subset_univ _)

lemma weight_eq_zero_of_total (h : total w f = 0) (a : α) : w a (f a) = 0 := by
  have := weight_le_total w f a
  omega

lemma total_congr {f g : α → β} (h : ∀ a, w a (f a) = w a (g a)) : total w f = total w g :=
  sum_congr rfl (fun a _ => h a)

lemma total_eq_zero (h : ∀ a, w a (f a) = 0) : total w f = 0 := sum_eq_zero (fun a _ => h a)

section
variable {γ : Type} {v : α → γ → ℕ} {g : α → γ} (h : ∀ a, w a (f a) ≤ v a (g a))
include h

lemma total_le_total : total w f ≤ total v g := sum_le_sum (fun a _ => h a)

lemma total_lt_total {a : α} (ha : w a (f a) < v a (g a)) : total w f < total v g :=
  sum_lt_sum (fun a _ => h a) ⟨a,mem_univ a,ha⟩

end

lemma total_mul (k : ℕ) (w : α → β → ℕ) (f : α → β) : total (fun a b => k*w a b) f = k*total w f := (mul_sum ..).symm

lemma exists_of_total_pos (h : 0 < total w f) : ∃ a, 0 < w a (f a) := by
  by_contra hn
  push Not at hn
  have hz : total w f = 0 := total_eq_zero (fun x => Nat.le_zero.mp (hn x))
  omega

end Xv6Threads
