import Mathlib

/-! A lock word that names its holder. The parties' local states say who is inside the critical
section; the lock is guarded when the two agree. -/
namespace Xv6Threads
open Function
variable {α β : Type}

/-- The lock names exactly the party whose local state is inside. -/
def Guarded (inside : β → Bool) (lock : Option α) (pc : α → β) : Prop :=
  ∀ a, lock = some a ↔ inside (pc a) = true

/-- What one step of party `a` may do to the lock: leave it alone, take it while it is free,
or give it back from inside. -/
inductive Handover (a : α) (lock lock' : Option α) (before after : Bool) : Prop
  | keep (hl : lock' = lock) (hb : after = before)
  | take (hf : lock = none) (hl : lock' = some a) (hb : after = true)
  | drop (hi : before = true) (hl : lock' = none) (hb : after = false)

variable {inside : β → Bool} {lock lock' : Option α} {pc : α → β} {a b : α}

lemma Guarded.unique (h : Guarded inside lock pc) (ha : inside (pc a) = true)
    (hb : inside (pc b) = true) : a = b := by
  have hla := (h a).mpr ha
  rw [(h b).mpr hb] at hla
  exact (Option.some.inj hla).symm

lemma Guarded.outside (h : Guarded inside lock pc) (hf : lock = none) (a : α) : inside (pc a) = false := by
  by_contra hi
  rw [(h a).mpr (by simpa using hi)] at hf
  cases hf

lemma Guarded.step [DecidableEq α] {c : β} (h : Guarded inside lock pc)
    (hs : Handover a lock lock' (inside (pc a)) (inside c)) : Guarded inside lock' (update pc a c) := by
  intro b
  by_cases hb : b = a
  · subst hb
    rw [update_self]
    cases hs with
    | keep hl hc => rw [hl,hc]; exact h b
    | take _ hl hc => simp [hl,hc]
    | drop _ hl hc => simp [hl,hc]
  · rw [update_of_ne hb]
    cases hs with
    | keep hl _ => rw [hl]; exact h b
    | take hf hl _ =>
      have := h.outside hf b
      simp [hl,this,Ne.symm hb]
    | drop hi hl _ =>
      have hne : inside (pc b) = false := by
        by_contra hn
        exact hb (h.unique (by simpa using hn) hi)
      simp [hl,hne]

end Xv6Threads
