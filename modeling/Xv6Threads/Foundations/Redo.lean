import Mathlib

/-! Sequences of writes to addresses, and redo logs. A redo log keeps, besides the contents of
every address, a list of addresses with a copy of what each of them is to hold; `src j` is where
the copy for entry `j` of the list lies. -/
namespace Xv6Threads
open Function
variable {A V : Type}

section
variable [DecidableEq A]

/-- The contents after a list of writes, oldest first. -/
def store (us : List (A × V)) (f : A → V) : A → V :=
  us.foldl (fun f u => update f u.1 u.2) f

lemma store_append (us vs : List (A × V)) (f : A → V) : store (us++vs) f = store vs (store us f) := List.foldl_append

lemma store_concat (us : List (A × V)) (f : A → V) (a : A) (v : V) :
    store (us++[(a,v)]) f = update (store us f) a v := by
  rw [store_append]
  rfl

/-- An address that is not written to keeps what it holds. -/
lemma store_of_not_mem {us : List (A × V)} {a : A} (f : A → V) (h : ∀ u ∈ us, u.1 ≠ a) : store us f a = f a := by
  induction us generalizing f with
  | nil => rfl
  | cons u us ih =>
    have hu := h u (by simp)
    calc store us (update f u.1 u.2) a = update f u.1 u.2 a := ih _ (fun v hv => h v (by simp [hv]))
      _ = f a := update_of_ne (Ne.symm hu) _ _

end

/-- Contents `f` with log `head` stand for contents `D` of the home addresses. -/
structure Redo (src : ℕ → A) (home : A → Prop) (head : List A) (f D : A → V) : Prop where
  nodup : head.Nodup
  isHome : ∀ a ∈ head, home a
  apart : ∀ j < head.length, ¬home (src j)
  copy : ∀ j a, head[j]? = some a → f (src j) = D a
  rest : ∀ a, home a → a ∉ head → f a = D a

namespace Redo
variable {src : ℕ → A} {home : A → Prop} {head : List A} {f D : A → V}

/-- With an empty log the contents are what they stand for. -/
lemma nil_iff : Redo src home [] f D ↔ ∀ a, home a → f a = D a :=
  ⟨fun h a ha => h.rest a ha (by simp),fun h => ⟨by simp,by simp,by simp,by simp,fun a ha _ => h a ha⟩⟩

/-- Copying one entry of the log to its home address changes nothing, at any time. -/
lemma install [DecidableEq A] (h : Redo src home head f D) {j : ℕ} {a : A} (hj : head[j]? = some a) :
    Redo src home head (update f a (f (src j))) D := by
  have ha : a ∈ head := List.mem_of_getElem? hj
  refine ⟨h.nodup,h.isHome,h.apart,fun k b hk => ?_,fun b hb hn => ?_⟩
  · have hlt : k < head.length := (List.getElem?_eq_some_iff.mp hk).1
    rw [update_of_ne (by rintro he; exact h.apart k hlt (he ▸ h.isHome a ha))]
    exact h.copy k b hk
  · rw [update_of_ne (by rintro rfl; exact hn ha)]
    exact h.rest b hb hn

/-- A new log whose copies are complete. -/
lemma commit {E : A → V} (h : ∀ a, home a → f a = D a) (hn : head.Nodup) (hh : ∀ a ∈ head, home a)
    (ha : ∀ j < head.length, ¬home (src j)) (hc : ∀ j a, head[j]? = some a → f (src j) = E a)
    (hr : ∀ a, a ∉ head → E a = D a) : Redo src home head f E := ⟨hn,hh,ha,hc,fun a hha hna => by rw [h a hha,hr a hna]⟩

end Redo
end Xv6Threads
