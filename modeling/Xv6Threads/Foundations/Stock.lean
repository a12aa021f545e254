import Mathlib

/-! Resources that are handed out from a list of free ones and kept at places. Each is free or at one place; none gets
lost while it is taken, moved and given back. -/
namespace Xv6Threads
open Function List
variable {π φ : Type} {own : π → Option φ} {free : List φ} {all : φ → Prop} {p q : π} {f : φ}

/-- `all` are the resources: those that are free and those at a place. -/
structure Stock (own : π → Option φ) (free : List φ) (all : φ → Prop) : Prop where
  nodup : free.Nodup
  apart : ∀ {p f}, own p = some f → f ∉ free
  inj : ∀ {p q f}, own p = some f → own q = some f → p = q
  mem_iff : ∀ f, all f ↔ f ∈ free ∨ ∃ p, own p = some f

namespace Stock

lemma congr {own' : π → Option φ} (h : Stock own free all) (ho : ∀ p, own' p = own p) : Stock own' free all := by
  rwa [show own' = own from funext ho]

variable [DecidableEq π]

/-- The first free one is put at an empty place. -/
lemma take (h : Stock own (f :: free) all) (hp : own p = none) : Stock (update own p (some f)) free all := by
  obtain ⟨hf,hnd⟩ := nodup_cons.mp h.nodup
  have hcase : ∀ {q g}, update own p (some f) q = some g → (q = p ∧ g = f) ∨ (q ≠ p ∧ own q = some g) := by
    intro q g hq
    by_cases hqp : q = p
    · simp only [hqp,update_self,Option.some.injEq] at hq
      exact .inl ⟨hqp,hq.symm⟩
    · rw [update_of_ne hqp] at hq
      exact .inr ⟨hqp,hq⟩
  refine ⟨hnd,fun hq hm => ?_,fun hq hr => ?_,fun g => ?_⟩
  · rcases hcase hq with ⟨-,rfl⟩ | ⟨-,hq⟩
    · exact hf hm
    · exact h.apart hq (mem_cons_of_mem f hm)
  · rcases hcase hq with ⟨h1,h2⟩ | ⟨-,hq⟩ <;> rcases hcase hr with ⟨h3,h4⟩ | ⟨-,hr⟩
    · rw [h1,h3]
    · rw [h2] at hr
      exact absurd mem_cons_self (h.apart hr)
    · rw [h4] at hq
      exact absurd mem_cons_self (h.apart hq)
    · exact h.inj hq hr
  · rw [h.mem_iff,mem_cons]
    constructor
    · rintro ((rfl | hm) | ⟨r,hr⟩)
      · exact .inr ⟨p,update_self ..⟩
      · exact .inl hm
      · refine .inr ⟨r,?_⟩
        rw [update_of_ne,hr]
        rintro rfl
        rw [hp] at hr
        cases hr
    · rintro (hm | ⟨r,hr⟩)
      · exact .inl (.inr hm)
      · rcases hcase hr with ⟨-,rfl⟩ | ⟨-,hr⟩
        · exact .inl (.inl rfl)
        · exact .inr ⟨r,hr⟩

/-- One is given back. -/
lemma give (h : Stock own free all) (hp : own p = some f) : Stock (update own p none) (f :: free) all := by
  have hcase : ∀ {q g}, update own p none q = some g → q ≠ p ∧ own q = some g := by
    intro q g hq
    by_cases hqp : q = p
    · simp only [hqp,update_self] at hq
      cases hq
    · rw [update_of_ne hqp] at hq
      exact ⟨hqp,hq⟩
  refine ⟨nodup_cons.mpr ⟨h.apart hp,h.nodup⟩,fun hq hm => ?_,fun hq hr => h.inj (hcase hq).2 (hcase hr).2, fun g => ?_⟩
  · obtain ⟨hne,hq⟩ := hcase hq
    rcases mem_cons.mp hm with rfl | hm
    · exact hne (h.inj hq hp)
    · exact h.apart hq hm
  · rw [h.mem_iff,mem_cons]
    constructor
    · rintro (hm | ⟨r,hr⟩)
      · exact .inl (.inr hm)
      · by_cases hrp : r = p
        · rw [hrp,hp] at hr
          exact .inl (.inl (Option.some.inj hr).symm)
        · exact .inr ⟨r,(update_of_ne hrp ..).trans hr⟩
    · rintro ((rfl | hm) | ⟨r,hr⟩)
      · exact .inr ⟨p,hp⟩
      · exact .inl hm
      · exact .inr ⟨r,(hcase hr).2⟩

/-- One is put at another place. -/
lemma move (h : Stock own free all) (hp : own p = some f) (hq : own q = none) :
    Stock (update (update own p none) q (some f)) free all := by
  refine (h.give hp).take ?_
  by_cases hqp : q = p
  · rw [hqp,update_self]
  · rwa [update_of_ne hqp]

omit [DecidableEq π] in
/-- When nothing is kept the free ones are all of them, in some order. -/
lemma perm {free' : List φ} (h : Stock own free all) (h' : Stock own free' all) (hn : ∀ p, own p = none) :
    free'.Perm free := by
  refine (perm_ext_iff_of_nodup h'.nodup h.nodup).mpr fun f => ?_
  have hnone : ¬∃ p, own p = some f := fun ⟨p,hp⟩ => by
    rw [hn p] at hp
    cases hp
  have h1 := h.mem_iff f
  have h2 := h'.mem_iff f
  simp only [hnone,or_false] at h1 h2
  exact h2.symm.trans h1

end Stock
end Xv6Threads
