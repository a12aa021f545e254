import Mathlib

/-! Linked lists: what following `next` goes through, and rings, whose last element leads back to the first. -/
namespace Xv6Threads
open List
variable {α : Type}

/-- Each element of `l` leads to the one after it. -/
abbrev Chain (next : α → α) (l : List α) : Prop := l.IsChain fun a b => next a = b

variable {next next' : α → α} {a b p q r x : α} {l c d : List α}

lemma chain_congr (h : ∀ a ∈ c, next' a = next a) (hl : Chain next (c++[p])) : Chain next' (c++[p]) := by
  induction c with
  | nil => exact isChain_singleton p
  | cons a c ih =>
    have hrest := ih fun b hb => h b (mem_cons_of_mem a hb)
    cases c with
    | nil =>
      have ha : next a = p := (isChain_cons_cons.mp hl).1
      exact isChain_cons_cons.mpr ⟨(h a mem_cons_self).trans ha,isChain_singleton p⟩
    | cons b c =>
      obtain ⟨ha,hl⟩ := isChain_cons_cons.mp hl
      exact isChain_cons_cons.mpr ⟨(h a mem_cons_self).trans ha,hrest hl⟩

/-- Only where the first element leads matters of it. -/
lemma chain_start (h : next' b = next a) (hl : ∀ x ∈ l, next' x = next x) (hlinks : Chain next (a :: l++[r])) :
    Chain next' (b :: l++[r]) := by
  cases l with
  | nil =>
    have ha : next a = r := (isChain_cons_cons.mp hlinks).1
    exact isChain_cons_cons.mpr ⟨h.trans ha,isChain_singleton r⟩
  | cons x l =>
    obtain ⟨ha,hrest⟩ := isChain_cons_cons.mp hlinks
    exact isChain_cons_cons.mpr ⟨h.trans ha,chain_congr hl hrest⟩

lemma chain_next (h : Chain next (a :: l++[r])) : next a = l.headD r := by
  cases l with
  | nil | cons b l => exact (isChain_cons_cons.mp h).1

/-- A ring can be read from each of its elements. -/
lemma chain_rotate (h : Chain next (r :: l++[r])) (hx : r :: l = c++x :: d) : Chain next (x :: (d++c)++[x]) := by
  cases c with
  | nil =>
    cases hx
    simpa using h
  | cons a c =>
    cases hx
    have he : r :: (c++x :: d)++[r] = (r :: c)++x :: (d++[r]) := by simp
    have he' : x :: (d++r :: c)++[x] = (x :: d)++r :: (c++[x]) := by simp
    obtain ⟨h1,h2⟩ := isChain_split.mp (he ▸ h)
    rw [he']
    exact isChain_split.mpr ⟨h2,h1⟩

end Xv6Threads
