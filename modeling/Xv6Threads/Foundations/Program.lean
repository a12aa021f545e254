import Mathlib

/-! Programs over a signature of instructions, run alone or among others that act between any two
of their instructions, and rules of pre- and postconditions for both. -/
namespace Xv6Threads

structure Sig where
  Instr : Type
  Reply : Instr → Type

inductive Prog (S : Sig) (α : Type) : Type
  | ret (a : α)
  | call (i : S.Instr) (k : S.Reply i → Prog S α)

namespace Prog
variable {S : Sig} {α β : Type}

def bind : Prog S α → (α → Prog S β) → Prog S β
  | ret a,f => f a
  | call i k,f => call i (fun r => (k r).bind f)

instance : Monad (Prog S) where
  pure := ret
  bind := bind

/-- One instruction. -/
def op (i : S.Instr) : Prog S (S.Reply i) := call i ret

variable {σ ε : Type}

/-- Run a program alone. -/
def run (h : (i : S.Instr) → σ → Except ε (S.Reply i × σ)) : Prog S α → σ → Except ε (α × σ)
  | ret a,s => .ok (a,s)
  | call i k,s =>
    match h i s with
    | .error e => .error e
    | .ok (r,t) => (k r).run h t

end Prog

/-- What the instructions do, what others may do between two of them, what each of them keeps, what
holds whenever one is next, and the errors that may come up. -/
structure Contract (S : Sig) (σ ε : Type) where
  handle : (i : S.Instr) → σ → Except ε (S.Reply i × σ)
  rely : σ → σ → Prop
  guar : σ → σ → Prop
  may : S.Instr → σ → Prop
  fails : ε → Prop
  refl : ∀ s, rely s s
  trans : ∀ {s t u}, rely s t → rely t u → rely s u

/-- The contract of a program that runs alone. -/
def Contract.alone {S : Sig} {σ ε : Type} (h : (i : S.Instr) → σ → Except ε (S.Reply i × σ)) (E : ε → Prop) :
    Contract S σ ε where
  handle := h
  rely := Eq
  guar _ _ := True
  may _ _ := True
  fails := E
  refl _ := rfl
  trans := Eq.trans

namespace Prog
variable {S : Sig} {α β : Type} {σ ε : Type} (C : Contract S σ ε)

/-- The program meets its contract from `s` on and ends only in states with `Q`. -/
def wp : Prog S α → (α → σ → Prop) → σ → Prop
  | ret a,Q,s => ∀ t, C.rely s t → Q a t
  | call i k,Q,s => ∀ t, C.rely s t → C.may i t ∧
      match C.handle i t with
      | .error e => C.fails e
      | .ok (r,u) => C.guar t u ∧ (k r).wp Q u

variable {C} {x : Prog S α} {Q Q' : α → σ → Prop} {s t : σ}

/-- Steps of others keep it. -/
lemma wp_rely (h : x.wp C Q s) (hr : C.rely s t) : x.wp C Q t := by
  cases x with
  | ret a | call i k => exact fun u hu => h u (C.trans hr hu)

lemma wp_mono (h : x.wp C Q s) (hQ : ∀ a t, Q a t → Q' a t) : x.wp C Q' s := by
  induction x generalizing s with
  | ret a => exact fun t ht => hQ a t (h t ht)
  | call i k ih =>
    intro t ht
    obtain ⟨hm,h⟩ := h t ht
    refine ⟨hm,?_⟩
    cases hi : C.handle i t with
    | error e => rw [hi] at h; exact h
    | ok p => rw [hi] at h; exact ⟨h.1,ih p.1 h.2⟩

lemma wp_and (h : x.wp C Q s) (h' : x.wp C Q' s) : x.wp C (fun a t => Q a t ∧ Q' a t) s := by
  induction x generalizing s with
  | ret a => exact fun t ht => ⟨h t ht,h' t ht⟩
  | call i k ih =>
    intro t ht
    obtain ⟨hm,h⟩ := h t ht
    obtain ⟨-,h'⟩ := h' t ht
    refine ⟨hm,?_⟩
    cases hi : C.handle i t with
    | error e => rw [hi] at h; exact h
    | ok p => rw [hi] at h h'; exact ⟨h.1,ih p.1 h.2 h'.2⟩

lemma wp_bind {f : α → Prog S β} {Q : β → σ → Prop} (h : x.wp C (fun a t => (f a).wp C Q t) s) :
    (x >>= f).wp C Q s := by
  induction x generalizing s with
  | ret a => exact h s (C.refl s)
  | call i k ih =>
    intro t ht
    obtain ⟨hm,h⟩ := h t ht
    refine ⟨hm,?_⟩
    cases hi : C.handle i t with
    | error e => rw [hi] at h; exact h
    | ok p => rw [hi] at h; exact ⟨h.1,ih p.1 h.2⟩

/-- The rule for one instruction. -/
lemma wp_call {i : S.Instr} {k : S.Reply i → Prog S α} (h : ∀ t, C.rely s t → C.may i t ∧
    (∀ e, C.handle i t = .error e → C.fails e) ∧ ∀ r u, C.handle i t = .ok (r,u) → C.guar t u ∧ (k r).wp C Q u) :
    (call i k).wp C Q s := by
  intro t ht
  obtain ⟨hm,he,hk⟩ := h t ht
  refine ⟨hm,?_⟩
  cases hi : C.handle i t with
  | error e => exact he e hi
  | ok p => exact hk p.1 p.2 hi

/-- The next instruction of a program that meets its contract. -/
lemma wp_next {i : S.Instr} {k : S.Reply i → Prog S α} (h : (call i k).wp C Q s) :
    C.may i s ∧ (∀ e, C.handle i s = .error e → C.fails e) ∧
      ∀ r u, C.handle i s = .ok (r,u) → C.guar s u ∧ (k r).wp C Q u := by
  obtain ⟨hm,h⟩ := h s (C.refl s)
  refine ⟨hm,fun e he => ?_,fun r u hu => ?_⟩
  · rw [he] at h; exact h
  · rw [hu] at h; exact h

section
variable {h : (i : S.Instr) → σ → Except ε (S.Reply i × σ)} {E : ε → Prop}

lemma alone_ret {a : α} (hQ : Q a s) : (ret a : Prog S α).wp (.alone h E) Q s := by
  rintro t rfl
  exact hQ

lemma alone_call {i : S.Instr} {k : S.Reply i → Prog S α} (he : ∀ e, h i s = .error e → E e)
    (hk : ∀ r t, h i s = .ok (r,t) → (k r).wp (.alone h E) Q t) : (call i k).wp (.alone h E) Q s := by
  refine wp_call (fun t ht => ?_)
  cases ht
  exact ⟨trivial,he,fun r u hu => ⟨trivial,hk r u hu⟩⟩

/-- An instruction that is carried out. -/
lemma alone_ok {i : S.Instr} {k : S.Reply i → Prog S α} {r : S.Reply i} (hi : h i s = .ok (r,t))
    (hk : (k r).wp (.alone h E) Q t) : (call i k).wp (.alone h E) Q s := by
  refine alone_call (fun e he => ?_) fun r' t' ht => ?_
  · rw [hi] at he
    cases he
  · rw [hi] at ht
    cases ht
    exact hk

/-- A program that runs alone ends as its postcondition says, or with an error that may come up. -/
lemma run_of_wp (hx : x.wp (.alone h E) Q s) :
    (∃ a t, x.run h s = .ok (a,t) ∧ Q a t) ∨ ∃ e, x.run h s = .error e ∧ E e := by
  induction x generalizing s with
  | ret a => exact .inl ⟨a,s,rfl,hx s rfl⟩
  | call i k ih =>
    obtain ⟨-,he,hk⟩ := wp_next hx
    cases hi : h i s with
    | error e =>
      simp only [run,hi]
      exact .inr ⟨e,rfl,he e hi⟩
    | ok p =>
      simp only [run,hi]
      exact ih p.1 (hk p.1 p.2 hi).2

end
end Prog
end Xv6Threads
