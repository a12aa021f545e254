import Xv6Threads.Foundations.Program

/-! Programs whose instructions are known only by what they need and what they may answer, in terms of what the program
itself knows. The rest of the world may do anything that leaves this knowledge true. -/
namespace Xv6Threads

/-- What an instruction needs to be known, and what is known after each reply. -/
structure Rules (S : Sig) (L : Type) where
  pre : S.Instr → L → Prop
  post : (i : S.Instr) → L → S.Reply i → L → Prop

namespace Prog
variable {S : Sig} {L α β : Type} (R : Rules S L)

/-- The program keeps to the rules from `l` on and ends only with `Q`. -/
def meets : Prog S α → (α → L → Prop) → L → Prop
  | ret a, Q, l => Q a l
  | call i k, Q, l => R.pre i l ∧ ∀ r l', R.post i l r l' → (k r).meets Q l'

variable {R} {x : Prog S α} {Q Q' : α → L → Prop} {l : L}

lemma meets_mono (h : x.meets R Q l) (hQ : ∀ a l, Q a l → Q' a l) : x.meets R Q' l := by
  induction x generalizing l with
  | ret a => exact hQ a l h
  | call i k ih => exact ⟨h.1,fun r l' hl => ih r (h.2 r l' hl)⟩

variable {Q : β → L → Prop}

lemma meets_bind {f : α → Prog S β} (h : x.meets R (fun a l => (f a).meets R Q l) l) : (x >>= f).meets R Q l := by
  induction x generalizing l with
  | ret a => exact h
  | call i k ih => exact ⟨h.1,fun r l' hl => ih r (h.2 r l' hl)⟩

lemma meets_op {i : S.Instr} {f : S.Reply i → Prog S β} (hpre : R.pre i l)
    (h : ∀ r l', R.post i l r l' → (f r).meets R Q l') : (op i >>= f).meets R Q l := ⟨hpre,h⟩

lemma meets_last {i : S.Instr} {Q : S.Reply i → L → Prop} (hpre : R.pre i l) (h : ∀ r l', R.post i l r l' → Q r l') :
    (op i).meets R Q l := ⟨hpre,h⟩

end Prog
end Xv6Threads
