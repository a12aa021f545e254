import Mathlib

/-! Maps on words that respect xor, kept as the list of their values at the powers of two. A list of this kind is
squared column by column, so a great number of steps of such a map is computed in a few squarings. The second half says
when the orbit of a point of any map goes through a whole finite set. -/
namespace Xv6Threads
open Function List Nat

/-- A map on natural numbers, read as words of bits, that respects xor. -/
def XorLinear (f : ℕ → ℕ) : Prop := ∀ x y, f (x ^^^ y) = f x ^^^ f y

namespace XorLinear
variable {f g : ℕ → ℕ}

lemma map_zero (hf : XorLinear f) : f 0 = 0 := by
  have h := hf 0 0
  rwa [Nat.xor_self,Nat.xor_self] at h

lemma comp (hf : XorLinear f) (hg : XorLinear g) : XorLinear (f ∘ g) := by
  intro x y
  rw [comp_apply,hg,hf,comp_apply,comp_apply]

lemma xor_self (hf : XorLinear f) : XorLinear fun x => x ^^^ f x := by
  intro x y
  simp only [hf x y]
  ac_rfl

lemma shiftLeft_mod (i w : ℕ) : XorLinear fun x => x <<< i % 2^w := by
  intro x y
  simp only [shiftLeft_xor_distrib,xor_mod_two_pow]

lemma shiftRight (i : ℕ) : XorLinear fun x => x >>> i := by
  intro x y
  simp only [shiftRight_xor_distrib]

lemma double (hf : XorLinear f) : XorLinear fun x => f (2*x) := by
  intro x y
  have h : 2*(x ^^^ y) = 2*x ^^^ 2*y := by
    have := shiftLeft_xor_distrib (i := 1) (a := x) (b := y)
    simpa only [shiftLeft_eq,pow_one,mul_comm] using this
  simp only [h,hf (2*x)]

end XorLinear

/-- The map whose values at `1, 2, 4, …` are the columns. -/
def ofColumns : List ℕ → ℕ → ℕ
  | [], _ => 0
  | c :: cs, x => x%2*c ^^^ ofColumns cs (x/2)

/-- The values of a map at the first `w` powers of two. -/
def columns (f : ℕ → ℕ) (w : ℕ) : List ℕ := (List.range w).map fun i => f (2^i)

lemma bit_mul_xor (x y c : ℕ) : (x ^^^ y)%2*c = x%2*c ^^^ y%2*c := by
  rw [xor_mod_two_eq,add_mod]
  rcases mod_two_eq_zero_or_one x with h | h <;> rcases mod_two_eq_zero_or_one y with h' | h' <;> simp [h,h']

lemma xorLinear_ofColumns (cs : List ℕ) : XorLinear (ofColumns cs) := by
  induction cs with
  | nil => exact fun _ _ => (xor_self 0).symm
  | cons c cs ih =>
    intro x y
    rw [ofColumns,ofColumns,ofColumns,bit_mul_xor,xor_div_two,ih]
    ac_rfl

lemma columns_succ (f : ℕ → ℕ) (w : ℕ) : columns f (w+1) = f 1 :: columns (fun x => f (2*x)) w := by
  simp only [columns,range_succ_eq_map,map_cons,map_map,pow_zero]
  congr 1
  apply map_congr_left
  intro i _
  simp only [comp_apply,succ_eq_add_one,pow_succ,mul_comm]

/-- A map that respects xor is given by its columns. -/
lemma ofColumns_columns {f : ℕ → ℕ} (hf : XorLinear f) {w x : ℕ} (hx : x < 2^w) : ofColumns (columns f w) x = f x := by
  induction w generalizing f x with
  | zero =>
    obtain rfl : x = 0 := by simpa using hx
    exact hf.map_zero.symm
  | succ w ih =>
    have hb : x%2*f 1 = f (x%2) := by
      rcases mod_two_eq_zero_or_one x with h | h <;> simp [h,hf.map_zero]
    have hs : x%2 ^^^ 2*(x/2) = x := by
      have hd : (x%2 ^^^ 2*(x/2))/2 = x/2 := by
        rw [xor_div_two,show x%2/2 = 0 by omega,show 2*(x/2)/2 = x/2 by omega,zero_xor]
      have hm : (x%2 ^^^ 2*(x/2))%2 = x%2 := by
        rw [xor_mod_two_eq]
        omega
      omega
    rw [columns_succ,ofColumns,ih hf.double (by omega),hb,← hf,hs]

/-- The composition of two maps, column by column. -/
lemma ofColumns_map (cs ds : List ℕ) (x : ℕ) : ofColumns (ds.map (ofColumns cs)) x = ofColumns cs (ofColumns ds x) := by
  induction ds generalizing x with
  | nil => exact (xorLinear_ofColumns cs).map_zero.symm
  | cons d ds ih =>
    rw [map_cons,ofColumns,ofColumns,ih,xorLinear_ofColumns cs]
    rcases mod_two_eq_zero_or_one x with h | h <;> simp [h,(xorLinear_ofColumns cs).map_zero]

/-- `m` steps of a map given by its columns, for `m` of `k` bits: one squaring for each bit. -/
def jump : ℕ → List ℕ → ℕ → ℕ → ℕ
  | 0, _, _, x => x
  | k+1, cs, m, x => jump k (cs.map (ofColumns cs)) (m/2) (if m%2 = 1 then ofColumns cs x else x)

lemma jump_eq {k m : ℕ} (hm : m < 2^k) (cs : List ℕ) (x : ℕ) : jump k cs m x = (ofColumns cs)^[m] x := by
  induction k generalizing m cs x with
  | zero =>
    obtain rfl : m = 0 := by simpa using hm
    rfl
  | succ k ih =>
    have h2 : ofColumns (cs.map (ofColumns cs)) = (ofColumns cs)^[2] := funext (ofColumns_map cs cs)
    rw [jump,ih (by omega),h2,← iterate_mul]
    rcases mod_two_eq_zero_or_one m with h | h
    · rw [if_neg (by omega),show 2*(m/2) = m by omega]
    · rw [if_pos h,← iterate_succ_apply,show (2*(m/2)).succ = m by omega]

/-- `m` steps of a map on words of `w` bits that respects xor. -/
lemma iterate_eq_jump {f : ℕ → ℕ} (hf : XorLinear f) {w : ℕ} (hw : ∀ x, x < 2^w → f x < 2^w) {k m x : ℕ}
    (hm : m < 2^k) (hx : x < 2^w) : f^[m] x = jump k (columns f w) m x := by
  rw [jump_eq hm]
  clear hm
  induction m generalizing x with
  | zero => rfl
  | succ m ih => rw [iterate_succ_apply,iterate_succ_apply,ofColumns_columns hf hx,ih (hw x hx)]

section
variable {α : Type*} {f : α → α} {x : α}

/-- A period that no prime divisor shortens is the least one. -/
lemma minimalPeriod_eq_of_primes {n : ℕ} (h : IsPeriodicPt f n x)
    (hp : ∀ p, p.Prime → p ∣ n → ¬IsPeriodicPt f (n/p) x) : minimalPeriod f x = n := by
  obtain ⟨c,hc⟩ := h.minimalPeriod_dvd
  by_contra hne
  have hc1 : c ≠ 1 := by
    rintro rfl
    exact hne (by rw [hc,mul_one])
  obtain ⟨p,hpp,d,rfl⟩ := exists_prime_and_dvd hc1
  apply hp p hpp ⟨minimalPeriod f x*d,by rw [hc]; ac_rfl⟩
  have hd : n/p = minimalPeriod f x*d := by
    rw [hc,mul_left_comm]
    exact Nat.mul_div_cancel_left _ hpp.pos
  rw [hd]
  exact (isPeriodicPt_minimalPeriod f x).mul_const d

variable [DecidableEq α] {s : Finset α} (hs : ∀ i, f^[i] x ∈ s) (hc : minimalPeriod f x = s.card)
include hs hc

/-- An orbit inside a set that has no more points than the orbit is the whole set, from wherever it is counted. -/
lemma image_iterate_eq : (Finset.range s.card).image (fun i => f^[i] x) = s := by
  apply Finset.eq_of_subset_of_card_le
  · intro y hy
    obtain ⟨i,_,rfl⟩ := Finset.mem_image.mp hy
    exact hs i
  · rw [Finset.card_image_of_injOn,Finset.card_range]
    intro i hi j hj hij
    apply iterate_injOn_Iio_minimalPeriod (f := f) (x := x) _ _ hij
    · simpa [hc] using hi
    · simpa [hc] using hj

/-- One full turn meets every property as often as the set has points with it. -/
lemma card_filter_iterate
    (q : α → Prop) [DecidablePred q] :
    ((Finset.range s.card).filter fun i => q (f^[i] x)).card = (s.filter q).card := by
  rw [← Finset.card_image_of_injOn (f := fun i => f^[i] x)]
  · congr 1
    conv_rhs => rw [← image_iterate_eq hs hc]
    rw [Finset.filter_image]
  · intro i hi j hj hij
    apply iterate_injOn_Iio_minimalPeriod (f := f) (x := x) _ _ hij
    · simpa [hc] using (Finset.mem_filter.mp hi).1
    · simpa [hc] using (Finset.mem_filter.mp hj).1

end

end Xv6Threads
