import Xv6Threads.Foundations.Gf2

/-! The generator behind the stochastic yields: `random_config` and `random_should_yield`. The update of `randstate` is
a map on 32-bit words that respects xor; its steps are counted in `Foundations.Gf2`. -/
namespace Xv6Threads.Random
open Function BitVec Finset XorLinear

/-- The fields of a `struct proc` that the generator uses. -/
structure Proc where
  pid : ℤ
  tgid : ℤ
  randstate : BitVec 32
  randpct : ℤ
  deriving DecidableEq

/-- `x^=x<<13; x^=x>>17; x^=x<<5` -/
def xorshift (x : BitVec 32) : BitVec 32 :=
  let x := x ^^^ x <<< 13
  let x := x ^^^ x >>> 17
  x ^^^ x <<< 5

/-- `p->randstate=x?x:1` -/
def next (x : BitVec 32) : BitVec 32 := if xorshift x = 0 then 1 else xorshift x

/-- `random_should_yield`, with what `myproc()` points to. -/
def randomShouldYield : Option Proc → Bool × Option Proc
  | none => (false,none)
  | some p =>
    if p.randpct ≤ 0 then (false,some p)
    else
      let p := {p with randstate := next p.randstate}
      (decide (((p.randstate.toNat%100 : ℕ) : ℤ) < p.randpct),some p)

/-- `random_config` by a process of thread group `tgid`, on the process table. -/
def randomConfig (tgid : ℤ) (seed : BitVec 32) (pct : ℤ) (table : List Proc) : List Proc :=
  let pct := if pct < 0 then 0 else pct
  let pct := if 100 < pct then 100 else pct
  let seed := if seed = 0 then 1 else seed
  table.map fun p =>
    if p.tgid = tgid then {p with randstate := seed ^^^ BitVec.ofInt 32 p.pid, randpct := pct} else p

/-- The process after `n` calls of `random_should_yield`. -/
def after (n : ℕ) (p : Proc) : Option Proc := (fun p => (randomShouldYield p).2)^[n] (some p)

/-- What call `n` returns, counted from 0. -/
def yields (p : Proc) (n : ℕ) : Bool := (randomShouldYield (after n p)).1

/-- The number of nonzero states. -/
def period : ℕ := 2^32-1

lemma period_pos : 0 < period := by
  rw [period]
  omega

variable {p : Proc}

lemma after_eq (hp : 0 < p.randpct) (n : ℕ) : after n p = some {p with randstate := next^[n] p.randstate} := by
  induction n with
  | zero => rfl
  | succ n ih =>
    rw [after,iterate_succ_apply',← after,ih,iterate_succ_apply']
    simp only [randomShouldYield,if_neg (not_le.mpr hp)]

lemma yields_eq (hp : 0 < p.randpct) (n : ℕ) :
    yields p n = decide ((((next^[n+1] p.randstate).toNat%100 : ℕ) : ℤ) < p.randpct) := by
  rw [yields,after_eq hp,iterate_succ_apply']
  simp only [randomShouldYield,if_neg (not_le.mpr hp)]

lemma after_idle (hp : p.randpct ≤ 0) (n : ℕ) : after n p = some p := by
  induction n with
  | zero => rfl
  | succ n ih =>
    rw [after,iterate_succ_apply',← after,ih]
    simp only [randomShouldYield,if_pos hp]

lemma yields_idle (hp : p.randpct ≤ 0) (n : ℕ) : yields p n = false := by
  rw [yields,after_idle hp]
  simp only [randomShouldYield,if_pos hp]

/-- `xorshift` on the number that a word stands for. -/
def shifts (x : ℕ) : ℕ :=
  let x := x ^^^ x <<< 13%2^32
  let x := x ^^^ x >>> 17
  x ^^^ x <<< 5%2^32

lemma toNat_xorshift (x : BitVec 32) : (xorshift x).toNat = shifts x.toNat := by
  simp only [xorshift,shifts,toNat_xor,toNat_shiftLeft,toNat_ushiftRight]

lemma shifts_linear : XorLinear shifts := (shiftLeft_mod 5 32).xor_self.comp
    ((shiftRight 17).xor_self.comp (shiftLeft_mod 13 32).xor_self)

variable {x : ℕ}

lemma shifts_lt (hx : x < 2^32) : shifts x < 2^32 := by
  have h := (xorshift (BitVec.ofNat 32 x)).isLt
  rwa [toNat_xorshift,toNat_ofNat,Nat.mod_eq_of_lt hx] at h

lemma jumps_from_one :
    ([2^32-1,(2^32-1)/3,(2^32-1)/5,(2^32-1)/17,(2^32-1)/257,(2^32-1)/65537].map fun m => jump 32 (columns shifts 32) m 1)
      = [1,0xc6d40f11,0x11da10b6,0x367ff0fe,0xf7b268ed,0x64d68d6e] := by decide +kernel

lemma prime_of_dvd_period {p : ℕ} (hp : p.Prime) (h : p ∣ period) : p = 3 ∨ p = 5 ∨ p = 17 ∨ p = 257 ∨ p = 65537 := by
  rw [show period = 3*5*17*257*65537 by decide +kernel] at h
  have hq : ∀ q, q.Prime → p ∣ q → p = q := fun q hq => (Nat.prime_dvd_prime_iff_eq hp hq).mp
  rcases hp.dvd_mul.mp h with h | h
  · rcases hp.dvd_mul.mp h with h | h
    · rcases hp.dvd_mul.mp h with h | h
      · rcases hp.dvd_mul.mp h with h | h
        · exact .inl (hq 3 (by norm_num) h)
        · exact .inr (.inl (hq 5 (by norm_num) h))
      · exact .inr (.inr (.inl (hq 17 (by norm_num) h)))
    · exact .inr (.inr (.inr (.inl (hq 257 (by norm_num) h))))
  · exact .inr (.inr (.inr (.inr (hq 65537 (by norm_num) h))))

lemma minimalPeriod_one : minimalPeriod shifts 1 = period := by
  have hj := jumps_from_one
  simp only [List.map_cons,List.map_nil,List.cons.injEq,and_true] at hj
  obtain ⟨h1,h3,h5,h17,h257,h65537⟩ := hj
  have hjump : ∀ m, m < 2^32 → shifts^[m] 1 = jump 32 (columns shifts 32) m 1 := fun m hm =>
    iterate_eq_jump shifts_linear (fun x => shifts_lt) hm (by norm_num)
  have hlt : period < 2^32 := by norm_num [period]
  have hne : ∀ q v, jump 32 (columns shifts 32) (period/q) 1 = v → v ≠ 1 → ¬IsPeriodicPt shifts (period/q) 1 := by
    intro q v hv hv1 hper
    apply hv1
    rw [← hv,← hjump _ (lt_of_le_of_lt (Nat.div_le_self _ _) hlt)]
    exact hper
  apply minimalPeriod_eq_of_primes
  · exact (hjump _ hlt).trans h1
  · intro p hp hd
    rcases prime_of_dvd_period hp hd with rfl | rfl | rfl | rfl | rfl
    · exact hne _ _ h3 (by norm_num)
    · exact hne _ _ h5 (by norm_num)
    · exact hne _ _ h17 (by norm_num)
    · exact hne _ _ h257 (by norm_num)
    · exact hne _ _ h65537 (by norm_num)

/-- The nonzero states. -/
def states : Finset ℕ := Finset.Icc 1 period

lemma card_states : states.card = period := by
  rw [states,Nat.card_Icc]
  rfl

lemma mem_states : x ∈ states ↔ x ≠ 0 ∧ x < 2^32 := by
  rw [states,mem_Icc,period]
  omega

lemma iterate_one_mem (i : ℕ) : shifts^[i] 1 ∈ states := by
  refine mem_states.mpr ⟨fun h0 => ?_,?_⟩
  · -- from 0 the map never leaves 0, but it comes back to 1
    have hback : shifts^[period*(i+1)] 1 = 1 :=
      (minimalPeriod_one ▸ isPeriodicPt_minimalPeriod shifts 1).mul_const (i+1)
    have hi : i ≤ period*(i+1) := by
      have : 1*(i+1) ≤ period*(i+1) := Nat.mul_le_mul_right _ period_pos
      omega
    rw [← Nat.sub_add_cancel hi,iterate_add_apply,h0,iterate_fixed shifts_linear.map_zero] at hback
    exact absurd hback (by norm_num)
  · induction i with
    | zero => norm_num
    | succ i ih =>
      rw [iterate_succ_apply']
      exact shifts_lt ih

lemma exists_iterate_one (hx : x ∈ states) : ∃ i, shifts^[i] 1 = x := by
  rw [← image_iterate_eq iterate_one_mem (minimalPeriod_one.trans card_states.symm)] at hx
  obtain ⟨i,_,rfl⟩ := mem_image.mp hx
  exact ⟨i,rfl⟩

lemma minimalPeriod_shifts (hx : x ∈ states) : minimalPeriod shifts x = period := by
  obtain ⟨i,rfl⟩ := exists_iterate_one hx
  rw [minimalPeriod_apply_iterate,minimalPeriod_one]
  rw [← minimalPeriod_pos_iff_mem_periodicPts,minimalPeriod_one]
  exact period_pos

lemma shifts_mem (hx : x ∈ states) : shifts x ∈ states := by
  obtain ⟨i,rfl⟩ := exists_iterate_one hx
  rw [← iterate_succ_apply' shifts]
  exact iterate_one_mem (i+1)

variable {x : BitVec 32}

lemma toNat_mem (hx : x ≠ 0) : x.toNat ∈ states := mem_states.mpr ⟨fun h => hx (eq_of_toNat_eq h),x.isLt⟩

lemma xorshift_eq_zero : xorshift x = 0 ↔ x = 0 := by
  refine ⟨fun h => ?_,fun h => by rw [h]; rfl⟩
  by_contra hx
  have := (mem_states.mp (shifts_mem (toNat_mem hx))).1
  rw [← toNat_xorshift,h] at this
  exact this rfl

lemma next_eq (hx : x ≠ 0) : next x = xorshift x := if_neg (mt xorshift_eq_zero.mp hx)

lemma next_ne_zero (x : BitVec 32) : next x ≠ 0 := by
  unfold next
  split_ifs with h
  · decide
  · exact h

lemma iterate_next_ne_zero (hx : x ≠ 0) (n : ℕ) : next^[n] x ≠ 0 := by
  rcases n with _ | n
  · exact hx
  · rw [iterate_succ_apply']
    exact next_ne_zero _

lemma toNat_iterate_next (hx : x ≠ 0) (n : ℕ) : (next^[n] x).toNat = shifts^[n] x.toNat := by
  induction n with
  | zero => rfl
  | succ n ih =>
    rw [iterate_succ_apply',iterate_succ_apply',next_eq (iterate_next_ne_zero hx n),toNat_xorshift,ih]

lemma minimalPeriod_next (hx : x ≠ 0) : minimalPeriod next x = period := by
  rw [← minimalPeriod_shifts (toNat_mem hx),minimalPeriod_eq_minimalPeriod_iff]
  intro n
  rw [IsPeriodicPt,IsPeriodicPt,IsFixedPt,IsFixedPt,← toNat_iterate_next hx n]
  exact toNat_inj.symm

lemma iterate_period (hx : x ≠ 0) : next^[period] x = x := by
  have h := isPeriodicPt_minimalPeriod next x
  rwa [minimalPeriod_next hx] at h

lemma next_injOn : Set.InjOn next {x | x ≠ 0} := by
  intro x hx y hy h
  rw [← iterate_period hx,← iterate_period hy,show period = 2^32-2+1 from rfl,iterate_succ_apply,iterate_succ_apply,h]

lemma next_bijOn : Set.BijOn next {x | x ≠ 0} {x | x ≠ 0} := by
  refine ⟨fun x _ => next_ne_zero x,next_injOn,fun x hx => ?_⟩
  refine ⟨next^[2^32-2] x,iterate_next_ne_zero hx _,?_⟩
  rw [← iterate_succ_apply' next]
  exact iterate_period hx

lemma card_yields (hs : p.randstate ≠ 0) (k : ℕ) : ((range period).filter fun i => yields p (k+i) = true).card =
      ((Finset.Icc 1 (2^32-1)).filter fun x => ((x%100 : ℕ) : ℤ) < p.randpct).card := by
  rcases le_or_gt p.randpct 0 with hp | hp
  · -- no call draws, and no remainder is below the percentage
    rw [filter_false_of_mem,filter_false_of_mem]
    · intro x _
      omega
    · intro i _
      rw [yields_idle hp]
      exact Bool.false_ne_true
  · -- the states of the calls are one turn from the state after the first of them
    have hx := iterate_next_ne_zero hs (k+1)
    have hmem : ∀ i, shifts^[i] (next^[k+1] p.randstate).toNat ∈ states := by
      intro i
      rw [← toNat_iterate_next hx]
      exact toNat_mem (iterate_next_ne_zero hx i)
    have hcard := card_filter_iterate hmem ((minimalPeriod_shifts (toNat_mem hx)).trans card_states.symm)
      fun x => ((x%100 : ℕ) : ℤ) < p.randpct
    rw [card_states] at hcard
    rw [show Finset.Icc 1 (2^32-1) = states from rfl,← hcard]
    refine congrArg card (filter_congr fun i _ => ?_)
    rw [yields_eq hp,decide_eq_true_iff,← toNat_iterate_next hx,← iterate_add_apply,show i+(k+1) = k+i+1 by omega]

/-- The generator has full period: the special case is for state 0 alone, the update permutes the nonzero states and
takes each of them through all of them, so the yields among any `2^32-1` draws are as many as numbers below the
percentage. -/
theorem generator_full_period : (∀ x, xorshift x = 0 ↔ x = 0) ∧ Set.BijOn next {x | x ≠ 0} {x | x ≠ 0} ∧
    (∀ x, x ≠ 0 → minimalPeriod next x = 2^32-1) ∧ ∀ p : Proc, p.randstate ≠ 0 → ∀ k,
      ((Finset.range (2^32-1)).filter fun i => yields p (k+i) = true).card =
        ((Finset.Icc 1 (2^32-1)).filter fun x => ((x%100 : ℕ) : ℤ) < p.randpct).card :=
  ⟨fun _ => xorshift_eq_zero,next_bijOn,fun _ => minimalPeriod_next,fun _ => card_yields⟩

end Xv6Threads.Random
