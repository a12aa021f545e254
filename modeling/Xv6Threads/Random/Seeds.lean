import Xv6Threads.Random.Generator

/-! Two seeds for one process. The state is the seed xored with the pid, so a seed equal to the pid gives state 0, and
the special case for 0 joins its stream to that of one other seed. -/
namespace Xv6Threads.Random
open Function

/-- The state before 1. -/
def beforeOne : BitVec 32 := 0xf2b58529

lemma next_beforeOne : next beforeOne = 1 := by decide

lemma next_eq_one {x : BitVec 32} : next x = 1 ↔ x = 0 ∨ x = beforeOne := by
  constructor
  · intro h
    by_contra hx
    rw [not_or] at hx
    exact hx.2 (next_injOn hx.1 (by decide : beforeOne ≠ 0) (h.trans next_beforeOne.symm))
  · rintro (rfl | rfl)
    · decide
    · exact next_beforeOne

/-- The pairs of states that one step takes to the same state. -/
def Joined (x y : BitVec 32) : Prop := (x = 0 ∧ y = beforeOne) ∨ (y = 0 ∧ x = beforeOne)

lemma next_inj {x y : BitVec 32} (h : next x = next y) : x = y ∨ Joined x y := by
  by_cases hx : x = 0
  · subst hx
    rcases next_eq_one.mp (h.symm.trans (by decide)) with hy | hy
    · exact .inl hy.symm
    · exact .inr (.inl ⟨rfl,hy⟩)
  · by_cases hy : y = 0
    · subst hy
      rcases next_eq_one.mp (h.trans (by decide)) with hx' | hx'
      · exact absurd hx' hx
      · exact .inr (.inr ⟨rfl,hx'⟩)
    · exact .inl (next_injOn hx hy h)

lemma iterate_next_ne {x y : BitVec 32} (hne : x ≠ y) (hj : ¬Joined x y) (n : ℕ) : next^[n] x ≠ next^[n] y := by
  rcases n with _ | n
  · exact hne
  have h1 : next x ≠ next y := fun h => (next_inj h).elim hne hj
  rw [iterate_succ_apply,iterate_succ_apply]
  induction n with
  | zero => exact h1
  | succ n ih =>
    rw [iterate_succ_apply',iterate_succ_apply']
    exact fun h => ih (next_injOn (iterate_next_ne_zero (next_ne_zero x) n) (iterate_next_ne_zero (next_ne_zero y) n) h)

/-- What `random_config` makes of a process of the caller's group, for a seed and a percentage that it takes as they
are. -/
def configured (p : Proc) (seed : BitVec 32) (pct : ℤ) : Proc :=
  {p with randstate := seed ^^^ BitVec.ofInt 32 p.pid, randpct := pct}

lemma randomConfig_getElem? {table : List Proc} {i : ℕ} {p : Proc} (hi : table[i]? = some p) {seed : BitVec 32}
    (hs : seed ≠ 0) {pct : ℤ} (h0 : 0 ≤ pct) (h100 : pct ≤ 100) :
    (randomConfig p.tgid seed pct table)[i]? = some (configured p seed pct) := by
  simp only [randomConfig,List.getElem?_map,hi,Option.map_some,if_neg (not_lt.mpr h0),if_neg (not_lt.mpr h100),if_neg hs,
    if_true,configured]

lemma next_eq_of_joined {x y : BitVec 32} (h : Joined x y) : next x = next y := by
  rcases h with ⟨rfl,rfl⟩ | ⟨rfl,rfl⟩ <;> decide

/-- Different seeds never lead to equal states, unless one of them is the pid and the other the pid xored with the state
before 1. With these two the states are equal after the first call. -/
theorem seeds_stay_apart (table : List Proc) (i : ℕ) (p : Proc) (hp : table[i]? = some p) (pct : ℤ) (h1 : 1 ≤ pct)
    (h100 : pct ≤ 100) (s t : BitVec 32) (hs : s ≠ 0) (ht : t ≠ 0) (hst : s ≠ t) :
    (∀ n, ∃ q r, (randomConfig p.tgid s pct table)[i]? = some q ∧ (randomConfig p.tgid t pct table)[i]? = some r ∧
      ∃ q' r', after n q = some q' ∧ after n r = some r' ∧ q'.randstate ≠ r'.randstate) ↔
    ¬Joined (s ^^^ BitVec.ofInt 32 p.pid) (t ^^^ BitVec.ofInt 32 p.pid) := by
  have hq := randomConfig_getElem? hp hs (by omega) h100
  have hr := randomConfig_getElem? hp ht (by omega) h100
  have hpos : 0 < pct := by omega
  constructor
  · intro h hj
    obtain ⟨q,r,hq',hr',q1,r1,hq1,hr1,hne⟩ := h 1
    cases hq.symm.trans hq'
    cases hr.symm.trans hr'
    cases (after_eq hpos 1).symm.trans hq1
    cases (after_eq hpos 1).symm.trans hr1
    exact hne (next_eq_of_joined hj)
  · intro hj n
    refine ⟨_,_,hq,hr,_,_,after_eq hpos n,after_eq hpos n,?_⟩
    apply iterate_next_ne _ hj
    intro h
    exact hst ((BitVec.xor_left_inj _).mp h)

theorem seeds_stay_apart_pid_three : ∃ q r, (randomConfig 3 1 50 [⟨3,3,3,0⟩])[0]? = some q ∧
    (randomConfig 3 2 50 [⟨3,3,3,0⟩])[0]? = some r ∧
      ∃ q' r', after 5 q = some q' ∧ after 5 r = some r' ∧ q'.randstate ≠ r'.randstate :=
  (seeds_stay_apart [⟨3,3,3,0⟩] 0 ⟨3,3,3,0⟩ rfl 50 (by decide) (by decide) 1 2 (by decide) (by decide)
    (by decide)).mpr (by unfold Joined; decide) 5

/-- Process 3 with seed 3 and with the seed `3 ^ 0xf2b58529` is in state 1 after the first call. -/
theorem seed_of_pid_joins : (randomConfig 3 3 50 [⟨3,3,3,0⟩]).map (after 1) = [some ⟨3,3,1,50⟩] ∧
      (randomConfig 3 0xf2b5852a 50 [⟨3,3,3,0⟩]).map (after 1) = [some ⟨3,3,1,50⟩] := by
  decide

end Xv6Threads.Random
