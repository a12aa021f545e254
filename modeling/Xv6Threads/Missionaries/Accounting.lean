import Xv6Threads.Missionaries.Invariant

/-! How the waiting counts, the permits, the passengers between `sem_wait_u` and `boarded++`
and the passengers aboard add up, statement by statement of the holder of the mutex. -/
namespace Xv6Threads.Missionaries
open Function Option Pc State Caller Int
variable {nm nc : ℕ}

/-- Counted in `waiting_m` or `waiting_c`, or owed a permit, and still without one. -/
def Pc.ashore : Pc → ℕ
  | .announceArrival | .form .arrive _ | .unlock | .semWait => 1
  | _ => 0

/-- Holding a permit, and not yet counted in `boarded`. -/
def Pc.underway : Pc → ℕ
  | .boardLock | .boardInc => 1
  | _ => 0

/-- The third passenger of a boat, until it gives the boat back. -/
def Pc.rowing : Pc → ℕ
  | .boardUnlock (some _) | .row _ | .rowLock | .resetBusy => 1
  | _ => 0

/-- Restrict a weight to the missionaries. -/
def onM (w : Pc → ℕ) : Passenger nm nc → Pc → ℕ
  | .inl _, c => w c
  | .inr _, _ => 0

/-- Restrict a weight to the cannibals. -/
def onC (w : Pc → ℕ) : Passenger nm nc → Pc → ℕ
  | .inl _, _ => 0
  | .inr _, c => w c

/-- The head counts of a state. -/
@[ext] structure Tally where
  ashoreM : ℕ
  ashoreC : ℕ
  underwayM : ℕ
  underwayC : ℕ
  aboardM : ℕ
  aboardC : ℕ
  rowing : ℕ

def isM : Passenger nm nc → Bool
  | .inl _ => true
  | .inr _ => false

def State.tally (s : State nm nc) : Tally where
  ashoreM := total (onM Pc.ashore) s.pc
  ashoreC := total (onC Pc.ashore) s.pc
  underwayM := total (onM Pc.underway) s.pc
  underwayC := total (onC Pc.underway) s.pc
  aboardM := (aboard s.hist).countP isM
  aboardC := (aboard s.hist).countP (fun p => !isM p)
  rowing := total (fun _ => Pc.rowing) s.pc

/-- Permits taken out of `waiting_m` and not yet posted. -/
def pendM (b : ℤ) : Option Pc → ℤ
  | some (.form _ .subC) | some (.form _ .setBusy) | some (.form _ .zeroBoarded)
  | some (.form _ .incNo) | some (.form _ .announce) => b
  | some (.form _ (.postM i)) => b-i
  | _ => 0

/-- Permits taken out of `waiting_c` and not yet posted. -/
def pendC (b : ℤ) : Option Pc → ℤ
  | some (.form _ .setBusy) | some (.form _ .zeroBoarded)
  | some (.form _ .incNo) | some (.form _ .announce) | some (.form _ (.postM _)) => b
  | some (.form _ (.postC i)) => b-i
  | _ => 0

/-- Missionary permits of the selected boat that are still to be posted. -/
def dueM (b : ℤ) : Option Pc → ℤ
  | some (.form _ .subM) => b
  | k => pendM b k

/-- Cannibal permits of the selected boat that are still to be posted. -/
def dueC (b : ℤ) : Option Pc → ℤ
  | some (.form _ .subM) | some (.form _ .subC) => b
  | k => pendC b k

/-- A boat has been selected although `boat_busy` is still clear. -/
def selecting : Option Pc → Bool
  | some (.form _ .subM) | some (.form _ .subC) | some (.form _ .setBusy) => true
  | _ => false

/-- Between `boarded++` and the test of `boarded`. -/
def testing : Option Pc → Bool
  | some .boardPrint | some .boardTest => true
  | _ => false

/-- A boat has been selected and not yet given back. -/
def Out (k : Option Pc) (v : Vars nm nc) : Prop := v.boatBusy = 1 ∨ selecting k = true

/-- The loads that `try_form_boat` can choose. -/
def Legal (m c : ℤ) : Prop := (m = 3 ∧ c = 0) ∨ (m = 0 ∧ c = 3) ∨ (m = 2 ∧ c = 1)

lemma Legal.bounds {m c : ℤ} (h : Legal m c) : 0 ≤ m ∧ 0 ≤ c ∧ m+c = 3 := by
  rcases h with h | h | h <;> omega

/-- What a statement of `try_form_boat` says about the variables. -/
def FormPc.here (v : Vars nm nc) (k : Caller) : FormPc → Prop
  | .testBusy => k = .row → v.boatBusy = 0
  | .clear | .setBusy => v.boatBusy = 0
  | .choose => v.boatBusy = 0 ∧ v.boatM = 0 ∧ v.boatC = 0
  | .subM => v.boatBusy = 0 ∧ v.boatM ≤ v.waitingM ∧ v.boatC ≤ v.waitingC
  | .subC => v.boatBusy = 0 ∧ v.boatC ≤ v.waitingC
  | .zeroBoarded | .incNo | .announce => v.boatBusy = 1
  | .postM i => v.boatBusy = 1 ∧ (i : ℤ) ≤ v.boatM
  | .postC i => v.boatBusy = 1 ∧ (i : ℤ) ≤ v.boatC

/-- What the holder's own statement says about the variables. -/
def Local (v : Vars nm nc) : Option Pc → Prop
  | some (.form k f) => f.here v k
  | some .resetBoarded | some .resetBoat => v.boatBusy = 0
  | some .boardPrint | some .boardTest | some (.boardUnlock _) | some .resetBusy => v.boatBusy = 1
  | _ => True

/-- The accounting invariant, for the holder's statement `k`, the variables and the counts. -/
structure Acct (k : Option Pc) (v : Vars nm nc) (n : Tally) : Prop where
  busy : v.boatBusy = 0 ∨ v.boatBusy = 1
  waitingM : 0 ≤ v.waitingM
  waitingC : 0 ≤ v.waitingC
  ashoreM : (n.ashoreM : ℤ) = v.waitingM+v.mpermit+pendM v.boatM k
  ashoreC : (n.ashoreC : ℤ) = v.waitingC+v.cpermit+pendC v.boatC k
  out : Out k v → Legal v.boatM v.boatC ∧ v.boarded = n.aboardM+n.aboardC ∧
    v.mpermit+dueM v.boatM k+n.underwayM+n.aboardM = v.boatM ∧
    v.cpermit+dueC v.boatC k+n.underwayC+n.aboardC = v.boatC ∧
    n.rowing = if v.boarded = 3 ∧ testing k = false then 1 else 0
  home : ¬ Out k v → v.mpermit = 0 ∧ v.cpermit = 0 ∧ n.underwayM = 0 ∧ n.underwayC = 0 ∧
    n.rowing = 0 ∧ (v.boarded = 0 ∨ k = some .resetBoarded)
  here : Local v k

open Acct

section
variable {v : Vars nm nc} {n : Tally} {k : Caller}

attribute [local simp] pendM pendC dueM dueC selecting testing Out Local FormPc.here ret

/-- Places at which nothing is pending, due, being selected or being tested. -/
def neutral : Option Pc → Bool
  | some (.form _ .testBusy) | some (.form _ .clear) | some (.form _ .choose) => true
  | some (.form _ _) | some .boardPrint | some .boardTest | some .resetBoarded => false
  | _ => true

lemma neutral_spec {a : Option Pc} (h : neutral a = true) (x : ℤ) :
    pendM x a = 0 ∧ pendC x a = 0 ∧ dueM x a = 0 ∧ dueC x a = 0 ∧ selecting a = false ∧
      testing a = false ∧ a ≠ some .resetBoarded := by
  rcases a with _ | c
  · simp
  · cases c with
    | form k f => cases f <;> simp [neutral] at h ⊢
    | _ => simp [neutral] at h ⊢

lemma acct_neutral {a b : Option Pc} (h : Acct a v n) (ha : neutral a = true) (hb : neutral b = true)
    (hl : Local v b) : Acct b v n := by
  obtain ⟨i1,i2,i3,i4,i5,i6,i7,-⟩ := h
  obtain ⟨a1,-,a3,-,a5,a6,a7⟩ := neutral_spec ha v.boatM
  obtain ⟨-,a2,-,a4,-⟩ := neutral_spec ha v.boatC
  obtain ⟨b1,-,b3,-,b5,b6,b7⟩ := neutral_spec hb v.boatM
  obtain ⟨-,b2,-,b4,-⟩ := neutral_spec hb v.boatC
  refine ⟨i1,i2,i3,?_,?_,?_,?_,hl⟩
  · rw [b1]; rwa [a1] at i4
  · rw [b2]; rwa [a2] at i5
  · rw [Out,b3,b4,b5,b6]; rwa [Out,a3,a4,a5,a6] at i6
  · intro ho
    obtain ⟨h1,h2,h3,h4,h5,h6⟩ := i7 (by rw [Out,a5]; rwa [Out,b5] at ho)
    exact ⟨h1,h2,h3,h4,h5,.inl (h6.resolve_right a7)⟩

lemma acct_testBusy (h : Acct (some (.form k .testBusy)) v n) :
    Acct (some (if v.boatBusy ≠ 0 then k.ret else .form k .clear)) v n := by
  split_ifs with hb
  · cases k <;> exact acct_neutral h rfl rfl trivial
  · exact acct_neutral h rfl rfl (not_not.mp hb)

lemma acct_clear (h : Acct (some (.form k .clear)) v n) :
    Acct (some (.form k .choose)) {v with boatM := 0, boatC := 0} n := by
  have hb : v.boatBusy = 0 := h.here
  have ho : ¬ Out (some (.form k .clear)) v := by simp [hb]
  obtain ⟨h1,h2,h3,h4,h5,h6⟩ := h.home ho
  exact ⟨h.busy,h.waitingM,h.waitingC,h.ashoreM,h.ashoreC,fun hout => (ho hout).elim,
    fun _ => ⟨h1,h2,h3,h4,h5,.inl (h6.resolve_right nofun)⟩,hb,rfl,rfl⟩

lemma acct_choose {m c : ℤ} (h : Acct (some (.form k .choose)) v n) (hl : Legal m c)
    (hm : m ≤ v.waitingM) (hc : c ≤ v.waitingC) : Acct (some (.form k .subM)) {v with boatM := m, boatC := c}
      {n with aboardM := 0, aboardC := 0} := by
  have hb : v.boatBusy = 0 := h.here.1
  obtain ⟨h1,h2,h3,h4,h5,h6⟩ := h.home (by simp [hb])
  constructor
  · exact h.busy
  · exact h.waitingM
  · exact h.waitingC
  · simpa using h.ashoreM
  · simpa using h.ashoreC
  · intro _
    simp only [some.injEq,reduceCtorEq,or_false] at h6
    simp [h1,h2,h3,h4,h5,h6,hl]
  · intro ho; exact (ho (.inr rfl)).elim
  · exact ⟨hb,hm,hc⟩

lemma acct_noBoat (h : Acct (some (.form k .choose)) v n) : Acct (some k.ret) v n := by
  cases k <;> exact acct_neutral h rfl rfl trivial

lemma acct_subM (h : Acct (some (.form k .subM)) v n) :
    Acct (some (.form k .subC)) {v with waitingM := v.waitingM-v.boatM} n := by
  obtain ⟨hb,hm,hc⟩ := h.here
  have hM := h.ashoreM
  refine ⟨h.busy,sub_nonneg.mpr hm,h.waitingC,?_,h.ashoreC,fun _ => h.out (.inr rfl),
    fun ho => (ho (.inr rfl)).elim,hb,hc⟩
  simp only [pendM] at hM ⊢
  omega

lemma acct_subC (h : Acct (some (.form k .subC)) v n) :
    Acct (some (.form k .setBusy)) {v with waitingC := v.waitingC-v.boatC} n := by
  obtain ⟨hb,hc⟩ := h.here
  have hC := h.ashoreC
  refine ⟨h.busy,h.waitingM,sub_nonneg.mpr hc,h.ashoreM,?_,fun _ => h.out (.inr rfl), fun ho => (ho (.inr rfl)).elim,hb⟩
  simp only [pendC] at hC ⊢
  omega

lemma acct_setBusy (h : Acct (some (.form k .setBusy)) v n) :
    Acct (some (.form k .zeroBoarded)) {v with boatBusy := 1} n :=
  ⟨.inr rfl,h.waitingM,h.waitingC,h.ashoreM,h.ashoreC,fun _ => h.out (.inr rfl), fun ho => (ho (.inl rfl)).elim,rfl⟩

lemma acct_zeroBoarded (h : Acct (some (.form k .zeroBoarded)) v n) :
    Acct (some (.form k .incNo)) {v with boarded := 0} n := by
  have hb : v.boatBusy = 1 := h.here
  obtain ⟨-,hbd,hM,hC,-⟩ := h.out (.inl hb)
  have hz : v.boarded = 0 := by simp only [dueM,pendM,dueC,pendC] at hM hC; omega
  have hv : {v with boarded := 0} = v := by rw [← hz]
  rw [hv]
  exact ⟨h.busy,h.waitingM,h.waitingC,h.ashoreM,h.ashoreC,fun _ => h.out (.inl hb), fun ho => (ho (.inl hb)).elim,hb⟩

lemma acct_incNo (h : Acct (some (.form k .incNo)) v n) :
    Acct (some (.form k .announce)) {v with boatno := v.boatno+1} n :=
  ⟨h.busy,h.waitingM,h.waitingC,h.ashoreM,h.ashoreC,fun _ => h.out (.inl h.here),
    fun ho => (ho (.inl h.here)).elim,h.here⟩

lemma acct_announce (h : Acct (some (.form k .announce)) v n) : Acct (some (.form k (.postM 0))) v n := by
  have hb : v.boatBusy = 1 := h.here
  obtain ⟨h1,h2,h3,h4,h5⟩ := h.out (.inl hb)
  have hp : pendM v.boatM (some (.form k .announce)) = pendM v.boatM (some (.form k (.postM 0))) := (sub_zero _).symm
  refine ⟨h.busy,h.waitingM,h.waitingC,hp ▸ h.ashoreM,h.ashoreC,fun _ => ⟨h1,h2,?_,h4,h5⟩,
    fun hn => (hn (.inl hb)).elim,hb,h1.bounds.1⟩
  simpa only [dueM,hp] using h3

variable {i : ℕ}

lemma acct_postM (h : Acct (some (.form k (.postM i))) v n) (hi : (i : ℤ) < v.boatM) :
    Acct (some (.form k (.postM (i+1)))) {v with mpermit := v.mpermit+1} n := by
  obtain ⟨i1,i2,i3,i4,i5,i6,i7,i8⟩ := h
  have hb : v.boatBusy = 1 := i8.1
  constructor
  · exact i1
  · exact i2
  · exact i3
  · simp only [pendM] at i4 ⊢; push_cast; omega
  · exact i5
  · intro _
    obtain ⟨h1,h2,h3,h4,h5⟩ := i6 (.inl hb)
    refine ⟨h1,h2,?_,h4,h5⟩
    simp only [dueM,pendM] at h3 ⊢; push_cast; omega
  · intro ho; exact (ho (.inl hb)).elim
  · exact ⟨hb,by push_cast; omega⟩

lemma acct_postM_end (h : Acct (some (.form k (.postM i))) v n) (hi : ¬ (i : ℤ) < v.boatM) :
    Acct (some (.form k (.postC 0))) v n := by
  obtain ⟨i1,i2,i3,i4,i5,i6,i7,i8⟩ := h
  have hb : v.boatBusy = 1 := i8.1
  have he : (i : ℤ) = v.boatM := by have := i8.2; omega
  obtain ⟨h1,h2,h3,h4,h5⟩ := i6 (.inl hb)
  simp only [dueM,dueC,pendM,pendC] at i4 h3 h4
  refine ⟨i1,i2,i3,?_,?_,fun _ => ⟨h1,h2,?_,?_,h5⟩,fun hn => (hn (.inl hb)).elim,hb,h1.bounds.2.1⟩
  · simp only [pendM]
    omega
  · simpa only [pendC,Nat.cast_zero,sub_zero] using i5
  · simp only [dueM,pendM]
    omega
  · simpa only [dueC,pendC,Nat.cast_zero,sub_zero] using h4

lemma acct_postC (h : Acct (some (.form k (.postC i))) v n) (hi : (i : ℤ) < v.boatC) :
    Acct (some (.form k (.postC (i+1)))) {v with cpermit := v.cpermit+1} n := by
  obtain ⟨i1,i2,i3,i4,i5,i6,i7,i8⟩ := h
  have hb : v.boatBusy = 1 := i8.1
  constructor
  · exact i1
  · exact i2
  · exact i3
  · exact i4
  · simp only [pendC] at i5 ⊢; push_cast; omega
  · intro _
    obtain ⟨h1,h2,h3,h4,h5⟩ := i6 (.inl hb)
    refine ⟨h1,h2,h3,?_,h5⟩
    simp only [dueC,pendC] at h4 ⊢; push_cast; omega
  · intro ho; exact (ho (.inl hb)).elim
  · exact ⟨hb,by push_cast; omega⟩

lemma acct_postC_end (h : Acct (some (.form k (.postC i))) v n) (hi : ¬ (i : ℤ) < v.boatC) : Acct (some k.ret) v n := by
  obtain ⟨i1,i2,i3,i4,i5,i6,i7,i8⟩ := h
  have hb : v.boatBusy = 1 := i8.1
  have he : (i : ℤ) = v.boatC := by have := i8.2; omega
  obtain ⟨h1,h2,h3,h4,h5⟩ := i6 (.inl hb)
  simp only [dueC,pendC] at i5 h4
  cases k <;>
  · refine ⟨i1,i2,i3,i4,?_,fun _ => ⟨h1,h2,h3,?_,h5⟩,fun hn => (hn (.inl hb)).elim,trivial⟩
    · simp only [pendC,ret]
      omega
    · simp only [dueC,pendC,ret]
      omega

lemma acct_arriveM (h : Acct (some .arrive) v n) : Acct (some .announceArrival)
    {v with waitingM := v.waitingM+1} {n with ashoreM := n.ashoreM+1} := by
  have hM := h.ashoreM
  have hw := h.waitingM
  refine ⟨h.busy,by dsimp only; omega,h.waitingC,?_,h.ashoreC,h.out,fun ho => ?_,trivial⟩
  · simp only [pendM] at hM ⊢
    omega
  · obtain ⟨h1,h2,h3,h4,h5,h6⟩ := h.home ho
    exact ⟨h1,h2,h3,h4,h5,.inl (h6.resolve_right nofun)⟩

lemma acct_arriveC (h : Acct (some .arrive) v n) : Acct (some .announceArrival)
    {v with waitingC := v.waitingC+1} {n with ashoreC := n.ashoreC+1} := by
  have hC := h.ashoreC
  have hw := h.waitingC
  refine ⟨h.busy,h.waitingM,by dsimp only; omega,h.ashoreM,?_,h.out,fun ho => ?_,trivial⟩
  · simp only [pendC] at hC ⊢
    omega
  · obtain ⟨h1,h2,h3,h4,h5,h6⟩ := h.home ho
    exact ⟨h1,h2,h3,h4,h5,.inl (h6.resolve_right nofun)⟩

variable {k : Option Pc}

section
variable (h : Acct k v n)
include h

lemma Acct.full (ho : Out k v) (hb : v.boarded = 3)
    (hM : 0 ≤ dueM v.boatM k) (hC : 0 ≤ dueC v.boatC k) :
    v.mpermit = 0 ∧ v.cpermit = 0 ∧ n.underwayM = 0 ∧ n.underwayC = 0 ∧
      (n.aboardM : ℤ) = v.boatM ∧ (n.aboardC : ℤ) = v.boatC := by
  obtain ⟨hl,h2,h3,h4,-⟩ := h.out ho
  have := hl.bounds
  omega

lemma Acct.out_of_permit (hp : v.mpermit ≠ 0 ∨ v.cpermit ≠ 0) : Out k v := by
  by_contra ho
  obtain ⟨h1,h2,-⟩ := h.home ho
  omega

lemma Acct.out_of_underway (hp : n.underwayM ≠ 0 ∨ n.underwayC ≠ 0) : Out k v := by
  by_contra ho
  obtain ⟨-,-,h3,h4,-⟩ := h.home ho
  omega

lemma Acct.out_of_rowing (hr : n.rowing ≠ 0) : Out k v ∧ v.boarded = 3 ∧ testing k = false ∧ n.rowing = 1 := by
  have ho : Out k v := by
    by_contra ho
    exact hr (h.home ho).2.2.2.2.1
  have hn := (h.out ho).2.2.2.2
  split_ifs at hn with hc
  · exact ⟨ho,hc.1,hc.2,hn⟩
  · exact (hr hn).elim

lemma acct_semWaitM (hp : 0 < v.mpermit) (ha : 0 < n.ashoreM) : Acct k {v with mpermit := v.mpermit-1}
      {n with ashoreM := n.ashoreM-1, underwayM := n.underwayM+1} := by
  have ho := h.out_of_permit (.inl hp.ne')
  obtain ⟨h1,h2,h3,h4,h5⟩ := h.out ho
  refine ⟨h.busy,h.waitingM,h.waitingC,?_,h.ashoreC,fun _ => ⟨h1,h2,?_,h4,h5⟩, fun hn => (hn ho).elim,?_⟩
  · have := h.ashoreM; dsimp only; omega
  · dsimp only; omega
  · simpa only [Local,FormPc.here] using h.here

lemma acct_semWaitC (hp : 0 < v.cpermit) (ha : 0 < n.ashoreC) : Acct k {v with cpermit := v.cpermit-1}
      {n with ashoreC := n.ashoreC-1, underwayC := n.underwayC+1} := by
  have ho := h.out_of_permit (.inr hp.ne')
  obtain ⟨h1,h2,h3,h4,h5⟩ := h.out ho
  refine ⟨h.busy,h.waitingM,h.waitingC,h.ashoreM,?_,fun _ => ⟨h1,h2,h3,?_,h5⟩, fun hn => (hn ho).elim,?_⟩
  · have := h.ashoreC; dsimp only; omega
  · dsimp only; omega
  · simpa only [Local,FormPc.here] using h.here

end

lemma acct_boardIncM (h : Acct (some .boardInc) v n) (hu : 0 < n.underwayM) :
    Acct (some .boardPrint) {v with boarded := v.boarded+1}
      {n with underwayM := n.underwayM-1, aboardM := n.aboardM+1} := by
  have ho := h.out_of_underway (.inl hu.ne')
  have hb : v.boatBusy = 1 := by simpa using ho
  obtain ⟨h1,h2,h3,h4,h5⟩ := h.out ho
  have hl := h1.bounds
  simp only [dueM,dueC,pendM,pendC] at h3 h4
  have hr : n.rowing = 0 := by rw [h5,if_neg (by omega)]
  refine ⟨h.busy,h.waitingM,h.waitingC,h.ashoreM,h.ashoreC,fun _ => ⟨h1,?_,?_,h4,?_⟩, fun hn => (hn (.inl hb)).elim,hb⟩
  · push_cast; omega
  · simp only [dueM,pendM]; omega
  · simpa using hr

lemma acct_boardIncC (h : Acct (some .boardInc) v n) (hu : 0 < n.underwayC) :
    Acct (some .boardPrint) {v with boarded := v.boarded+1}
      {n with underwayC := n.underwayC-1, aboardC := n.aboardC+1} := by
  have ho := h.out_of_underway (.inr hu.ne')
  have hb : v.boatBusy = 1 := by simpa using ho
  obtain ⟨h1,h2,h3,h4,h5⟩ := h.out ho
  have hl := h1.bounds
  simp only [dueM,dueC,pendM,pendC] at h3 h4
  have hr : n.rowing = 0 := by rw [h5,if_neg (by omega)]
  refine ⟨h.busy,h.waitingM,h.waitingC,h.ashoreM,h.ashoreC,fun _ => ⟨h1,?_,h3,?_,?_⟩, fun hn => (hn (.inl hb)).elim,hb⟩
  · push_cast; omega
  · simp only [dueC,pendC]; omega
  · simpa using hr

lemma acct_boardTest (h : Acct (some .boardTest) v n) (last : Option Boat) :
    Acct (some (.boardUnlock last)) v {n with rowing := n.rowing+if v.boarded = 3 then 1 else 0} := by
  have hb : v.boatBusy = 1 := h.here
  obtain ⟨h1,h2,h3,h4,h5⟩ := h.out (.inl hb)
  refine ⟨h.busy,h.waitingM,h.waitingC,h.ashoreM,h.ashoreC,fun _ => ⟨h1,h2,h3,h4,?_⟩, fun hn => (hn (.inl hb)).elim,hb⟩
  simp only [testing,and_false,if_false,Bool.true_eq_false] at h5
  simp [h5]

lemma acct_resetBusy (h : Acct (some .resetBusy) v n) (hr : n.rowing ≠ 0) :
    Acct (some .resetBoarded) {v with boatBusy := 0} {n with rowing := n.rowing-1} := by
  obtain ⟨ho,hb,-,h1⟩ := h.out_of_rowing hr
  obtain ⟨f1,f2,f3,f4,-,-⟩ := h.full ho hb (by simp) (by simp)
  have hM := h.ashoreM
  have hC := h.ashoreC
  refine ⟨.inl rfl,h.waitingM,h.waitingC,by simpa using hM,by simpa using hC,?_,?_,rfl⟩
  · simp
  · intro _; exact ⟨f1,f2,f3,f4,by simp [h1],.inr rfl⟩

lemma acct_resetBoarded (h : Acct (some .resetBoarded) v n) : Acct (some .resetBoat) {v with boarded := 0} n := by
  have hb : v.boatBusy = 0 := h.here
  have ho : ¬ Out (some .resetBoarded) v := by simp [hb]
  obtain ⟨h1,h2,h3,h4,h5,-⟩ := h.home ho
  exact ⟨h.busy,h.waitingM,h.waitingC,h.ashoreM,h.ashoreC,fun hout => (ho hout).elim,
    fun _ => ⟨h1,h2,h3,h4,h5,.inl rfl⟩,hb⟩

lemma acct_resetBoat (h : Acct (some .resetBoat) v n) :
    Acct (some (.form .row .testBusy)) {v with boatM := 0, boatC := 0} n := by
  have hb : v.boatBusy = 0 := h.here
  have ho : ¬ Out (some .resetBoat) v := by simp [hb]
  obtain ⟨h1,h2,h3,h4,h5,h6⟩ := h.home ho
  exact ⟨h.busy,h.waitingM,h.waitingC,h.ashoreM,h.ashoreC,fun hout => (ho hout).elim,
    fun _ => ⟨h1,h2,h3,h4,h5,.inl (h6.resolve_right nofun)⟩,fun _ => hb⟩

end

/-- A number of passengers aboard after some more events. -/
def aboardAfter (x : ℕ) (w : Passenger nm nc → ℕ) : List (Event nm nc) → ℕ
  | [] => x
  | .selected _ _ _ :: _ => 0
  | .boarded q _ :: e => aboardAfter x w e+w q
  | _ :: e => aboardAfter x w e

lemma countP_aboard (f : Passenger nm nc → Bool) (e h : List (Event nm nc)) : (aboard (e++h)).countP f =
      aboardAfter ((aboard h).countP f) (fun q => if f q then 1 else 0) e := by
  induction e with
  | nil => rfl
  | cons a e ih =>
    cases a <;> simp only [List.cons_append,aboard,aboardAfter]
    · rfl
    · exact ih
    · rw [List.countP_cons,ih]
    · exact ih
    · exact ih

/-- The counts after passenger `p` has moved from `c` to `c'`. -/
def Tally.move (n : Tally) (p : Passenger nm nc) (c c' : Pc) (e : List (Event nm nc)) : Tally where
  ashoreM := n.ashoreM+onM Pc.ashore p c'-onM Pc.ashore p c
  ashoreC := n.ashoreC+onC Pc.ashore p c'-onC Pc.ashore p c
  underwayM := n.underwayM+onM Pc.underway p c'-onM Pc.underway p c
  underwayC := n.underwayC+onC Pc.underway p c'-onC Pc.underway p c
  aboardM := aboardAfter n.aboardM (fun q => if isM q then 1 else 0) e
  aboardC := aboardAfter n.aboardC (fun q => if isM q then 0 else 1) e
  rowing := n.rowing+c'.rowing-c.rowing

lemma tally_move (s : State nm nc) (p : Passenger nm nc) (v' : Vars nm nc) (c' : Pc) (e : List (Event nm nc)) :
    tally {s with vars := v', pc := update s.pc p c', hist := e++s.hist} = s.tally.move p (s.pc p) c' e := by
  have hsub : ∀ w : Passenger nm nc → Pc → ℕ, total w (update s.pc p c') = total w s.pc+w p c'-w p (s.pc p) := by
    intro w
    have := total_update w s.pc p c'
    omega
  have hneg : (fun q : Passenger nm nc => if (!isM q) = true then 1 else 0) = fun q => if isM q then 0 else 1 := by
    funext q; cases isM q <;> rfl
  simp only [tally,Tally.move,hsub,countP_aboard,hneg]

lemma underway_eq_zero {s : State nm nc} (hM : s.tally.underwayM = 0) (hC : s.tally.underwayC = 0)
    (q : Passenger nm nc) : (s.pc q).underway = 0 := by
  cases q with
  | inl i => exact weight_eq_zero_of_total (w := onM underway) hM (.inl i)
  | inr i => exact weight_eq_zero_of_total (w := onC underway) hC (.inr i)

/-- The accounting invariant of a state. -/
def AcctAt (s : State nm nc) : Prop := Acct s.ctl s.vars s.tally

lemma tally_pos (s : State nm nc) (p : Passenger nm nc) :
    onM ashore p (s.pc p) ≤ s.tally.ashoreM ∧ onC ashore p (s.pc p) ≤ s.tally.ashoreC ∧
    onM underway p (s.pc p) ≤ s.tally.underwayM ∧
    onC underway p (s.pc p) ≤ s.tally.underwayC ∧ (s.pc p).rowing ≤ s.tally.rowing :=
  ⟨weight_le_total _ _ p,weight_le_total _ _ p,weight_le_total _ _ p,weight_le_total _ _ p,
    weight_le_total (fun _ => rowing) _ p⟩

section
variable {v : Vars nm nc} {n : Tally} {p : Passenger nm nc} {c c' : Pc}

lemma Tally.move_self (n : Tally) (h1 : c'.ashore = c.ashore) (h2 : c'.underway = c.underway)
    (h3 : c'.rowing = c.rowing) : n.move p c c' [] = n := by cases p <;> simp [Tally.move,onM,onC,aboardAfter,h1,h2,h3]

attribute [local simp] Tally.move onM onC ashore underway rowing aboardAfter isM ret

lemma acct_tryFormBoat {k : Caller} {f : FormPc} (h : Acct (some (.form k f)) v n) :
    Acct (some (tryFormBoat v k f).2.1) (tryFormBoat v k f).1
      (n.move p (.form k f) (tryFormBoat v k f).2.1 (tryFormBoat v k f).2.2) := by
  have hret : ∀ g, n.move p (.form k g) k.ret [] = n := by
    intro g; cases k <;> exact n.move_self rfl rfl rfl
  have hgo : ∀ g g', n.move p (.form k g) (.form k g') [] = n := by
    intro g g'; cases k <;> exact n.move_self rfl rfl rfl
  have hsel : ∀ g g' m c no, n.move p (.form k g) (.form k g') [.selected m c no] =
      {n with aboardM := 0, aboardC := 0} := by
    intro g g' m c no; cases k <;> cases p <;> simp
  cases f with
  | testBusy =>
    have := acct_testBusy h
    simp only [tryFormBoat]
    split_ifs at this ⊢
    · rwa [hret]
    · rwa [hgo]
  | clear => simp only [tryFormBoat]; rw [hgo]; exact acct_clear h
  | choose =>
    obtain ⟨hb,h0,h1⟩ := h.here
    simp only [tryFormBoat]
    split_ifs with c1 c2 c3
    · rw [hsel]; exact acct_choose h (.inr (.inr ⟨rfl,rfl⟩)) c1.1 c1.2
    · rw [hsel]
      have := acct_choose h (.inl ⟨rfl,rfl⟩) c2 h.waitingC
      simpa only [h1] using this
    · rw [hsel]
      have := acct_choose h (.inr (.inl ⟨rfl,rfl⟩)) h.waitingM c3
      simpa only [h0] using this
    · rw [hret]; exact acct_noBoat h
  | subM => simp only [tryFormBoat]; rw [hgo]; exact acct_subM h
  | subC => simp only [tryFormBoat]; rw [hgo]; exact acct_subC h
  | setBusy => simp only [tryFormBoat]; rw [hgo]; exact acct_setBusy h
  | zeroBoarded => simp only [tryFormBoat]; rw [hgo]; exact acct_zeroBoarded h
  | incNo => simp only [tryFormBoat]; rw [hgo]; exact acct_incNo h
  | announce => simp only [tryFormBoat]; rw [hgo]; exact acct_announce h
  | postM i =>
    simp only [tryFormBoat]
    split_ifs with hi
    · rw [hgo]; exact acct_postM h hi
    · rw [hgo]; exact acct_postM_end h hi
  | postC i =>
    simp only [tryFormBoat]
    split_ifs with hi
    · rw [hgo]; exact acct_postC h hi
    · rw [hret]; exact acct_postC_end h hi

/-- Where the holder of the mutex is after a move from `c` to `c'`. -/
def nextCtl (k : Option Pc) (c c' : Pc) : Option Pc :=
  if c'.critical then some c' else if c.critical then none else k

variable {e : List (Event nm nc)}

lemma ctl_advance {s : State nm nc} (hx : MutexAt s) {v' : Vars nm nc} {c' : Pc} (ha : act s.vars p (s.pc p) = some (v',c',e)) :
    ctl {s with vars := v', pc := update s.pc p c', hist := e++s.hist} = nextCtl s.ctl (s.pc p) c' := by
  rcases act_mutex ha with ⟨-,-,h3,h4⟩ | ⟨h1,h2,h3⟩ | ⟨h1,h2⟩
  · simp [ctl,nextCtl,h3,h4]
  · simp [ctl,nextCtl,h1,h2,h3]
  · cases hc : (s.pc p).critical with
    | true => simp [ctl,nextCtl,h1,h2,hc,(hx p).mpr hc]
    | false =>
      simp only [nextCtl,h2,hc,Bool.false_eq_true,if_false]
      rw [← map_update_of_not_critical hx hc c',← h1]
      rfl

variable {k : Option Pc}

lemma Acct.mu (h : Acct k v n) (m : Option (Passenger nm nc)) : Acct k {v with mu := m} n := by
  refine ⟨h.busy,h.waitingM,h.waitingC,h.ashoreM,h.ashoreC,h.out,h.home,?_⟩
  simpa only [Local,FormPc.here] using h.here

lemma Acct.stay (h : Acct k v n) (h1 : c'.ashore = c.ashore)
    (h2 : c'.underway = c.underway) (h3 : c'.rowing = c.rowing) : Acct k v (n.move p c c' []) := by
  rwa [n.move_self h1 h2 h3]

lemma acct_act {v' : Vars nm nc}
    (h : Acct k v n) (ha : act v p c = some (v',c',e)) (hk : c.critical = true → k = some c)
    (hfree : v.mu = none → k = none) (hpos : onM ashore p c ≤ n.ashoreM ∧ onC ashore p c ≤ n.ashoreC ∧
      onM underway p c ≤ n.underwayM ∧ onC underway p c ≤ n.underwayC ∧ c.rowing ≤ n.rowing) :
    Acct (nextCtl k c c') v' (n.move p c c' e) := by
  obtain ⟨p1,p2,p3,p4,p5⟩ := hpos
  cases c with
  | unborn | done => cases ha
  | lock =>
    obtain ⟨hm,rfl,rfl,rfl⟩ := mutexLock_inv ha
    rw [hfree hm] at h
    refine stay ?_ rfl rfl rfl
    exact mu (k := some .arrive) (acct_neutral h rfl rfl trivial) _
  | boardLock =>
    obtain ⟨hm,rfl,rfl,rfl⟩ := mutexLock_inv ha
    rw [hfree hm] at h
    refine stay ?_ rfl rfl rfl
    exact mu (k := some .boardInc) (acct_neutral h rfl rfl trivial) _
  | rowLock =>
    obtain ⟨hm,rfl,rfl,rfl⟩ := mutexLock_inv ha
    rw [hfree hm] at h
    refine stay ?_ rfl rfl rfl
    -- The rower is counted, so the boat is out although nobody holds the mutex.
    have hb : v.boatBusy = 1 := by
      have hr : n.rowing ≠ 0 := by simp only [rowing] at p5; omega
      simpa [Out,selecting] using (h.out_of_rowing hr).1
    exact mu (k := some .resetBusy) (acct_neutral h rfl rfl hb) _
  | arrive =>
    cases ha
    rw [hk rfl] at h
    cases p with
    | inl i => simpa [nextCtl,critical,arrival] using acct_arriveM h
    | inr i => simpa [nextCtl,critical,arrival] using acct_arriveC h
  | announceArrival =>
    cases ha
    rw [hk rfl] at h
    refine stay ?_ rfl rfl rfl
    exact acct_neutral (b := some (.form .arrive .testBusy)) h rfl rfl (by simp [Local,FormPc.here])
  | form q f =>
    simp only [act,some.injEq] at ha
    rw [hk rfl] at h
    have hf := acct_tryFormBoat (p := p) h
    rw [ha] at hf
    have hc : c'.critical = true := by
      have h1 : (tryFormBoat v q f).2.1 = c' := by rw [ha]
      rcases act_mutex (v := v) (p := p) (c := .form q f) (by rw [act,ha]) with
        ⟨-,-,-,h4⟩ | ⟨-,h2,h3⟩ | ⟨-,h2⟩
      · exact h4
      · rw [← h1] at h3
        cases q <;> cases f <;> simp only [tryFormBoat] at h3 <;> (try split_ifs at h3) <;> simp [critical] at h3
      · rw [h2]; rfl
    simpa [nextCtl,hc] using hf
  | unlock | rowUnlock =>
    cases ha
    rw [hk rfl] at h
    refine stay ?_ rfl rfl rfl
    exact mu (k := none) (acct_neutral h rfl rfl trivial) _
  | semWait =>
    obtain ⟨w,hw,he⟩ := map_eq_some_iff.mp ha
    cases he
    cases p with
    | inl i =>
      simp only [semWait] at hw
      split_ifs at hw with hp
      cases hw
      simp only [onM,ashore] at p1
      simpa [nextCtl,critical] using acct_semWaitM h hp p1
    | inr i =>
      simp only [semWait] at hw
      split_ifs at hw with hp
      cases hw
      simp only [onC,ashore] at p2
      simpa [nextCtl,critical] using acct_semWaitC h hp p2
  | boardInc =>
    cases ha
    rw [hk rfl] at h
    cases p with
    | inl i =>
      simp only [onM,underway] at p3
      simpa [nextCtl,critical] using acct_boardIncM h p3
    | inr i =>
      simp only [onC,underway] at p4
      simpa [nextCtl,critical] using acct_boardIncC h p4
  | boardPrint =>
    cases ha
    rw [hk rfl] at h
    refine stay ?_ rfl rfl rfl
    exact ⟨h.busy,h.waitingM,h.waitingC,h.ashoreM,h.ashoreC,h.out, fun ho => (ho (.inl h.here)).elim,h.here⟩
  | boardTest =>
    cases ha
    rw [hk rfl] at h
    have hn : n.move p .boardTest
        (.boardUnlock (if v.boarded = 3 then some ⟨v.boatM,v.boatC,v.boatno⟩ else none)) [] =
        {n with rowing := n.rowing+if v.boarded = 3 then 1 else 0} := by cases p <;> split_ifs <;> simp
    rw [hn]
    exact acct_boardTest h _
  | boardUnlock last =>
    cases ha
    rw [hk rfl] at h
    cases last with
    | none | some b =>
      refine stay ?_ rfl rfl rfl
      exact mu (k := none) (acct_neutral h rfl rfl trivial) _
  | row b =>
    cases ha
    have hn : n.move p (.row b) .rowLock [.rowed p b] = n := by cases p <;> simp
    rw [hn]
    exact h
  | resetBusy =>
    cases ha
    rw [hk rfl] at h
    have hr : n.rowing ≠ 0 := by simp only [rowing] at p5; omega
    have hn : n.move p .resetBusy .resetBoarded [] = {n with rowing := n.rowing-1} := by cases p <;> simp
    rw [hn]
    exact acct_resetBusy h hr
  | resetBoarded =>
    cases ha
    rw [hk rfl] at h
    refine stay ?_ rfl rfl rfl
    exact acct_resetBoarded h
  | resetBoat =>
    cases ha
    rw [hk rfl] at h
    refine stay ?_ rfl rfl rfl
    exact acct_resetBoat h

end

/-- The inductive invariant of the program. -/
structure Inv (s : State nm nc) : Prop where
  main : MainAt s
  mutex : MutexAt s
  acct : AcctAt s

lemma inv_initial : Inv (initial nm nc) := by
  refine ⟨⟨fun j => by simp [initial],fun j => by simp [initial]⟩, fun p => by simp [initial,critical],?_⟩
  have hz : ∀ w : Passenger nm nc → Pc → ℕ, (∀ q, w q .unborn = 0) →
      total w (initial nm nc).pc = 0 := fun w hw => Finset.sum_eq_zero (fun q _ => hw q)
  have hM := hz (onM ashore) (fun q => by cases q <;> rfl)
  have hC := hz (onC ashore) (fun q => by cases q <;> rfl)
  have hu := hz (onM underway) (fun q => by cases q <;> rfl)
  have hv := hz (onC underway) (fun q => by cases q <;> rfl)
  have hr := hz (fun _ => rowing) (fun _ => rfl)
  refine ⟨.inl rfl,le_rfl,le_rfl,?_,?_,?_,fun _ => ⟨rfl,rfl,hu,hv,hr,.inl rfl⟩,trivial⟩
  · change ((total (onM ashore) (initial nm nc).pc : ℕ) : ℤ) = _
    rw [hM]; rfl
  · change ((total (onC ashore) (initial nm nc).pc : ℕ) : ℤ) = _
    rw [hC]; rfl
  · simp [Out,initial,ctl,selecting]

lemma tally_create {s t : State nm nc} {p : Passenger nm nc} (hp : s.pc p = .unborn)
    (hpc : t.pc = update s.pc p .lock) (hh : aboard t.hist = aboard s.hist) : t.tally = s.tally := by
  have hsub : ∀ w : Passenger nm nc → Pc → ℕ, w p .lock = w p .unborn → total w t.pc = total w s.pc := by
    intro w hw
    have := total_update w s.pc p .lock
    rw [hpc]
    rw [hp] at this
    omega
  ext <;> simp only [tally,hh]
  · exact hsub _ (by cases p <;> rfl)
  · exact hsub _ (by cases p <;> rfl)
  · exact hsub _ (by cases p <;> rfl)
  · exact hsub _ (by cases p <;> rfl)
  · exact hsub _ rfl

lemma inv_step {s t : State nm nc} {l : Label nm nc} (hI : Inv s) (h : s.step l = some t) : Inv t := by
  refine ⟨mainAt_step hI.main h,mutexAt_step hI.main hI.mutex h,?_⟩
  have hA := hI.acct
  unfold AcctAt at hA ⊢
  cases l with
  | none =>
    obtain ⟨hv,hpc,hh⟩ := mainStep_inv hI.main h
    have ha : aboard t.hist = aboard s.hist := by
      rcases hh with hh | hh
      · rw [hh]
      · rw [hh]; rfl
    rw [hv,ctl_main hI.main hI.mutex h]
    rcases hpc with ⟨p,hp,hpc⟩ | hpc
    · rwa [tally_create hp hpc ha]
    · have ht : t.tally = s.tally := by simp only [tally,hpc,ha]
      rwa [ht]
  | some p =>
    obtain ⟨v',c',e,ha,rfl⟩ := advance_inv h
    rw [ctl_advance hI.mutex ha,tally_move]
    exact acct_act hA ha (fun hc => ctl_of_critical hI.mutex hc)
      (fun hm => by simp [ctl,hm]) (tally_pos s p)

lemma reachable_inv {s : State nm nc} (h : (program nm nc).Reachable s) : Inv s :=
  System.Reachable.invariant (I := Inv) (fun s (hs : s = initial nm nc) => hs ▸ inv_initial)
    (fun _ _ _ hI hs => inv_step hI hs) h

end Xv6Threads.Missionaries
