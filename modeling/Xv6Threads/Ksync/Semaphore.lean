import Xv6Threads.Foundations.Counting
import Xv6Threads.Ksync.Invariant

/-! Conservation of semaphores: what has been posted and what has been waited for accounts for
the value, as long as no post finds the largest int. -/
namespace Xv6Threads.Ksync
open Pc State Kind Function List Prod Int32
variable {n : ℕ}

/-- The call that a thread is executing. -/
def Pc.job : Pc → Option Job
  | .initTest j | .initLock j | .initSet j => j
  | .acquire j | .check j => some j
  | .loop k id | .killedTest k id | .sleepLock k id | .sleepRelease k id | .sleepSet k id
  | .asleep k id | .tidy k id | .reacquire k id | .take k id => some (.down k id)
  | .store k id | .wake k id => some (.up k id)
  | .idle | .leave _ => none

/-- Successful calls of `ksem_post` on a slot. -/
def posts (id : Id) (h : List (Event n)) : ℕ := h.countP (fun e => e.2 = .upped .sem id)

/-- Successful calls of `ksem_wait` on a slot. -/
def waits (id : Id) (h : List (Event n)) : ℕ := h.countP (fun e => e.2 = .downed .sem id)

/-- A post that has raised the value and not yet returned. -/
def Pc.owedPosts (id : Id) : Pc → ℕ
  | .wake .sem i => if i = id then 1 else 0
  | .leave r => if r = some (.upped .sem id) then 1 else 0
  | _ => 0

/-- A wait that has lowered the value and not yet returned. -/
def Pc.owedWaits (id : Id) : Pc → ℕ
  | .leave r => if r = some (.downed .sem id) then 1 else 0
  | _ => 0

/-- No post finds the value at its largest. -/
def roomToPost (s : State n) : Label n → Bool
  | .run t =>
    match s.pc t with
    | .store .sem id => (s.vars.objs id).value != Int32.maxValue
    | _ => true
  | _ => true

variable {x : Int32}

lemma toInt_add_one (h : x ≠ maxValue) : (x+1).toInt = x.toInt+1 := by
  have hne : x.toInt ≠ 2^31-1 := fun he => h (toInt_inj.mp (he.trans toInt_maxValue.symm))
  have h1 := x.le_toInt
  have h2 := x.toInt_lt
  rw [toInt_add]
  exact Int.bmod_eq_of_le_mul_two (by simp; omega) (by simp; omega)

lemma toInt_sub_one (h0 : 0 ≤ x.toInt) : (x-1).toInt = x.toInt-1 := by
  have h2 := x.toInt_lt
  rw [toInt_sub]
  exact Int.bmod_eq_of_le_mul_two (by simp; omega) (by simp; omega)

section
variable {v v' : Vars n} {t : Fin n} {c c' : Pc} {e : List Done}

variable (h : Acts v t c v' c' e)
include h

lemma act_owed (id : Id) :
    c'.owedPosts id+posts id (e.map (mk t)) = c.owedPosts id+(if c = .store .sem id then 1 else 0) ∧
    c'.owedWaits id+waits id (e.map (mk t)) = c.owedWaits id+(if c = .take .sem id then 1 else 0) := by
  cases h with
  | initDone j | initSet j => cases j <;> exact ⟨rfl,rfl⟩
  | store k i | wake k i | take k i => cases k <;> simp [owedPosts,owedWaits,posts,waits]
  | leave r => cases r <;> simp [owedPosts,owedWaits,posts,waits,countP_cons]
  | _ => exact ⟨rfl,rfl⟩

lemma act_made {id : Id} {x : Int32}
    (hm : .created .sem id x ∈ e ∨ c' = .leave (some (.created .sem id x))) : c = .leave (some (.created .sem id x)) ∨
    (c = .check (.create .sem x) ∧ (v.objs id).used = false ∧ v'.objs = update v.objs id ⟨true,sem.code,x,0⟩) := by
  cases h with
  | leave y =>
    left
    rcases hm with hm | hm
    · simp only [Option.mem_toList] at hm
      rw [hm]
    · cases hm
  | create k y i hi =>
    right
    rcases hm with hm | hm
    · cases hm
    · cases hm
      exact ⟨rfl,by simpa using find?_some hi,rfl⟩
  | initDone j | initSet j => rcases hm with hm | hm <;> cases j <;> cases hm
  | _ => rcases hm with hm | hm <;> cases hm

lemma act_frame {id : Id} (hne : v'.objs id ≠ v.objs id) : (∃ k, c.job = some (.down k id) ∨ c.job = some (.up k id)) ∨
    (∃ k x, c.job = some (.create k x) ∧ (v.objs id).used = false) := by
  rcases act_objs h with ⟨ho,-⟩ | ⟨k,x,i,rfl,hi,-,ho⟩ | ⟨k,i,rfl,-,ho⟩ | ⟨k,i,rfl,-,ho⟩ <;> rw [ho] at hne
  · exact (hne rfl).elim
  all_goals
    have hid : id = i := by
      by_contra hn
      exact hne (update_of_ne hn _ _)
    subst hid
  · exact .inr ⟨k,x,rfl,hi⟩
  · exact .inl ⟨k,.inl rfl⟩
  · exact .inl ⟨k,.inr rfl⟩

end

def State.posted (s : State n) (id : Id) : ℕ :=
  posts id s.hist+total (fun _ => Pc.owedPosts id) s.pc

def State.waited (s : State n) (id : Id) : ℕ :=
  waits id s.hist+total (fun _ => Pc.owedWaits id) s.pc

/-- Semaphore `id` has been created with value `x`. -/
def State.Made (s : State n) (id : Id) (x : Int32) : Prop :=
  ∃ t, (t,.created .sem id x) ∈ s.hist ∨ s.pc t = .leave (some (.created .sem id x))

/-- The value that a call is about to create an object with. -/
def Pc.creating (c : Pc) : Option Int32 :=
  match c.job with
  | some (.create _ x) => some x
  | _ => none

/-- The counting invariant. -/
structure CountAt (s : State n) : Prop where
  creating : ∀ t x, (s.pc t).creating = some x → 0 ≤ x.toInt
  fresh : ∀ id, (s.vars.objs id).used = false → s.posted id = 0 ∧ s.waited id = 0
  made : ∀ id x, s.Made id x → (s.vars.objs id).used = true ∧ (s.vars.objs id).kind = Kind.sem.code ∧
    (s.vars.objs id).value.toInt+s.waited id = x.toInt+s.posted id ∧ 0 ≤ (s.vars.objs id).value.toInt

lemma start_creating (c : Call) (h : c.start.creating = some x) : 0 ≤ x.toInt := by
  cases c with
  | klockCreate => cases h; decide
  | ksemCreate value =>
    simp only [Call.start,ksemCreate] at h
    split_ifs at h with hv
    · cases h
    · cases h
      rw [lt_iff_toInt_lt] at hv
      simpa using hv
  | klockAcquire id | klockRelease id | ksemWait id | ksemPost id =>
    simp only [Call.start,klockAcquire,klockRelease,ksemWait,ksemPost,creating,job] at h
    cases hs : slot id <;> rw [hs] at h <;> cases h

lemma act_creating {v v' : Vars n} {t : Fin n} {c c' : Pc} {e : List Done}
    (h : Acts v t c v' c' e) (hc : c'.creating = some x) : c.creating = some x := by
  cases h with
  | initDone j | initSet j =>
    cases j with
    | none => cases hc
    | some j => exact hc
  | initEnter | initLock | acquire => exact hc
  | _ => cases hc

section
variable {s : State n} {t : Fin n} {v' : Vars n} {c' : Pc} {e : List Done}

section
variable (ha : Acts s.vars t (s.pc t) v' c' e)
include ha

lemma posted_run (id : Id) : posted {s with vars := v', pc := update s.pc t c', hist := e.map (mk t)++s.hist} id =
      s.posted id+(if s.pc t = .store .sem id then 1 else 0) := by
  have h1 := (act_owed ha id).1
  have h2 := total_update (fun _ => owedPosts id) s.pc t c'
  simp only [posted,posts,countP_append] at h1 ⊢
  omega

lemma waited_run (id : Id) : waited {s with vars := v', pc := update s.pc t c', hist := e.map (mk t)++s.hist} id =
      s.waited id+(if s.pc t = .take .sem id then 1 else 0) := by
  have h1 := (act_owed ha id).2
  have h2 := total_update (fun _ => owedWaits id) s.pc t c'
  simp only [waited,waits,countP_append] at h1 ⊢
  omega

lemma made_run {id : Id} {x : Int32}
    (hm : State.Made {s with vars := v', pc := update s.pc t c', hist := e.map (mk t)++s.hist} id x) :
    s.Made id x ∨ (s.pc t = .check (.create .sem x) ∧ (s.vars.objs id).used = false ∧
      v'.objs = update s.vars.objs id ⟨true,sem.code,x,0⟩) := by
  obtain ⟨u,hm | hu⟩ := hm
  · rcases mem_append.mp hm with hm | hm
    · obtain ⟨d,hd,he⟩ := mem_map.mp hm
      cases he
      exact (act_made ha (.inl hd)).imp_left (fun h => ⟨t,.inr h⟩)
    · exact .inl ⟨u,.inl hm⟩
  · by_cases hut : u = t
    · subst hut
      simp only [update_self] at hu
      exact (act_made ha (.inr hu)).imp_left (fun h => ⟨u,.inr h⟩)
    · simp only [update_of_ne hut] at hu
      exact .inl ⟨u,.inr hu⟩

end

variable (hC : Core s) (hN : CountAt s) (hr : roomToPost s (.run t) = true) (ha : Acts s.vars t (s.pc t) v' c' e)
include hC hN hr ha

lemma balance_run {id : Id} {x : Int32} (hm : s.Made id x) :
    (v'.objs id).value.toInt+(s.waited id+(if s.pc t = .take .sem id then 1 else 0) : ℕ) =
      x.toInt+(s.posted id+(if s.pc t = .store .sem id then 1 else 0) : ℕ) ∧ 0 ≤ (v'.objs id).value.toInt := by
  obtain ⟨hu,hk,heq,h0⟩ := hN.made id x hm
  have hkind : ∀ k, (s.pc t).target = some (k,id) → k = .sem := by
    intro k ht
    have := (hC.target t k id ht).2
    rw [hk] at this
    cases k with
    | sem => rfl
    | mutex => cases this
  rcases act_objs ha with ⟨ho,hn⟩ | ⟨k,y,i,hc,hi,-,ho⟩ | ⟨k,i,hc,-,ho⟩ | ⟨k,i,hc,-,ho⟩
  · rw [ho,if_neg (hn .sem id).1,if_neg (hn .sem id).2]
    exact ⟨heq,h0⟩
  · have hne : id ≠ i := by rintro rfl; simp [hu] at hi
    rw [ho,update_of_ne hne,hc,if_neg (fun h => by cases h),if_neg (fun h => by cases h)]
    exact ⟨heq,h0⟩
  · rw [ho,hc]
    by_cases hi : id = i
    · subst hi
      obtain rfl := hkind k (by rw [hc]; rfl)
      have hv := toInt_sub_one h0
      have hne : (s.vars.objs id).value.toInt ≠ 0 := fun he =>
        hC.take t .sem id hc (toInt_inj.mp (he.trans toInt_zero.symm))
      rw [update_self,if_pos rfl,if_neg (fun h => by cases h)]
      simp only [downStore,hv]
      omega
    · have hne : (take k i : Pc) ≠ .take .sem id := by rintro ⟨⟩; exact hi rfl
      rw [update_of_ne hi,if_neg hne,if_neg (fun h => by cases h)]
      exact ⟨heq,h0⟩
  · rw [ho,hc]
    by_cases hi : id = i
    · subst hi
      obtain rfl := hkind k (by rw [hc]; rfl)
      have hv := toInt_add_one (by simpa [roomToPost,hc] using hr)
      rw [update_self,if_pos rfl,if_neg (fun h => by cases h)]
      simp only [upStore,hv]
      omega
    · have hne : (.store k i : Pc) ≠ .store .sem id := by rintro ⟨⟩; exact hi rfl
      rw [update_of_ne hi,if_neg hne,if_neg (fun h => by cases h)]
      exact ⟨heq,h0⟩

lemma count_run : CountAt {s with vars := v', pc := update s.pc t c', hist := e.map (mk t)++s.hist} := by
  refine ⟨fun u x hu => ?_,fun id hf => ?_,fun id x hm => ?_⟩
  · by_cases hut : u = t
    · subst hut
      simp only [update_self] at hu
      exact hN.creating u x (act_creating ha hu)
    · simp only [update_of_ne hut] at hu
      exact hN.creating u x hu
  · have hf' : (s.vars.objs id).used = false := by
      by_contra hn
      simp [(act_used ha (by simpa using hn)).1] at hf
    have hnot : ∀ k, (s.pc t).target ≠ some (k,id) := by
      intro k ht
      have := (hC.target t k id ht).1
      simp [hf'] at this
    rw [posted_run ha,waited_run ha,if_neg (fun h => hnot .sem (by rw [h]; rfl)),
      if_neg (fun h => hnot .sem (by rw [h]; rfl))]
    exact hN.fresh id hf'
  · rw [posted_run ha,waited_run ha]
    rcases made_run ha hm with hm | ⟨hc,hf,ho⟩
    · obtain ⟨hu,hk,-⟩ := hN.made id x hm
      obtain ⟨hu',hk'⟩ := act_used ha hu
      exact ⟨hu',hk'.trans hk,balance_run hC hN hr ha hm⟩
    · obtain ⟨hp,hw⟩ := hN.fresh id hf
      have hx := hN.creating t x (by rw [hc]; rfl)
      rw [ho,update_self,hc,hp,hw,if_neg nofun,if_neg nofun]
      exact ⟨rfl,rfl,by simp,hx⟩

end

lemma count_step {s s' : State n} {l : Label n} (hC : Core s) (hN : CountAt s)
    (hr : roomToPost s l = true) (h : s.step l = some s') : CountAt s' := by
  cases l with
  | run t =>
    obtain ⟨v',c',e,ha,rfl⟩ := run_inv h
    exact count_run hC hN hr ha
  | call t c =>
    obtain ⟨hi,rfl⟩ := call_inv h
    have hw : ∀ id, c.start.owedPosts id = (s.pc t).owedPosts id ∧ c.start.owedWaits id = (s.pc t).owedWaits id := by
      intro id
      rcases start_cases c with hc | ⟨j,hc⟩ <;> rw [hi,hc] <;> exact ⟨rfl,rfl⟩
    have hP : ∀ id, posted {s with pc := update s.pc t c.start} id = s.posted id :=
      fun id => congrArg (posts id s.hist+·) (total_update_of_eq (hw id).1)
    have hW : ∀ id, waited {s with pc := update s.pc t c.start} id = s.waited id :=
      fun id => congrArg (waits id s.hist+·) (total_update_of_eq (hw id).2)
    refine ⟨fun u x hu => ?_,fun id hf => ?_,fun id x hm => ?_⟩
    · by_cases hut : u = t
      · subst hut
        simp only [update_self] at hu
        exact start_creating c hu
      · simp only [update_of_ne hut] at hu
        exact hN.creating u x hu
    · rw [hP,hW]
      exact hN.fresh id hf
    · rw [hP,hW]
      refine hN.made id x (hm.imp (fun u hu => hu.imp_right (fun hu => ?_)))
      have hut : u ≠ t := by
        rintro rfl
        simp only [update_self] at hu
        rcases start_cases c with hc | ⟨j,hc⟩ <;> rw [hc] at hu <;> cases hu
      simpa only [update_of_ne hut] using hu
  | kill t =>
    obtain ⟨-,rfl⟩ := kill_inv h
    exact ⟨hN.creating,hN.fresh,hN.made⟩

lemma owed_outside {c : Pc} (h : c.inKs = false) (id : Id) : c.owedPosts id = 0 ∧ c.owedWaits id = 0 := by
  cases c <;> first | exact ⟨rfl,rfl⟩ | cases h

/-- Conservation of semaphores, for any number of threads and any interleaving in which no post
overflows: the balance of every semaphore while `ksync_lock` is free, that a wait stores only
when it returns 0, and that every store goes to the slot of the call. -/
theorem semaphore_conservation (n : ℕ) (s : State n)
    (h : (kernel n).ReachWhile (fun s l => quietInit s l = true ∧ roomToPost s l = true) s) :
    (s.vars.ksyncLock = none → ∀ t id x, (t,.created .sem id x) ∈ s.hist →
      (s.vars.objs id).value.toInt = x.toInt+posts id s.hist-waits id s.hist ∧ 0 ≤ (s.vars.objs id).value.toInt) ∧
    (∀ t s' id, s.step (.run t) = some s' → (s.pc t).job = some (.down .sem id) →
      s'.vars.objs = s.vars.objs ∨ s'.pc t = .leave (some (.downed .sem id))) ∧
    (∀ l s' id, s.step l = some s' → s'.vars.objs id ≠ s.vars.objs id → ∃ t, l = .run t ∧
      ((∃ k, (s.pc t).job = some (.down k id) ∨ (s.pc t).job = some (.up k id)) ∨
       (∃ k x, (s.pc t).job = some (.create k x) ∧ (s.vars.objs id).used = false))) := by
  have hC : Core s := reach_core (fun _ _ h => h.1) h
  refine ⟨fun hfree u id x hx => ?_,fun t s' id hs hj => ?_,fun l s' id hs hne => ?_⟩
  · have hN : CountAt s := System.ReachWhile.invariant_on (J := Core) (I := CountAt)
      (fun _ hs => reach_core (fun _ _ h => h.1) hs)
      (fun s (hs : s = initial n) => by
        subst hs
        refine ⟨by simp [initial,Pc.creating,Pc.job],fun id _ => ⟨?_,?_⟩,fun id x hm => ?_⟩
        · exact congrArg (0+·) (total_eq_zero (fun _ => rfl))
        · exact congrArg (0+·) (total_eq_zero (fun _ => rfl))
        · simp [State.Made,initial] at hm)
      (fun _ _ _ hC hN hl hs => count_step hC hN hl.2 hs) h
    have hout := fun t => owed_outside (hC.ks.outside hfree t) id
    obtain ⟨-,-,heq,h0⟩ := hN.made id x ⟨u,.inl hx⟩
    have hP : s.posted id = posts id s.hist :=
      congrArg (posts id s.hist+·) (total_eq_zero (fun t => (hout t).1))
    have hW : s.waited id = waits id s.hist :=
      congrArg (waits id s.hist+·) (total_eq_zero (fun t => (hout t).2))
    rw [hP,hW] at heq
    exact ⟨by omega,h0⟩
  · obtain ⟨v',c',e,ha,rfl⟩ := run_inv hs
    rcases act_objs ha with ⟨ho,-⟩ | ⟨k,x,i,hc,-⟩ | ⟨k,i,hc,hc',-⟩ | ⟨k,i,hc,-⟩
    · exact .inl ho
    · rw [hc] at hj; cases hj
    · rw [hc] at hj
      cases hj
      exact .inr (by simpa using hc')
    · rw [hc] at hj; cases hj
  · cases l with
    | run t =>
      obtain ⟨v',c',e,ha,rfl⟩ := run_inv hs
      exact ⟨t,rfl,act_frame ha hne⟩
    | call t c =>
      obtain ⟨-,rfl⟩ := call_inv hs
      exact (hne rfl).elim
    | kill t =>
      obtain ⟨-,rfl⟩ := kill_inv hs
      exact (hne rfl).elim

/-- A semaphore created with 2 and posted once has value 3. -/
theorem semaphore_conservation_one_post : ∃ s : State 1,
    (kernel 1).ReachWhile (fun s l => quietInit s l = true ∧ roomToPost s l = true) s ∧
    s.vars.ksyncLock = none ∧ posts 0 s.hist = 1 ∧ (s.vars.objs 0).value.toInt = 2+1-0 := by
  obtain ⟨s,hs,h1,h2,h3,h4⟩ := System.reachWhile_of_exec (M := kernel 1)
    (fun s l => quietInit s l && roomToPost s l) (fun _ _ h => (Bool.and_eq_true _ _).mp h)
    (System.schedule [(.call 0 (.ksemCreate 2),1),(.run 0,6),(.call 0 (.ksemPost 0),1),(.run 0,6)])
    (fun s => s.vars.ksyncLock = none ∧ (0,.created .sem 0 2) ∈ s.hist ∧ posts 0 s.hist = 1 ∧
      waits 0 s.hist = 0) rfl (by decide +kernel)
  have := ((semaphore_conservation 1 s hs).1 h1 0 0 2 h2).1
  rw [h3,h4] at this
  exact ⟨s,hs,h1,h3,this⟩

/-- A semaphore created with the largest int and posted once has the smallest int. -/
theorem post_overflows : ∃ s : State 1, (kernel 1).Reachable s ∧ s.vars.ksyncLock = none ∧
    (0,.created .sem 0 2147483647) ∈ s.hist ∧ posts 0 s.hist = 1 ∧ waits 0 s.hist = 0 ∧
    (s.vars.objs 0).value.toInt = -2147483648 :=
  System.reachable_of_exec (M := kernel 1)
    (System.schedule [(.call 0 (.ksemCreate 2147483647),1),(.run 0,6),(.call 0 (.ksemPost 0),1),
      (.run 0,6)])
    _
    rfl (by decide +kernel)

end Xv6Threads.Ksync
