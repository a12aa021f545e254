import Xv6Threads.Ksync.Invariant

/-! Mutual exclusion of the kernel mutexes. `klock_release` compares nothing with the recorded
owner, so exclusion rests on the callers: it holds as long as whoever releases a held mutex is
its owner. -/
namespace Xv6Threads.Ksync
open Function Kind Prod
variable {n : ℕ}

/-- Thread `t` has acquired mutex `id` and not released it since. -/
def holds (t : Fin n) (id : Id) : List (Event n) → Bool
  | [] => false
  | (u,.downed .mutex i) :: h => (u == t && i == id) || holds t id h
  | (u,.upped .mutex i) :: h => !(u == t && i == id) && holds t id h
  | _ :: h => holds t id h

/-- Between the stores of `klock_release` and its return. -/
def Pc.releasing (id : Id) : Pc → Bool
  | .wake .mutex i | .leave (some (.upped .mutex i)) => i == id
  | _ => false

/-- A `klock_release` that finds the mutex held is called by the recorded owner. -/
def ownerReleases (s : State n) : Label n → Bool
  | .run t =>
    match s.pc t with
    | .check (.up .mutex id) =>
      !((s.vars.objs id).used && (s.vars.objs id).kind == Kind.mutex.code &&
        (s.vars.objs id).value == 0) || (s.vars.objs id).owner == pid t
    | _ => true
  | _ => true

/-- Thread `t` has mutex `id`, as the table sees it. -/
def Owns (t : Fin n) (id : Id) (c : Pc) (h : List (Event n)) : Prop :=
  c = .leave (some (.downed .mutex id)) ∨ (holds t id h = true ∧ c.releasing id = false)

structure MutexAt (s : State n) : Prop where
  owns : ∀ t id, Owns t id (s.pc t) s.hist → (s.vars.objs id).used = true ∧
    (s.vars.objs id).kind = Kind.mutex.code ∧ (s.vars.objs id).value = 0 ∧
    (s.vars.objs id).owner = pid t
  store : ∀ t id, s.pc t = .store .mutex id → (s.vars.objs id).owner = pid t
  rel : ∀ t id, (s.pc t).releasing id = true → (s.vars.objs id).value ≠ 0

lemma pid_injective {t u : Fin n} (h : pid t = pid u) : t = u := by
  unfold pid at h
  exact Fin.ext (by omega)

lemma releasing_inKs {c : Pc} {id : Id} (h : c.releasing id = true) : c.inKs = true := by
  cases c <;> first | rfl | cases h

lemma holds_other {t u : Fin n} (hut : u ≠ t) (id : Id) (e : List Done) (h : List (Event n)) :
    holds u id (e.map (mk t)++h) = holds u id h := by
  induction e with
  | nil => rfl
  | cons d e ih =>
    have hne : (t == u) = false := by simpa using Ne.symm hut
    cases d with
    | created k i x => exact ih
    | downed k i | upped k i => cases k <;> simp [holds,hne,ih]

section
variable {v v' : Vars n} {t : Fin n} {c c' : Pc} {e : List Done}

variable (ha : Acts v t c v' c' e) {id : Id}
include ha

lemma act_owns {h : List (Event n)} (ho : Owns t id c' (e.map (mk t)++h)) : Owns t id c h ∨ c = .take .mutex id := by
  cases ha with
  | take k i =>
    rcases ho with ho | ho
    · cases ho; exact .inr rfl
    · exact .inl (.inr ⟨ho.1,rfl⟩)
  | leave r =>
    rcases ho with ho | ⟨ho,-⟩
    · cases ho
    · left
      cases r with
      | none => exact .inr ⟨ho,rfl⟩
      | some d =>
        cases d with
        | created k i x => exact .inr ⟨ho,rfl⟩
        | downed k i =>
          cases k with
          | sem => exact .inr ⟨ho,rfl⟩
          | mutex =>
            by_cases hi : i = id
            · subst hi; exact .inl rfl
            · exact .inr ⟨by simpa [holds,hi] using ho,rfl⟩
        | upped k i =>
          cases k with
          | sem => exact .inr ⟨ho,rfl⟩
          | mutex =>
            by_cases hi : i = id
            · subst hi; simp [holds] at ho
            · exact .inr ⟨by simpa [holds,hi] using ho,by simp [Pc.releasing,hi]⟩
  | wake k i =>
    rcases ho with ho | ⟨ho,hr⟩
    · cases ho
    · cases k <;> exact .inl (.inr ⟨ho,hr⟩)
  | initDone j | initSet j =>
    rcases ho with ho | ⟨ho,-⟩
    · cases j <;> cases ho
    · exact .inl (.inr ⟨ho,rfl⟩)
  | _ =>
    rcases ho with ho | ⟨ho,-⟩
    · cases ho
    · exact .inl (.inr ⟨ho,rfl⟩)

lemma act_store (hc : c' = .store .mutex id) : v' = v ∧ c = .check (.up .mutex id) ∧ (v.objs id).used = true ∧
      (v.objs id).kind = mutex.code ∧ (v.objs id).value = 0 := by
  cases ha with
  | checkUp k i hu hk hr =>
    cases hc
    exact ⟨rfl,rfl,hu,hk,by simpa [upReady] using hr⟩
  | initDone j | initSet j => cases j <;> cases hc
  | _ => cases hc

lemma act_releasing (hc : c'.releasing id = true) :
    (v'.objs id).value ≠ 0 ∨ (c.releasing id = true ∧ v'.objs = v.objs) := by
  cases ha with
  | store k i =>
    cases k with
    | sem => cases hc
    | mutex =>
      have hi : i = id := by simpa [Pc.releasing] using hc
      subst hi
      left
      simp [upStore]
  | wake k i => cases k <;> exact .inr ⟨hc,rfl⟩
  | initDone j | initSet j => cases j <;> cases hc
  | _ => cases hc

end

section
variable {s : State n} {t : Fin n} {v' : Vars n} {c' : Pc} {e : List Done}

variable (hC : Core s) (hM : MutexAt s)
include hC hM

lemma owns_run (ha : Acts s.vars t (s.pc t) v' c' e) (u : Fin n) (id : Id)
    (ho : Owns u id (update s.pc t c' u) (e.map (mk t)++s.hist)) :
    (v'.objs id).used = true ∧ (v'.objs id).kind = mutex.code ∧ (v'.objs id).value = 0 ∧
      (v'.objs id).owner = pid u := by
  have hold : Owns u id (s.pc u) s.hist ∨ (u = t ∧ s.pc t = .take .mutex id) := by
    by_cases hut : u = t
    · subst hut
      rw [update_self] at ho
      exact (act_owns ha ho).imp_right (fun h => ⟨rfl,h⟩)
    · rw [update_of_ne hut] at ho
      exact .inl (ho.imp_right (fun ⟨h1,h2⟩ => ⟨holds_other hut id e s.hist ▸ h1,h2⟩))
  rcases hold with hold | ⟨rfl,hc⟩
  · obtain ⟨hu,hk,h0,hown⟩ := hM.owns u id hold
    obtain ⟨hu',hk'⟩ := act_used ha hu
    refine ⟨hu',hk'.trans hk,?_⟩
    rcases act_objs ha with ⟨he,-⟩ | ⟨k,x,i,-,hi,-,he⟩ | ⟨k,i,hc,-,he⟩ | ⟨k,i,hc,hc',he⟩
    · rw [he]; exact ⟨h0,hown⟩
    · have hne : id ≠ i := by rintro rfl; simp [hu] at hi
      rw [he,update_of_ne hne]
      exact ⟨h0,hown⟩
    · have hne : id ≠ i := by rintro rfl; exact hC.take t k id hc h0
      rw [he,update_of_ne hne]
      exact ⟨h0,hown⟩
    · have hne : id ≠ i := by
        rintro rfl
        have hkind := (hC.target t k id (by rw [hc]; rfl)).2
        rw [hk] at hkind
        cases k with
        | sem => cases hkind
        | mutex =>
          -- The thread that stores is the owner, and has begun to release.
          have hut := pid_injective (hown.symm.trans (hM.store t id hc))
          subst hut
          rw [update_self,hc'] at ho
          rcases ho with ho | ⟨-,hr⟩
          · cases ho
          · simp [Pc.releasing] at hr
      rw [he,update_of_ne hne]
      exact ⟨h0,hown⟩
  · obtain ⟨hu,hk⟩ := hC.target u .mutex id (by rw [hc]; rfl)
    rw [hc] at ha
    cases ha with
    | take => simp [downStore,hu,hk]

lemma store_run (hq : ownerReleases s (.run t) = true)
    (ha : Acts s.vars t (s.pc t) v' c' e) (u : Fin n) (id : Id)
    (hu : update s.pc t c' u = .store .mutex id) : (v'.objs id).owner = pid u := by
  by_cases hut : u = t
  · subst hut
    rw [update_self] at hu
    obtain ⟨rfl,hc,h1,h2,h3⟩ := act_store ha hu
    simpa [ownerReleases,hc,h1,h2,h3] using hq
  · rw [update_of_ne hut] at hu
    rcases act_objs_inKs ha with ho | hk
    · rw [ho]; exact hM.store u id hu
    · exact (hut (hC.ks.unique (by rw [hu]; rfl) hk)).elim

lemma rel_run (ha : Acts s.vars t (s.pc t) v' c' e) (u : Fin n) (id : Id)
    (hu : (update s.pc t c' u).releasing id = true) : (v'.objs id).value ≠ 0 := by
  by_cases hut : u = t
  · subst hut
    rw [update_self] at hu
    rcases act_releasing ha hu with h | ⟨hr,ho⟩
    · exact h
    · rw [ho]; exact hM.rel u id hr
  · rw [update_of_ne hut] at hu
    rcases act_objs_inKs ha with ho | hk
    · rw [ho]; exact hM.rel u id hu
    · exact (hut (hC.ks.unique (releasing_inKs hu) hk)).elim

end

lemma mutexAt_step {s s' : State n} {l : Label n} (hC : Core s) (hM : MutexAt s)
    (hq : ownerReleases s l = true) (h : s.step l = some s') : MutexAt s' := by
  cases l with
  | run t =>
    obtain ⟨v',c',e,ha,rfl⟩ := run_inv h
    exact ⟨owns_run hC hM ha,store_run hC hM hq ha,rel_run hC hM ha⟩
  | call t c =>
    obtain ⟨hi,rfl⟩ := call_inv h
    have hc := start_cases c
    generalize c.start = c' at hc ⊢
    have hsame : ∀ u (P : Pc → Prop), P (update s.pc t c' u) → P (s.pc u) ∨ P .idle ∨ ∃ j, P (.initTest j) := by
      intro u P hP
      by_cases hut : u = t
      · subst hut
        rw [update_self] at hP
        rcases hc with rfl | ⟨j,rfl⟩
        · exact .inr (.inl hP)
        · exact .inr (.inr ⟨j,hP⟩)
      · rw [update_of_ne hut] at hP
        exact .inl hP
    refine ⟨fun u id ho => hM.owns u id ?_,fun u id hu => ?_,fun u id hu => ?_⟩
    · by_cases hut : u = t
      · subst hut
        rw [hi]
        refine ho.imp (fun h => ?_) (fun h => ⟨h.1,rfl⟩)
        simp only [update_self] at h
        rcases hc with rfl | ⟨j,rfl⟩ <;> cases h
      · simpa [hut] using ho
    · rcases hsame u (· = .store .mutex id) hu with h | h | ⟨j,h⟩
      · exact hM.store u id h
      · cases h
      · cases h
    · rcases hsame u (·.releasing id = true) hu with h | h | ⟨j,h⟩
      · exact hM.rel u id h
      · cases h
      · cases h
  | kill t =>
    obtain ⟨-,rfl⟩ := kill_inv h
    exact ⟨hM.owns,hM.store,hM.rel⟩

/-- Mutual exclusion, for any number of threads and any calls in which a held mutex is released
by its owner: at most one thread holds a mutex, and a release by anybody else fails and leaves
the table as it is. -/
theorem mutex_exclusion (n : ℕ) (s : State n)
    (h : (kernel n).ReachWhile (fun s l => quietInit s l = true ∧ ownerReleases s l = true) s) :
    (∀ t u id, holds t id s.hist = true → holds u id s.hist = true → t = u) ∧
    (∀ t s' id, s.pc t = .check (.up .mutex id) → ownerReleases s (.run t) = true →
      s.step (.run t) = some s' → (s.vars.objs id).owner ≠ pid t →
      s'.pc t = .leave none ∧ s'.vars.objs = s.vars.objs) := by
  have hC : Core s := reach_core (fun _ _ h => h.1) h
  have hM : MutexAt s := System.ReachWhile.invariant_on (J := Core) (I := MutexAt)
    (fun _ hs => reach_core (fun _ _ h => h.1) hs)
    (fun s (hs : s = initial n) => by
      subst hs
      exact ⟨by simp [Owns,initial,holds],by simp [initial],by simp [initial,Pc.releasing]⟩)
    (fun _ _ _ hC hM hl hs => mutexAt_step hC hM hl.2 hs) h
  refine ⟨fun t u id ht hu => ?_,fun t s' id hc hq hs hne => ?_⟩
  · by_contra htu
    -- A thread that is releasing has set the value, and the other one would need it clear.
    have hcase : ∀ a b, a ≠ b → holds b id s.hist = true → (s.pc a).releasing id = true → False := by
      intro a b hab hb hr
      have hb' : (s.pc b).releasing id = false := by
        by_contra hn
        exact hab (hC.ks.unique (releasing_inKs hr) (releasing_inKs (by simpa using hn)))
      exact hM.rel a id hr (hM.owns b id (.inr ⟨hb,hb'⟩)).2.2.1
    have hrt : (s.pc t).releasing id = false := by
      by_contra hn
      exact hcase t u htu hu (by simpa using hn)
    have hru : (s.pc u).releasing id = false := by
      by_contra hn
      exact hcase u t (Ne.symm htu) ht (by simpa using hn)
    have h1 := (hM.owns t id (.inr ⟨ht,hrt⟩)).2.2.2
    have h2 := (hM.owns u id (.inr ⟨hu,hru⟩)).2.2.2
    exact htu (pid_injective (h1.symm.trans h2))
  · obtain ⟨v',c',e,ha,rfl⟩ := run_inv hs
    have hns : ∀ i, c' ≠ .store .mutex i := by
      intro i hi
      obtain ⟨-,hc2,h1,h2,h3⟩ := act_store ha hi
      rw [hc] at hc2
      cases hc2
      simp [ownerReleases,hc,h1,h2,h3,hne] at hq
    rw [hc] at ha
    cases ha with
    | reject => exact ⟨by simp,rfl⟩
    | checkUp => exact (hns id rfl).elim

/-- Thread 0 creates a mutex and acquires it. -/
theorem mutex_exclusion_one_holder : ∃ s : State 2,
    (kernel 2).ReachWhile (fun s l => quietInit s l = true ∧ ownerReleases s l = true) s ∧
    holds 0 0 s.hist = true ∧ ∀ u, holds u 0 s.hist = true → u = 0 := by
  obtain ⟨s,hs,hp⟩ := System.reachWhile_of_exec (M := kernel 2)
    (fun s l => quietInit s l && ownerReleases s l) (fun _ _ h => (Bool.and_eq_true _ _).mp h)
    (System.schedule [(.call 0 .klockCreate,1),(.run 0,6),(.call 0 (.klockAcquire 0),1),(.run 0,6)])
    (fun s => holds 0 0 s.hist) rfl (by decide +kernel)
  exact ⟨s,hs,hp,fun u hu => (mutex_exclusion 2 s hs).1 u 0 0 hu hp⟩

/-- Thread 1 releases the mutex that thread 0 holds, and acquires it too. -/
theorem foreign_release_two_holders : ∃ s : State 2, (kernel 2).Reachable s ∧
    holds 0 0 s.hist = true ∧ holds 1 0 s.hist = true := by
  obtain ⟨s,hs,hp⟩ := System.reachable_of_exec (M := kernel 2)
    (System.schedule [(.call 0 .klockCreate,1),(.run 0,6),(.call 0 (.klockAcquire 0),1),(.run 0,6),
      (.call 1 (.klockRelease 0),1),(.run 1,6),(.call 1 (.klockAcquire 0),1),(.run 1,6)])
    (fun s => holds 0 0 s.hist && holds 1 0 s.hist) rfl (by decide +kernel)
  exact ⟨s,hs,(Bool.and_eq_true _ _).mp hp⟩

end Xv6Threads.Ksync
