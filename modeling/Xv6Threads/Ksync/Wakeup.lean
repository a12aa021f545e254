import Xv6Threads.Ksync.Invariant

/-! No wakeup is lost: a thread sleeps on a slot only while its value is zero, or while the
thread that raised it still has its `wakeup` to do. -/
namespace Xv6Threads.Ksync
open Function Pc
variable {n : ℕ}

/-- Found `value` zero, and not yet asleep. -/
def Pc.dozing : Pc → Option Id
  | .killedTest _ id | .sleepLock _ id | .sleepRelease _ id | .sleepSet _ id => some id
  | _ => none

/-- Asleep on a slot, or on the way there. -/
def Dozes (v : Vars n) (c : Pc) (t : Fin n) (id : Id) : Prop :=
  c.dozing = some id ∨ (v.sleeping t = true ∧ v.chan t = some id)

/-- Whoever dozes finds nothing to take, or will be woken. -/
def DozeAt (s : State n) : Prop :=
  ∀ t id, Dozes s.vars (s.pc t) t id → (s.vars.objs id).value = 0 ∨ ∃ u k, s.pc u = .wake k id

section
variable {v v' : Vars n} {t : Fin n} {c c' : Pc} {e : List Done}

lemma act_dozes (h : Acts v t c v' c' e) {id : Id} (hd : Dozes v' c' t id) :
    Dozes v c t id ∨ ((v.objs id).value = 0 ∧ v'.objs = v.objs ∧ ∀ k i, c ≠ .wake k i) := by
  cases h with
  | empty k i h0 =>
    rcases hd with hd | hd
    · cases hd; exact .inr ⟨h0,rfl,nofun⟩
    · exact .inl (.inr hd)
  | sleepSet k i =>
    left; left
    rcases hd with hd | ⟨-,hd⟩
    · cases hd
    · simpa [goSleep,dozing] using hd
  | tidy k i =>
    rcases hd with hd | ⟨-,hd⟩
    · cases hd
    · simp at hd
  | initDone j | initSet j =>
    rcases hd with hd | hd
    · cases j <;> cases hd
    · exact .inl (.inr hd)
  | wake k i =>
    rcases hd with hd | ⟨hs,hc⟩
    · cases hd
    · exact .inl (.inr ⟨((Bool.and_eq_true _ _).mp hs).1,hc⟩)
  | alive | sleepLock | sleepRelease => exact .inl hd
  | _ =>
    rcases hd with hd | hd
    · cases hd
    · exact .inl (.inr hd)

lemma act_wake (h : Acts v t c v' c' e) {k : Kind} {id : Id} (hc : c = .wake k id) :
    v.ptableLock = none ∧ v'.objs = v.objs ∧ ∀ u, ¬ (v'.sleeping u = true ∧ v'.chan u = some id) := by
  subst hc
  cases h with
  | wake k i hf =>
    refine ⟨hf,rfl,fun u hu => ?_⟩
    obtain ⟨hs,hc⟩ := hu
    simp only [wakeup1] at hs hc
    simp [hc] at hs

end

lemma dozes_used {s : State n} (hC : Core s) {t : Fin n} {id : Id} (hd : Dozes s.vars (s.pc t) t id) :
    (s.vars.objs id).used = true := by
  rcases hd with hd | ⟨hs,hc⟩
  · cases hp : s.pc t <;> rw [hp] at hd <;> cases hd <;> exact (hC.target t _ _ (by rw [hp]; rfl)).1
  · obtain ⟨k,i,hp,hi⟩ := hC.asleep t hs
    rw [hc] at hi
    cases hi
    exact (hC.target t k id (by rw [hp]; rfl)).1

lemma doze_run {s : State n} {t : Fin n} {v' : Vars n} {c' : Pc} {e : List Done} (hC : Core s)
    (hD : DozeAt s) (ha : Acts s.vars t (s.pc t) v' c' e) (u : Fin n) (id : Id)
    (hu : Dozes v' (update s.pc t c' u) u id) : (v'.objs id).value = 0 ∨ ∃ w k, update s.pc t c' w = .wake k id := by
  -- Whoever dozes now dozed before, or has just found the value zero.
  have hold : Dozes s.vars (s.pc u) u id ∨ (u = t ∧ (v'.objs id).value = 0) := by
    by_cases hut : u = t
    · subst hut
      rw [update_self] at hu
      exact (act_dozes ha hu).imp_right (fun ⟨h0,ho,_⟩ => ⟨rfl,by rw [ho]; exact h0⟩)
    · rw [update_of_ne hut] at hu
      obtain ⟨h1,h2⟩ := (act_sleep ha).1 u hut
      exact .inl (hu.imp_right (fun ⟨hs,hc⟩ => ⟨h1 hs,h2 ▸ hc⟩))
  rcases hold with hd | ⟨-,h0⟩
  swap
  · exact .inl h0
  have hused := dozes_used hC hd
  have hwake : ∀ w k, w ≠ t → s.pc w = .wake k id → ∃ w k, update s.pc t c' w = .wake k id :=
    fun w k hw hp => ⟨w,k,by rw [update_of_ne hw]; exact hp⟩
  rcases hD u id hd with h0 | ⟨w,k,hw⟩
  · -- The value was zero: only a store to this slot can change that.
    rcases act_objs ha with ⟨ho,-⟩ | ⟨k,x,i,-,hi,-,ho⟩ | ⟨k,i,hc,-,ho⟩ | ⟨k,i,hc,hc',ho⟩
    · rw [ho]; exact .inl h0
    · have hne : id ≠ i := by rintro rfl; simp [hused] at hi
      rw [ho,update_of_ne hne]
      exact .inl h0
    · have hne : id ≠ i := by rintro rfl; exact hC.take t k id hc h0
      rw [ho,update_of_ne hne]
      exact .inl h0
    · by_cases hi : id = i
      · subst hi
        exact .inr ⟨t,k,by rw [update_self]; exact hc'⟩
      · rw [ho,update_of_ne hi]
        exact .inl h0
  · by_cases hwt : w = t
    · -- Thread `t` wakes the sleepers, and nobody is between its test and its sleep.
      subst hwt
      obtain ⟨hf,-,hs⟩ := act_wake ha hw
      exfalso
      rcases hu with hu | hu
      · by_cases huw : u = w
        · subst huw
          rcases hd with hd | ⟨hs',-⟩
          · rw [hw] at hd; cases hd
          · obtain ⟨_,_,hp,-⟩ := hC.asleep u hs'
            rw [hw] at hp
            cases hp
        · rw [update_of_ne huw] at hu
          have hks := (hC.ks u).not.mp (by
            rw [(hC.ks w).mpr (by rw [hw]; rfl)]
            simpa using Ne.symm huw)
          have hpt := hC.pt.outside hf u
          cases hp : s.pc u <;> rw [hp] at hu hks hpt <;> simp [dozing,inKs,inPt] at hu hks hpt
      · exact hs u hu
    · exact .inr (hwake w k hwt hw)

lemma doze_step {s s' : State n} {l : Label n} (hC : Core s) (hD : DozeAt s)
    (h : s.step l = some s') : DozeAt s' := by
  cases l with
  | run t =>
    obtain ⟨v',c',e,ha,rfl⟩ := run_inv h
    exact doze_run hC hD ha
  | call t c =>
    obtain ⟨hi,rfl⟩ := call_inv h
    intro u id hu
    have hc' := start_cases c
    generalize c.start = c' at hc' hu ⊢
    have hd : Dozes s.vars (s.pc u) u id := by
      by_cases hut : u = t
      · subst hut
        refine hu.imp_left (fun hd => ?_)
        rcases hc' with rfl | ⟨j,rfl⟩ <;> simp [dozing] at hd
      · simpa [Dozes,hut] using hu
    refine (hD u id hd).imp_right (fun ⟨w,k,hw⟩ => ⟨w,k,?_⟩)
    have hwt : w ≠ t := by rintro rfl; rw [hi] at hw; cases hw
    exact (update_of_ne hwt _ _).trans hw
  | kill t =>
    obtain ⟨-,rfl⟩ := kill_inv h
    intro u id hu
    refine hD u id (hu.imp_right (fun ⟨hs,hc⟩ => ⟨?_,hc⟩))
    by_cases hut : u = t
    · subst hut; simp [killStore] at hs
    · simpa [killStore,hut] using hs

/-- No lost wakeup, for any number of threads: while `ksync_lock` is free, the slot that a
thread sleeps on has value zero. -/
theorem no_lost_wakeup (n : ℕ) (s : State n)
    (h : (kernel n).ReachWhile (fun s l => quietInit s l = true) s) (hfree : s.vars.ksyncLock = none)
    (t : Fin n) (id : Id) (hs : s.vars.sleeping t = true) (hc : s.vars.chan t = some id) :
    (s.vars.objs id).value = 0 := by
  have hC := reach_core (fun _ _ h => h) h
  have hD : DozeAt s := System.ReachWhile.invariant_on (J := Core) (I := DozeAt)
    (fun _ hs => reach_core (fun _ _ h => h) hs)
    (fun s (hs : s = initial n) => by
      subst hs
      rintro t id (hd | ⟨hs,-⟩)
      · simp [initial,Pc.dozing] at hd
      · simp [initial] at hs)
    (fun _ _ _ hC hD _ hs => doze_step hC hD hs) h
  rcases hD t id (.inr ⟨hs,hc⟩) with h0 | ⟨u,k,hu⟩
  · exact h0
  · have := hC.ks.outside hfree u
    rw [hu] at this
    cases this

/-- One thread waits for a semaphore that it has created with value zero. -/
theorem no_lost_wakeup_one_sleeper : ∃ s : State 1,
    (kernel 1).ReachWhile (fun s l => quietInit s l = true) s ∧ s.vars.ksyncLock = none ∧
    s.vars.sleeping 0 = true ∧ s.vars.chan 0 = some 0 ∧ (s.vars.objs 0).value = 0 := by
  obtain ⟨s,hs,h1,h2,h3⟩ := System.reachWhile_of_exec (M := kernel 1) quietInit (fun _ _ h => h)
    (System.schedule [(.call 0 (.ksemCreate 0),1),(.run 0,6),(.call 0 (.ksemWait 0),1),(.run 0,8)])
    (fun s => s.vars.ksyncLock = none ∧ s.vars.sleeping 0 = true ∧ s.vars.chan 0 = some 0)
    rfl (by decide +kernel)
  exact ⟨s,hs,h1,h2,h3,no_lost_wakeup 1 s hs h1 0 0 h2 h3⟩

/-- Thread 0 has found `initialized` clear and is late: its `initlock` frees the lock while
thread 2 has posted and not yet called `wakeup`, so thread 1 sleeps on a semaphore of value 1
although `ksync_lock` is free. -/
theorem late_initlock_frees_lock : ∃ s : State 3, (kernel 3).Reachable s ∧
    s.vars.ksyncLock = none ∧ s.vars.sleeping 1 = true ∧ s.vars.chan 1 = some 0 ∧ (s.vars.objs 0).value = 1 :=
  System.reachable_of_exec (M := kernel 3)
    (System.schedule [(.call 0 (.ksemPost 0),1),(.run 0,1),(.call 1 (.ksemCreate 0),1),(.run 1,6),
      (.call 1 (.ksemWait 0),1),(.run 1,8),(.call 2 (.ksemPost 0),1),(.run 2,4),(.run 0,1)])
    _ rfl (by decide +kernel)

end Xv6Threads.Ksync
