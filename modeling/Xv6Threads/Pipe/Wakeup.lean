import Xv6Threads.Pipe.Fifo

/-! Who is asleep on a pipe. A process goes to sleep only when it has to wait, and whoever makes the
pipe ready owes it a wakeup until it lets go of the lock. One exit of `pipewrite` forgets the debt. -/
namespace Xv6Threads.Pipe
open Function Bool Nat
variable {T : Type}

/-- A process that waits for `k` has to: the pipe is empty, or full, and the other end is open. -/
def Blocked (v : Vars T) : Wait → Prop
  | .read _ => v.nread = v.nwrite ∧ v.writeopen = true
  | .write _ _ => v.nwrite = v.nread+512 ∧ v.readopen = true

/-- The wakeups that a process still owes when it is inside. -/
def Pc.Owes : Pc → Chan → Prop
  | .writeTest _ i b, .nread | .fullTest _ i b, .nread => b < i
  | .fullWake _ _, .nread | .writeWake _, .nread => True
  | .readCopy _ _, .nwrite | .readWake _ _, .nwrite => True
  | .closeWake w, ch => ch = closeChan w
  | _, _ => False

/-- What the process inside has found and nobody else can change. -/
def Pc.Found (v : Vars T) : Pc → Prop
  | .writeTest _ i b => b ≤ i
  | .fullTest _ i b => b ≤ i ∧ v.nwrite = v.nread+512
  | .fullWake c i => Blocked v (.write c i)
  | .sleepLock k | .sleepRelease k => Blocked v k
  | _ => True

/-- Process `u` is asleep, or about to be and out of reach of a wakeup. -/
def Waits (s : State T) (u : T) (k : Wait) : Prop :=
  s.pc u = .sleepSet k ∨ (s.pc u = .asleep k ∧ s.vars.sleeping u = true)

structure WakeInv (s : State T) : Prop where
  found : ∀ t, (s.pc t).Found s.vars
  asleep : ∀ t, s.vars.sleeping t = true → ∃ k, s.pc t = .asleep k ∧ s.vars.chan t = some k.chan
  waits : ∀ u k, Waits s u k → Blocked s.vars k ∨ ∃ t, (s.pc t).Owes k.chan

/-- The processes with `ptable.lock` are where they should be. -/
def PtableLocked (s : State T) : Prop := Guarded Pc.holdsPtable s.vars.ptableLock s.pc

variable [DecidableEq T] {v v' : Vars T} {t u : T} {pc pc' : Pc} {s s' : State T} {l : Label T} {k : Wait}

lemma acts_ptable (h : Acts v t pc v' pc') : Handover t v.ptableLock v'.ptableLock pc.holdsPtable pc'.holdsPtable := by
  cases h with
  | acquire j => cases j <;> exact .keep rfl rfl
  | reacquire k => cases k <;> exact .keep rfl rfl
  | sleepLock k hp => exact .take hp rfl rfl
  | sleepSet k => exact .drop rfl rfl rfl
  | asleep k hs hp => exact .take hp rfl rfl
  | tidy k => exact .drop rfl rfl rfl
  | leave r => exact .keep (finish_lock v r).2 rfl
  | closeSet w => exact .keep (shut_lock v w).2 rfl
  | _ => exact .keep rfl rfl

lemma ptable_step (hL : PtableLocked s) (h : Steps s l s') : PtableLocked s' := by
  cases h with
  | start l t j hi hj =>
    refine Guarded.step hL (.keep rfl ?_)
    rw [hi]
    rfl
  | run t v pc h => exact Guarded.step hL (acts_ptable h)
  | kill t => exact hL

omit [DecidableEq T] in
lemma Blocked.congr (hb : Blocked v k) (h : Same v v') : Blocked v' k := by
  unfold Blocked at hb ⊢
  rw [h.nread,h.nwrite,h.readopen,h.writeopen]
  exact hb

omit [DecidableEq T] in
lemma Found.congr (hb : pc.Found v) (h : Same v v') : pc.Found v' := by
  cases pc with
  | fullTest c i b =>
    refine ⟨hb.1,?_⟩
    rw [h.nread,h.nwrite]
    exact hb.2
  | fullWake c i => exact Blocked.congr (k := .write c i) hb h
  | sleepLock k | sleepRelease k => exact Blocked.congr (k := k) hb h
  | _ => exact hb

variable {ch : Chan}

lemma inside_of_owes (h : pc.Owes ch) : pc.inside = true := by
  cases pc with
  | idle | acquire | sleepSet | asleep | tidy | reacquire => cases ch <;> cases h
  | _ => rfl

lemma acts_found (hf : pc.Found v) (h : Acts v t pc v' pc') : pc'.Found v' := by
  cases h with
  | acquire j => cases j <;> first | exact le_rfl | trivial
  | reacquire k => cases k <;> first | exact le_rfl | trivial
  | full c i b hi hn => exact ⟨hf,hn⟩
  | store c i b hi hn => exact le_succ_of_le hf
  | stay c i b hk =>
    refine ⟨hf.2,?_⟩
    simpa using fun h => hk (.inl h)
  | fullWake c i hp => exact hf
  | readEmpty n he hw => exact ⟨he,hw⟩
  | sleepLock k hp => exact hf
  | _ => trivial

lemma acts_blocked (hf : pc.Found v) (hb : Blocked v k) (h : Acts v t pc v' pc') : Blocked v' k ∨ pc'.Owes k.chan := by
  cases h with
  | store c i b hi hn =>
    cases k with
    | read n => exact .inr (lt_succ_of_le hf)
    | write d j => exact (hn hb.1).elim
  | take n bytes hn hr =>
    cases k with
    | read m => exact (hr hb.1).elim
    | write d j => exact .inr trivial
  | closeSet w =>
    cases w <;> cases k <;> first | exact .inl hb | exact .inr rfl
  | leave r => cases r <;> cases k <;> exact .inl hb
  | _ => cases k <;> exact .inl hb

/-- The step at which `pipewrite` gives up is taken with nothing stored that it owes a wakeup for. -/
def settled (s : State T) : Label T → Bool
  | .run t =>
    match s.pc t with
    | .fullTest _ i b => (s.vars.readopen && !s.vars.killed t) || i == b
    | _ => true
  | _ => true

lemma acts_owes (ho : pc.Owes ch) (h : Acts v t pc v' pc')
    (hok : ∀ c i b, pc = .fullTest c i b → v.readopen = false ∨ v.killed t = true → i = b)
    (hw : ∀ ch', v.ptableLock = none → v' = v.wakeup1 ch' → ch ≠ ch') : pc'.Owes ch := by
  cases h with
  | store c i b hi hn => cases ch <;> first | exact lt_succ_of_lt ho | cases ho
  | giveUp c i b hk =>
    have hib := hok c i b rfl hk
    cases ch with
    | nread => exact (lt_irrefl _ (hib ▸ ho : i < i)).elim
    | nwrite => cases ho
  | fullWake c i hp | writeWake c hp =>
    cases ch with
    | nread => exact (hw .nread hp rfl rfl).elim
    | nwrite => cases ho
  | readWake n bytes hp =>
    cases ch with
    | nread => cases ho
    | nwrite => exact (hw .nwrite hp rfl rfl).elim
  | closeWake w hp => exact (hw (closeChan w) hp rfl ho).elim
  | full | written | stay | take | taken => cases ch <;> first | exact ho | trivial
  | _ => cases ch <;> cases ho

lemma acts_sleeping (h : Acts v t pc v' pc') (hu : u ≠ t) :
    v'.chan u = v.chan u ∧ (v'.sleeping u = true → v.sleeping u = true) := by
  cases h with
  | sleepSet k =>
    dsimp only
    rw [update_of_ne hu,update_of_ne hu]
    exact ⟨rfl,id⟩
  | tidy k =>
    dsimp only
    rw [update_of_ne hu]
    exact ⟨rfl,id⟩
  | fullWake | writeWake | readWake | closeWake => exact ⟨rfl,fun h => (and_eq_true_iff.mp h).1⟩
  | closeSet w => cases w <;> exact ⟨rfl,id⟩
  | leave r => cases r <;> exact ⟨rfl,id⟩
  | _ => exact ⟨rfl,id⟩

lemma acts_asleep (ha : v.sleeping t = true → ∃ k, pc = .asleep k ∧ v.chan t = some k.chan)
    (h : Acts v t pc v' pc') (hs : v'.sleeping t = true) : ∃ k, pc' = .asleep k ∧ v'.chan t = some k.chan := by
  have hold : v.sleeping t = true → (∀ k, pc ≠ .asleep k) → ∃ k, pc' = .asleep k ∧ v'.chan t = some k.chan := by
    intro h1 h2
    obtain ⟨k,hk,-⟩ := ha h1
    exact (h2 k hk).elim
  cases h with
  | sleepSet k => exact ⟨k,rfl,update_self ..⟩
  | asleep k hn hp => exact (false_ne_true (hn.symm.trans hs)).elim
  | fullWake | writeWake | readWake | closeWake => exact hold (and_eq_true_iff.mp hs).1 nofun
  | closeSet w => cases w <;> exact hold hs nofun
  | leave r => cases r <;> exact hold hs nofun
  | _ => exact hold hs nofun

lemma acts_into (h : Acts v t pc v' pc') :
    (pc' = .sleepSet k → pc = .sleepRelease k) ∧ (pc' = .asleep k → pc = .sleepSet k) := by
  cases h with
  | acquire j => cases j <;> exact ⟨nofun,nofun⟩
  | reacquire k => cases k <;> exact ⟨nofun,nofun⟩
  | sleepRelease k => exact ⟨fun h => by cases h; rfl,nofun⟩
  | sleepSet k => exact ⟨nofun,fun h => by cases h; rfl⟩
  | _ => exact ⟨nofun,nofun⟩

lemma waits_back {v' : Vars T} (h : Acts s.vars t (s.pc t) v' pc')
    (hw : Waits {s with vars := v', pc := update s.pc t pc'} u k) :
    Waits s u k ∨ (u = t ∧ s.pc t = .sleepRelease k) := by
  unfold Waits at hw
  dsimp only at hw
  by_cases hu : u = t
  · subst hu
    rw [update_self] at hw
    rcases hw with hw | ⟨hw,-⟩
    · exact .inr ⟨rfl,(acts_into h).1 hw⟩
    · exact .inl (.inl ((acts_into h).2 hw))
  · rw [update_of_ne hu] at hw
    exact .inl (hw.imp_right fun h' => ⟨h'.1,(acts_sleeping h hu).2 h'.2⟩)

lemma unwoken (hP : PtableLocked s)
    (ha : ∀ t, s.vars.sleeping t = true → ∃ k, s.pc t = .asleep k ∧ s.vars.chan t = some k.chan)
    (h : Acts s.vars t (s.pc t) (s.vars.wakeup1 ch) pc') (hp : s.vars.ptableLock = none)
    (hw : Waits {s with vars := s.vars.wakeup1 ch, pc := update s.pc t pc'} u k) : k.chan ≠ ch := by
  have hfree := hP.outside hp
  rcases waits_back h hw with (hu | ⟨hu,hs⟩) | ⟨-,ht⟩
  · have := hfree u
    rw [hu] at this
    cases this
  · intro hk
    obtain ⟨k',hk',hc⟩ := ha u hs
    cases hu.symm.trans hk'
    have hs' : (s.vars.wakeup1 ch).sleeping u = true := by
      rcases hw with hw | hw
      · by_cases hut : u = t
        · subst hut
          dsimp only at hw
          rw [update_self] at hw
          cases hu.symm.trans ((acts_into h).1 hw)
        · dsimp only at hw
          rw [update_of_ne hut] at hw
          cases hu.symm.trans hw
      · exact hw.2
    have hne := (and_eq_true_iff.mp hs').2
    rw [hc,hk] at hne
    simp at hne
  · have := hfree t
    rw [ht] at this
    cases this

lemma wakeInv_run {v' : Vars T} (hL : Locked s) (hP : PtableLocked s) (hI : WakeInv s)
    (hok : settled s (.run t) = true) (h : Acts s.vars t (s.pc t) v' pc') :
    WakeInv {s with vars := v', pc := update s.pc t pc'} := by
  have hgive : ∀ c i b, s.pc t = .fullTest c i b → s.vars.readopen = false ∨ s.vars.killed t = true → i = b := by
    intro c i b hp hk
    dsimp only [settled] at hok
    rw [hp] at hok
    rcases hk with hk | hk <;> simpa [hk] using hok
  refine ⟨fun u => ?_,fun u hu => ?_,fun u k hw => ?_⟩
  · by_cases hu : u = t
    · subst hu
      dsimp only
      rw [update_self]
      exact acts_found (hI.found u) h
    · dsimp only
      rw [update_of_ne hu]
      by_cases hin : (s.pc t).inside = true
      · -- The others are outside and have found nothing.
        have hout : (s.pc u).inside = false := by
          by_contra hc
          exact hu (hL.unique (by simpa using hc) hin)
        cases hpc : s.pc u <;> rw [hpc] at hout <;> trivial
      · exact Found.congr (hI.found u) (same_outside h (by simpa using hin))
  · by_cases hut : u = t
    · subst hut
      dsimp only
      rw [update_self]
      exact acts_asleep (hI.asleep u) h hu
    · dsimp only
      rw [update_of_ne hut,(acts_sleeping h hut).1]
      exact hI.asleep u ((acts_sleeping h hut).2 hu)
  · by_cases hin : (s.pc t).inside = true
    · have hbefore : Blocked s.vars k ∨ (s.pc t).Owes k.chan := by
        rcases waits_back h hw with hw | ⟨-,hp⟩
        · refine (hI.waits u k hw).imp_right fun ⟨w,ho⟩ => ?_
          rwa [hL.unique (inside_of_owes ho) hin] at ho
        · have := hI.found t
          rw [hp] at this
          exact .inl this
      -- The wakeups of this step do not reach `u`, which still waits.
      have hwake : ∀ ch, s.vars.ptableLock = none → v' = s.vars.wakeup1 ch → k.chan ≠ ch := by
        intro ch hp he
        rw [he] at h hw
        exact unwoken hP hI.asleep h hp hw
      suffices hx : Blocked v' k ∨ pc'.Owes k.chan by
        refine hx.imp_right fun ho => ⟨t,?_⟩
        dsimp only
        rwa [update_self]
      rcases hbefore with hb | ho
      · exact acts_blocked (hI.found t) hb h
      · exact .inr (acts_owes ho h hgive hwake)
    · have hout : (s.pc t).inside = false := by simpa using hin
      rcases waits_back h hw with hw | ⟨-,hp⟩
      · rcases hI.waits u k hw with hb | ⟨w,ho⟩
        · exact .inl (hb.congr (same_outside h hout))
        · have hwt : w ≠ t := by
            intro he
            rw [he] at ho
            exact hin (inside_of_owes ho)
          refine .inr ⟨w,?_⟩
          dsimp only
          rwa [update_of_ne hwt]
      · rw [hp] at hout
        cases hout

lemma wakeInv_start {j : Job} (hI : WakeInv s) (hi : s.pc t = .idle) :
    WakeInv {s with pc := update s.pc t (.acquire j), calls := s.calls+1} := by
  have hother : ∀ u, u ≠ t → update s.pc t (.acquire j) u = s.pc u := fun u hu => update_of_ne hu ..
  refine ⟨fun u => ?_,fun u hu => ?_,fun u k hw => ?_⟩
  · by_cases hu : u = t
    · subst hu
      dsimp only
      rw [update_self]
      trivial
    · dsimp only
      rw [hother u hu]
      exact hI.found u
  · obtain ⟨k,hk,hc⟩ := hI.asleep u hu
    refine ⟨k,?_,hc⟩
    dsimp only
    rw [hother u fun he => by rw [he,hi] at hk; cases hk]
    exact hk
  · have hut : u ≠ t := by
      intro he
      rw [he] at hw
      unfold Waits at hw
      dsimp only at hw
      rw [update_self] at hw
      rcases hw with hw | ⟨hw,-⟩ <;> cases hw
    have hw' : Waits s u k := by
      unfold Waits at hw
      dsimp only at hw
      rwa [hother u hut] at hw
    refine (hI.waits u k hw').imp_right fun ⟨w,ho⟩ => ⟨w,?_⟩
    dsimp only
    rw [hother w fun he => by rw [he,hi] at ho; cases k.chan <;> cases ho]
    exact ho

lemma wakeInv_step (hL : Locked s) (hP : PtableLocked s) (hI : WakeInv s) (hok : settled s l = true)
    (h : Steps s l s') : WakeInv s' := by
  cases h with
  | start l t j hi hj => exact wakeInv_start hI hi
  | run t v pc h => exact wakeInv_run hL hP hI hok h
  | kill t =>
    have hs : ∀ u, update s.vars.sleeping t false u = true → s.vars.sleeping u = true := by
      intro u hu
      by_cases hut : u = t
      · rw [hut,update_self] at hu
        cases hu
      · rwa [update_of_ne hut] at hu
    refine ⟨fun u => Found.congr (hI.found u) ⟨rfl,rfl,rfl,rfl,rfl,rfl,rfl,rfl,rfl⟩,
      fun u hu => hI.asleep u (hs u hu),fun u k hw => ?_⟩
    refine (hI.waits u k (hw.imp_right fun h => ⟨h.1,hs u h.2⟩)).imp_left fun hb => ?_
    exact hb.congr ⟨rfl,rfl,rfl,rfl,rfl,rfl,rfl,rfl,rfl⟩

omit [DecidableEq T] in
lemma wakeInv_fresh (h : Fresh s) : WakeInv s := by
  refine ⟨fun t => ?_,fun t ht => ?_,fun u k hw => ?_⟩
  · rw [h.idle]
    trivial
  · rw [h.awake] at ht
    cases ht
  · unfold Waits at hw
    rw [h.idle] at hw
    rcases hw with hw | ⟨hw,-⟩ <;> cases hw

omit [DecidableEq T] in
lemma ptable_fresh (h : Fresh s) : PtableLocked s := by
  intro t
  rw [h.ptableLock,h.idle]
  exact ⟨nofun,nofun⟩

lemma reach_wakeInv (h : (pipe T).ReachWhile (fun s l => settled s l = true) s) :
    Locked s ∧ PtableLocked s ∧ WakeInv s :=
  System.ReachWhile.invariant (I := fun s => Locked s ∧ PtableLocked s ∧ WakeInv s)
    (fun s (hs : Fresh s) => ⟨locked_fresh hs,ptable_fresh hs,wakeInv_fresh hs⟩)
    (fun _ _ _ hI hok ht => ⟨locked_step hI.1 (step_cases ht),ptable_step hI.2.1 (step_cases ht),
      wakeInv_step hI.1 hI.2.1 hI.2.2 hok (step_cases ht)⟩) h

/-- Nobody is left asleep on a ready pipe, unless a write gave up after storing bytes. -/
theorem asleep_only_on_blocked_pipe (h : (pipe T).ReachWhile (fun s l => settled s l = true) s)
    (hl : s.vars.lock = none) (hs : s.vars.sleeping t = true) :
    (s.vars.chan t = some .nread → s.vars.nread = s.vars.nwrite ∧ s.vars.writeopen = true) ∧
    (s.vars.chan t = some .nwrite → s.vars.nwrite = s.vars.nread+512 ∧ s.vars.readopen = true) := by
  obtain ⟨hL,-,hI⟩ := reach_wakeInv h
  obtain ⟨k,hk,hc⟩ := hI.asleep t hs
  have hb : Blocked s.vars k := by
    rcases hI.waits t k (.inr ⟨hk,hs⟩) with hb | ⟨w,ho⟩
    · exact hb
    · have := inside_of_owes ho
      rw [hL.outside hl w] at this
      cases this
  rw [hc]
  cases k with
  | read n => exact ⟨fun _ => hb,nofun⟩
  | write c i => exact ⟨nofun,fun _ => hb⟩

/-- Process 1 sleeps in a read. -/
theorem asleep_only_on_blocked_pipe_reader :
    ∃ s, (pipe (Fin 3)).ReachWhile (fun s l => settled s l = true) s ∧ s.vars.sleeping 1 = true ∧
      s.vars.lock = none ∧ (s.vars.chan 1 = some .nread → s.vars.nread = s.vars.nwrite ∧ s.vars.writeopen = true) := by
  obtain ⟨s,hs,hp⟩ := System.reachWhile_of_exec (M := pipe (Fin 3)) settled (fun _ _ h => h)
    (System.schedule [(.read 1 2,1),(.run 1,5)])
    (fun s => decide (s.vars.lock = none) && s.vars.sleeping 1) fresh_opened (by decide +kernel)
  obtain ⟨h1,h2⟩ := Bool.and_eq_true_iff.mp hp
  exact ⟨s,hs,h2,of_decide_eq_true h1,(asleep_only_on_blocked_pipe hs (of_decide_eq_true h1) h2).1⟩

open scoped FixedRuns

/-- Process 1 goes to sleep in a read; process 0 writes 600 bytes and is killed meanwhile. -/
def killedWriter : List (Label (Fin 3)) :=
  System.schedule [(.read 1 2,1),(.run 1,5),(.write 0 (fun _ => 7) 600,1),(.kill 0,1),(.run 0,516)]

/-- A killed writer fills the pipe and gives up without waking the reader. -/
theorem killed_writer_leaves_reader_asleep :
    ∃ s, (pipe (Fin 3)).Reachable s ∧ s.vars.lock = none ∧ s.vars.sleeping 1 = true ∧
      s.vars.chan 1 = some .nread ∧ s.vars.nread ≠ s.vars.nwrite ∧ s.vars.writeopen = true :=
  System.reachable_of_exec (M := pipe (Fin 3)) killedWriter
    _ fresh_opened (by decide +kernel)

end Xv6Threads.Pipe
