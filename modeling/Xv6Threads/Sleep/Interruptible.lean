import Xv6Threads.Foundations.Transition

/-! `kill` against the calls that wait in a loop of the form `while(condition){ if(killed) return -1; sleep(chan, lock); }`.
A step is one access to shared data, or the stretch between two accesses of the locks; what the loop conditions
read may be anything at any time. A kill that comes after the test and before `sleep` has `ptable.lock` is lost. -/
namespace Xv6Threads.Sleep
open Function Bool

/-- The calls, with the pipe, semaphore or mutex that they are about. -/
inductive Call
  | piperead (pipe : ℕ)
  | pipewrite (pipe : ℕ)
  | sysSleep
  | consoleread
  | ksemWait (id : ℕ)
  | klockAcquire (id : ℕ)
  deriving DecidableEq

/-- The spinlocks that the calls hold while they test their conditions. -/
inductive Lock
  | pipe (k : ℕ)
  | ticks
  | cons
  | ksync
  deriving DecidableEq

inductive Chan
  | nread (pipe : ℕ)
  | nwrite (pipe : ℕ)
  | ticks
  | input
  | obj (id : ℕ)
  deriving DecidableEq

def Call.lock : Call → Lock
  | .piperead k | .pipewrite k => .pipe k
  | .sysSleep => .ticks
  | .consoleread => .cons
  | .ksemWait _ | .klockAcquire _ => .ksync

/-- What the call sleeps on. -/
def Call.chan : Call → Chan
  | .piperead k => .nread k
  | .pipewrite k => .nwrite k
  | .sysSleep => .ticks
  | .consoleread => .input
  | .ksemWait i | .klockAcquire i => .obj i

/-- `pipewrite` wakes the readers before it sleeps. -/
def Call.wakes : Call → Option Chan
  | .pipewrite k => some (.nread k)
  | _ => none

/-- Where a process is. In `work` it has what it waited for. -/
inductive Pc
  | user
  | acquire (c : Call)
  | loop (c : Call)
  | killedTest (c : Call)
  | wake (c : Call) (ch : Chan)
  | sleepLock (c : Call)
  | sleepRelease (c : Call)
  | sleepSet (c : Call)
  | asleep (c : Call)
  | tidy (c : Call)
  | reacquire (c : Call)
  | work (c : Call)
  | leave (c : Call)
  deriving DecidableEq

structure State (T : Type) where
  lock : Lock → Option T
  ptableLock : Option T
  killed : T → Bool
  sleeping : T → Bool
  chan : T → Option Chan
  pc : T → Pc

open State

/-- Somebody enters a call, takes the next step in it, is killed, or a channel is woken by the rest of the
kernel. In `run` the flag says whether the loop has to wait, or whether there is more to wait for. -/
inductive Label (T : Type)
  | call (t : T) (c : Call)
  | run (t : T) (again : Bool)
  | kill (t : T)
  | wakeup (ch : Chan)

variable {T : Type}

def State.wakeup1 (s : State T) (ch : Chan) : State T :=
  {s with sleeping := fun u => s.sleeping u && !(s.chan u == some ch)}

variable [DecidableEq T]

def State.goto (s : State T) (t : T) (k : Pc) : State T := {s with pc := update s.pc t k}

def State.setLock (s : State T) (l : Lock) (o : Option T) : State T := {s with lock := update s.lock l o}

/-- The next step of `t`; `none` while it spins or sleeps. -/
def State.run (s : State T) (t : T) (again : Bool) : Option (State T) :=
  match s.pc t with
  | .user => none
  | .acquire c => if s.lock c.lock = none then some ((s.setLock c.lock (some t)).goto t (.loop c)) else none
  | .loop c => some (s.goto t (if again then .killedTest c else .work c))
  | .killedTest c =>
    some (s.goto t (if s.killed t then .leave c else match c.wakes with
      | some ch => .wake c ch
      | none => .sleepLock c))
  | .wake c ch => if s.ptableLock = none then some ((s.wakeup1 ch).goto t (.sleepLock c)) else none
  | .sleepLock c => if s.ptableLock = none then some ({s with ptableLock := some t}.goto t (.sleepRelease c)) else none
  | .sleepRelease c => some ((s.setLock c.lock none).goto t (.sleepSet c))
  | .sleepSet c =>
    some ({s with
      chan := update s.chan t (some c.chan)
      sleeping := update s.sleeping t true
      ptableLock := none}.goto t (.asleep c))
  | .asleep c =>
    if s.sleeping t = false ∧ s.ptableLock = none then some ({s with ptableLock := some t}.goto t (.tidy c)) else none
  | .tidy c =>
    some ({s with chan := update s.chan t none, ptableLock := none}.goto t (.reacquire c))
  | .reacquire c => if s.lock c.lock = none then some ((s.setLock c.lock (some t)).goto t (.loop c)) else none
  | .work c => some (s.goto t (if again then .loop c else .leave c))
  | .leave c => some ((s.setLock c.lock none).goto t .user)

/-- `kill` holds `ptable.lock` throughout. -/
def State.kill (s : State T) (t : T) : State T :=
  {s with killed := update s.killed t true, sleeping := update s.sleeping t false}

def State.step (s : State T) : Label T → Option (State T)
  | .call t c => if s.pc t = .user then some (s.goto t (.acquire c)) else none
  | .run t again => s.run t again
  | .kill t => if s.ptableLock = none then some (s.kill t) else none
  | .wakeup ch => if s.ptableLock = none then some (s.wakeup1 ch) else none

structure Start (s : State T) : Prop where
  lock : ∀ l, s.lock l = none
  ptableLock : s.ptableLock = none
  sleeping : ∀ t, s.sleeping t = false
  pc : ∀ t, s.pc t = .user

variable (T) in
def waiting : System (State T) (Label T) where
  init := Start
  step := State.step

/-- The process has found that it has not been killed and is about to sleep. -/
def Pc.resolved : Pc → Bool
  | .wake _ _ | .sleepLock _ => true
  | _ => false

/-- Nobody is killed between the test of `killed` and the `acquire(&ptable.lock)` in `sleep`. -/
def killsInTime (s : State T) : Label T → Prop
  | .kill t => (s.pc t).resolved = false
  | _ => True

/-- `sleep` has `ptable.lock`. -/
def Pc.lockedTable : Pc → Bool
  | .sleepRelease _ | .sleepSet _ | .tidy _ => true
  | _ => false

/-- The process will be asleep before it tests `killed` again. -/
def Pc.bound : Pc → Bool
  | .wake _ _ | .sleepLock _ | .sleepRelease _ | .sleepSet _ => true
  | _ => false

lemma bound_eq_false {k : Pc} (h1 : k.lockedTable = false) (h2 : k.resolved = false) : k.bound = false := by
  cases k <;> first | rfl | exact h1 | exact h2

/-- A process that is about to sleep or asleep has not been killed, and `sleep` holds `ptable.lock` where it says so. -/
structure Heard (s : State T) : Prop where
  table : ∀ t, (s.pc t).lockedTable = true → s.ptableLock = some t
  bound : ∀ t, (s.pc t).bound = true → s.killed t = false
  asleep : ∀ t, s.sleeping t = true → s.killed t = false

section
variable {s s' : State T} {t : T} {k : Pc}

lemma heard_goto (hH : Heard s) (hpc : s'.pc = update s.pc t k) (hkilled : s'.killed = s.killed)
    (hother : ∀ u, u ≠ t → (s.pc u).lockedTable = true → s'.ptableLock = some u)
    (hself : k.lockedTable = true → s'.ptableLock = some t) (hbound : k.bound = true → s.killed t = false)
    (hsleep : ∀ u, s'.sleeping u = true → s.killed u = false) : Heard s' := by
  have hp : s'.pc t = k := by rw [hpc,update_self]
  have hq : ∀ u, u ≠ t → s'.pc u = s.pc u := fun u hu => by rw [hpc,update_of_ne hu]
  refine ⟨fun u hu => ?_,fun u hu => ?_,fun u hu => ?_⟩
  · by_cases hut : u = t
    · rw [hut,hp] at hu
      rw [hut]
      exact hself hu
    · rw [hq u hut] at hu
      exact hother u hut hu
  · rw [hkilled]
    by_cases hut : u = t
    · rw [hut,hp] at hu
      rw [hut]
      exact hbound hu
    · rw [hq u hut] at hu
      exact hH.bound u hu
  · rw [hkilled]
    exact hsleep u hu

omit [DecidableEq T] in
lemma Heard.free (hH : Heard s) (hfree : s.ptableLock = none) (u : T) : (s.pc u).lockedTable = false := by
  by_contra h
  have := hH.table u (by simpa using h)
  rw [hfree] at this
  cases this

omit [DecidableEq T] in
lemma Heard.alone (hH : Heard s) (ht : (s.pc t).lockedTable = true) (u : T) (hu : u ≠ t) : (s.pc u).lockedTable = false := by
  by_contra h
  have h1 := hH.table u (by simpa using h)
  rw [hH.table t ht] at h1
  exact hu (Option.some.inj h1).symm

lemma heard_run {again : Bool} (hH : Heard s) (h : s.run t again = some s') : Heard s' := by
  have hkeep : ∀ u, u ≠ t → (s.pc u).lockedTable = true → s.ptableLock = some u := fun u _ => hH.table u
  unfold run at h
  cases hpc : s.pc t with
  | user => simp only [hpc] at h; cases h
  | acquire c | reacquire c =>
    simp only [hpc] at h
    split_ifs at h
    cases h
    exact heard_goto hH rfl rfl hkeep nofun nofun hH.asleep
  | loop c | work c =>
    simp only [hpc] at h
    cases h
    cases again <;> exact heard_goto hH rfl rfl hkeep nofun nofun hH.asleep
  | killedTest c =>
    simp only [hpc] at h
    cases h
    cases hk : s.killed t with
    | true => exact heard_goto hH rfl rfl hkeep nofun nofun hH.asleep
    | false =>
      simp only [false_eq_true,if_false]
      cases c.wakes with
      | none | some ch => exact heard_goto hH rfl rfl hkeep nofun (fun _ => hk) hH.asleep
  | wake c ch =>
    simp only [hpc] at h
    split_ifs at h
    cases h
    have hlive := hH.bound t (by rw [hpc]; rfl)
    refine heard_goto hH rfl rfl hkeep nofun (fun _ => hlive) fun u hu => hH.asleep u ?_
    exact (and_eq_true_iff.mp hu).1
  | sleepLock c =>
    simp only [hpc] at h
    split_ifs at h with hfree
    cases h
    have hlive := hH.bound t (by rw [hpc]; rfl)
    refine heard_goto hH rfl rfl (fun u _ hu => ?_) (fun _ => rfl) (fun _ => hlive) hH.asleep
    rw [hH.free hfree u] at hu
    cases hu
  | sleepRelease c =>
    simp only [hpc] at h
    cases h
    have hlive := hH.bound t (by rw [hpc]; rfl)
    exact heard_goto hH rfl rfl hkeep (fun _ => hH.table t (by rw [hpc]; rfl)) (fun _ => hlive) hH.asleep
  | sleepSet c =>
    simp only [hpc] at h
    cases h
    have hlive := hH.bound t (by rw [hpc]; rfl)
    refine heard_goto hH rfl rfl (fun u hut hu => ?_) nofun nofun fun u hu => ?_
    · rw [hH.alone (by rw [hpc]; rfl) u hut] at hu
      cases hu
    · by_cases hut : u = t
      · rw [hut]
        exact hlive
      · refine hH.asleep u ?_
        rw [← hu]
        exact (update_of_ne hut ..).symm
  | asleep c =>
    simp only [hpc] at h
    split_ifs at h with hfree
    cases h
    refine heard_goto hH rfl rfl (fun u _ hu => ?_) (fun _ => rfl) nofun hH.asleep
    rw [hH.free hfree.2 u] at hu
    cases hu
  | tidy c =>
    simp only [hpc] at h
    cases h
    refine heard_goto hH rfl rfl (fun u hut hu => ?_) nofun nofun hH.asleep
    rw [hH.alone (by rw [hpc]; rfl) u hut] at hu
    cases hu
  | leave c =>
    simp only [hpc] at h
    cases h
    exact heard_goto hH rfl rfl hkeep nofun nofun hH.asleep

lemma heard_step {l : Label T} (hH : Heard s) (hok : killsInTime s l) (h : s.step l = some s') : Heard s' := by
  cases l with
  | call t c =>
    simp only [step] at h
    split_ifs at h
    cases h
    exact heard_goto hH rfl rfl (fun u _ => hH.table u) nofun nofun hH.asleep
  | run t again => exact heard_run hH h
  | kill t =>
    simp only [step] at h
    split_ifs at h with hfree
    cases h
    have hnot : (s.pc t).bound = false := by
      have h1 := hH.free hfree t
      have h2 : (s.pc t).resolved = false := hok
      exact bound_eq_false h1 h2
    refine ⟨hH.table,fun u hu => ?_,fun u hu => ?_⟩
    · have hut : u ≠ t := by
        rintro rfl
        rw [show (s.pc u).bound = true from hu] at hnot
        cases hnot
      exact (update_of_ne hut ..).trans (hH.bound u hu)
    · change update s.sleeping t false u = true at hu
      by_cases hut : u = t
      · rw [hut,update_self] at hu
        cases hu
      · rw [update_of_ne hut] at hu
        exact (update_of_ne hut ..).trans (hH.asleep u hu)
  | wakeup ch =>
    simp only [step] at h
    split_ifs at h
    cases h
    exact ⟨hH.table,hH.bound,fun u hu => hH.asleep u (and_eq_true_iff.mp hu).1⟩

end

omit [DecidableEq T] in
lemma heard_start {s : State T} (h : Start s) : Heard s := by
  refine ⟨fun t ht => ?_,fun t ht => ?_,fun t ht => ?_⟩
  · rw [h.pc t] at ht
    cases ht
  · rw [h.pc t] at ht
    cases ht
  · rw [h.sleeping t] at ht
    cases ht

/-- A process that sleeps in one of the calls has not been killed, if no kill comes between its test and its sleep. -/
theorem killed_not_asleep {s : State T} {t : T} (h : (waiting T).ReachWhile killsInTime s)
    (hs : s.sleeping t = true) : s.killed t = false :=
  (System.ReachWhile.invariant (I := Heard) (fun _ => heard_start) (fun _ _ _ hH hok hs => heard_step hH hok hs) h).asleep t hs

/-- Nothing has happened yet. -/
def quiet : State (Fin 2) := ⟨fun _ => none,none,fun _ => false,fun _ => false,fun _ => none,fun _ => .user⟩

lemma quiet_start : Start quiet := ⟨fun _ => rfl,rfl,fun _ => rfl,fun _ => rfl⟩

/-- A reader sleeps on an empty pipe while the other process is killed. -/
theorem reader_sleeps_not_killed : ∃ s : State (Fin 2), (waiting (Fin 2)).ReachWhile killsInTime s ∧
    s.pc 0 = .asleep (.piperead 0) ∧ s.killed 1 = true ∧ s.sleeping 0 = true ∧ s.killed 0 = false := by
  have hrun : ∃ s, (waiting (Fin 2)).ReachWhile killsInTime s ∧
      s.pc 0 = .asleep (.piperead 0) ∧ s.killed 1 = true ∧ s.sleeping 0 = true :=
    System.reachWhile_of_exec (fun s l => match l with
        | .kill t => !(s.pc t).resolved
        | _ => true)
      (fun s l h => by
        cases l with
        | kill t => exact (Bool.not_eq_true' _).mp h
        | _ => trivial)
      [.call 0 (.piperead 0),.run 0 true,.run 0 true,.run 0 true,.kill 1,.run 0 true,.run 0 true,.run 0 true]
      _ quiet_start (by decide +kernel)
  obtain ⟨s,hs,h1,h2,h3⟩ := hrun
  exact ⟨s,hs,h1,h2,h3,killed_not_asleep hs h3⟩

open scoped FixedRuns

/-- What the process does up to its test of `killed`, the kill, and what it does after it. -/
def lostKill (n : ℕ) (c : Call) : List (Label (Fin 2)) :=
  .call 0 c :: List.replicate 3 (.run 0 true)++.kill 0 :: List.replicate n (.run 0 true)

/-- In each of the calls, a process that is killed after its test of `killed` and before `sleep` has `ptable.lock`
sleeps, with all spinlocks free. -/
lemma lostKill_reachable (c : Call) : ∃ s : State (Fin 2), (waiting (Fin 2)).Reachable s ∧
    (∀ l, s.lock l = none) ∧ s.ptableLock = none ∧ s.pc 0 = .asleep c ∧ s.sleeping 0 = true ∧ s.killed 0 = true := by
  have hlock : ∀ l l' : Lock, update (update quiet.lock l (some 0)) l none l' = none := by
    intro l l'
    rw [update_idem]
    exact congrFun (update_eq_self l quiet.lock) l'
  have hrun : ∀ n s, (waiting (Fin 2)).exec (fun _ _ => true) quiet (lostKill n c) = some s →
      (waiting (Fin 2)).Reachable s := fun n s => System.exec_reachWhile (fun _ _ _ => trivial) (.init quiet_start)
  cases c with
  | pipewrite k => exact ⟨_,hrun 4 _ rfl,hlock _,rfl,rfl,rfl,rfl⟩
  | _ => exact ⟨_,hrun 3 _ rfl,hlock _,rfl,rfl,rfl,rfl⟩

/-- A reader of a pipe, for one. -/
theorem kill_before_sleep_lost : ∃ s : State (Fin 2), (waiting (Fin 2)).Reachable s ∧ (∀ l, s.lock l = none) ∧
    s.ptableLock = none ∧ s.pc 0 = .asleep (.piperead 0) ∧ s.sleeping 0 = true ∧ s.killed 0 = true :=
  lostKill_reachable (.piperead 0)

end Xv6Threads.Sleep
