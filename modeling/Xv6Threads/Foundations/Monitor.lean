import Xv6Threads.Foundations.Lock
import Xv6Threads.Foundations.Transition

/-! Critical sections that `sleep` and `wakeup`. A party takes the spinlock of its job, runs the body of the job on
the shared data, wakes the channels that the body names one after the other, and then goes to sleep or lets go of
the lock. `sleep` takes the lock of the process table before it lets go of the spinlock, and `wakeup` holds it.
If every body that ends a wait wakes the sleeper's channel, nobody sleeps in vain while the lock is free. -/
namespace Xv6Threads
open Function Option System.Reachable Bool

/-- How a critical section ends: asleep, with a job to come back to, or outside, perhaps with another job. -/
inductive Next (J C : Type)
  | sleep (c : C) (j : J)
  | leave (j : Option J)
  deriving DecidableEq

def Next.todo {J C : Type} : Next J C → Option J
  | .sleep _ j => some j
  | .leave j => j

/-- What a body does: the new data, the channels to wake, in order, and how it ends. -/
structure Verdict (σ J C : Type) where
  data : σ
  wakes : List C
  next : Next J C

/-- `call` is what the start of a job requires and notes, `aside` what a party does to the data between its jobs,
without a lock. A body that gives `none` stops the machine. -/
structure Monitor (T σ L J C : Type) where
  init : σ → Prop
  lock : J → L
  guard : C → L
  call : σ → T → J → Option σ
  aside : σ → T → Option σ
  body : σ → T → J → Option (Verdict σ J C)

namespace Monitor

inductive Pc (J C : Type)
  | idle
  | acquire (j : J)
  | inside (j : J)
  | waking (j : J) (cs : List C) (n : Next J C)
  | sleepRelease (j : J) (c : C) (k : J)
  | sleepSet (c : C) (k : J)
  | asleep (c : C) (k : J)
  | tidy (c : C) (k : J)
  deriving DecidableEq

structure State (T σ L J C : Type) where
  data : σ
  lock : L → Option T
  table : Option T
  sleeping : T → Bool
  chan : T → Option C
  pc : T → Pc J C

/-- A party starts a job, takes its next step, does something aside, or is killed. -/
inductive Label (T J : Type)
  | call (t : T) (j : J)
  | run (t : T)
  | aside (t : T)
  | kill (t : T)

variable {T σ L J C : Type}

/-- Where a party with the job `o` goes when it has let go of the lock. -/
def Pc.start : Option J → Pc J C
  | none => .idle
  | some j => .acquire j

/-- The job that a party still has to run, or to run again. -/
def Pc.todo : Pc J C → Option J
  | .idle => none
  | .acquire j | .inside j => some j
  | .waking _ _ n => n.todo
  | .sleepRelease _ _ k | .sleepSet _ k | .asleep _ k | .tidy _ k => some k

def Pc.hasTable : Pc J C → Bool
  | .sleepRelease _ _ _ | .sleepSet _ _ | .tidy _ _ => true
  | _ => false

def State.wakeup1 [DecidableEq C] (s : State T σ L J C) (c : C) : State T σ L J C :=
  {s with sleeping := fun u => s.sleeping u && !(s.chan u == some c)}

variable [DecidableEq T] [DecidableEq L] [DecidableEq C] (M : Monitor T σ L J C)

def State.goto (s : State T σ L J C) (t : T) (k : Pc J C) : State T σ L J C := {s with pc := update s.pc t k}

def State.setLock (s : State T σ L J C) (l : L) (o : Option T) : State T σ L J C :=
  {s with lock := update s.lock l o}

/-- The next step of `t`; `none` while it spins or sleeps. -/
def run (s : State T σ L J C) (t : T) : Option (State T σ L J C) :=
  match s.pc t with
  | .idle => none
  | .acquire j => if s.lock (M.lock j) = none then some ((s.setLock (M.lock j) (some t)).goto t (.inside j)) else none
  | .inside j => (M.body s.data t j).map (fun v => {s with data := v.data}.goto t (.waking j v.wakes v.next))
  | .waking j (c :: cs) n => if s.table = none then some ((s.wakeup1 c).goto t (.waking j cs n)) else none
  | .waking j [] (.leave o) => some ((s.setLock (M.lock j) none).goto t (.start o))
  | .waking j [] (.sleep c k) =>
    if s.table = none then some ({s with table := some t}.goto t (.sleepRelease j c k)) else none
  | .sleepRelease j c k => some ((s.setLock (M.lock j) none).goto t (.sleepSet c k))
  | .sleepSet c k =>
    some ({s with
      chan := update s.chan t (some c)
      sleeping := update s.sleeping t true
      table := none}.goto t (.asleep c k))
  | .asleep c k =>
    if s.sleeping t = false ∧ s.table = none then some ({s with table := some t}.goto t (.tidy c k)) else none
  | .tidy _ k => some ({s with chan := update s.chan t none, table := none}.goto t (.acquire k))

def step (s : State T σ L J C) : Label T J → Option (State T σ L J C)
  | .call t j =>
    match s.pc t with
    | .idle => (M.call s.data t j).map (fun d => {s with data := d}.goto t (.acquire j))
    | _ => none
  | .run t => M.run s t
  | .aside t =>
    match s.pc t with
    | .idle => (M.aside s.data t).map (fun d => {s with data := d})
    | _ => none
  | .kill t => if s.table = none then some {s with sleeping := update s.sleeping t false} else none

structure Start (s : State T σ L J C) : Prop where
  data : M.init s.data
  lock : ∀ l, s.lock l = none
  table : s.table = none
  sleeping : ∀ t, s.sleeping t = false
  pc : ∀ t, s.pc t = .idle

def system : System (State T σ L J C) (Label T J) where
  init := M.Start
  step := M.step

/-- What a step of `t` from `k` can do to the rest of the state, and where it leaves `t`. -/
inductive Moves (s : State T σ L J C) (t : T) : Pc J C → State T σ L J C → Pc J C → Prop
  | acquire {j : J} (hf : s.lock (M.lock j) = none) : Moves s t (.acquire j) (s.setLock (M.lock j) (some t)) (.inside j)
  | body {j : J} {v : Verdict σ J C} (hb : M.body s.data t j = some v) :
      Moves s t (.inside j) {s with data := v.data} (.waking j v.wakes v.next)
  | wakeup {j : J} {c : C} {cs : List C} {n : Next J C} (hf : s.table = none) :
      Moves s t (.waking j (c :: cs) n) (s.wakeup1 c) (.waking j cs n)
  | leave {j : J} {o : Option J} : Moves s t (.waking j [] (.leave o)) (s.setLock (M.lock j) none) (.start o)
  | sleep {j : J} {c : C} {k : J} (hf : s.table = none) :
      Moves s t (.waking j [] (.sleep c k)) {s with table := some t} (.sleepRelease j c k)
  | sleepRelease {j : J} {c : C} {k : J} :
      Moves s t (.sleepRelease j c k) (s.setLock (M.lock j) none) (.sleepSet c k)
  | sleepSet {c : C} {k : J} :
      Moves s t (.sleepSet c k) {s with
        chan := update s.chan t (some c)
        sleeping := update s.sleeping t true
        table := none} (.asleep c k)
  | asleep {c : C} {k : J} (hs : s.sleeping t = false) (hf : s.table = none) :
      Moves s t (.asleep c k) {s with table := some t} (.tidy c k)
  | tidy {c : C} {k : J} :
      Moves s t (.tidy c k) {s with chan := update s.chan t none, table := none} (.acquire k)

variable {M} {s s' r : State T σ L J C} {t u : T} {k k' : Pc J C}

omit [DecidableEq L] [DecidableEq C] in
lemma goto_pc_of_ne (hu : u ≠ t) : (s.goto t k).pc u = s.pc u := update_of_ne hu ..

lemma Moves.pc (h : M.Moves s t k r k') : r.pc = s.pc := by cases h <;> rfl

lemma moves_of_run (h : M.run s t = some s') : ∃ r k, M.Moves s t (s.pc t) r k ∧ s' = r.goto t k := by
  unfold run at h
  generalize s.pc t = k at h ⊢
  split at h
  · cases h
  · split_ifs at h with hf
    cases h
    exact ⟨_,_,.acquire hf,rfl⟩
  · obtain ⟨v,hv,rfl⟩ := map_eq_some_iff.mp h
    exact ⟨_,_,.body hv,rfl⟩
  · split_ifs at h with hf
    cases h
    exact ⟨_,_,.wakeup hf,rfl⟩
  · cases h
    exact ⟨_,_,.leave,rfl⟩
  · split_ifs at h with hf
    cases h
    exact ⟨_,_,.sleep hf,rfl⟩
  · cases h
    exact ⟨_,_,.sleepRelease,rfl⟩
  · cases h
    exact ⟨_,_,.sleepSet,rfl⟩
  · split_ifs at h with hf
    cases h
    exact ⟨_,_,.asleep hf.1 hf.2,rfl⟩
  · cases h
    exact ⟨_,_,.tidy,rfl⟩

/-- What a label can do. -/
inductive Steps (M : Monitor T σ L J C) (s : State T σ L J C) : Label T J → State T σ L J C → Prop
  | call {t : T} {j : J} {d : σ} (hi : s.pc t = .idle) (hd : M.call s.data t j = some d) :
      Steps M s (.call t j) ({s with data := d}.goto t (.acquire j))
  | run {t : T} {r : State T σ L J C} {k : Pc J C} (hm : M.Moves s t (s.pc t) r k) : Steps M s (.run t) (r.goto t k)
  | aside {t : T} {d : σ} (hi : s.pc t = .idle) (hd : M.aside s.data t = some d) :
      Steps M s (.aside t) {s with data := d}
  | kill {t : T} (hf : s.table = none) : Steps M s (.kill t) {s with sleeping := update s.sleeping t false}

lemma steps_of_step {l : Label T J} (h : M.step s l = some s') : Steps M s l s' := by
  cases l with
  | call t j =>
    simp only [step] at h
    split at h
    case h_1 hi =>
      obtain ⟨d,hd,rfl⟩ := map_eq_some_iff.mp h
      exact .call hi hd
    · cases h
  | run t =>
    obtain ⟨r,k,hm,rfl⟩ := moves_of_run h
    exact .run hm
  | aside t =>
    simp only [step] at h
    split at h
    case h_1 hi =>
      obtain ⟨d,hd,rfl⟩ := map_eq_some_iff.mp h
      exact .aside hi hd
    · cases h
  | kill t =>
    simp only [step] at h
    split_ifs at h with hf
    cases h
    exact .kill hf

/-- Shared data with the jobs that the parties have to do: what calls, asides and bodies keep holds throughout. -/
lemma data_invariant {P : σ → (T → Option J) → Prop} (hinit : ∀ d, M.init d → P d (fun _ => none))
    (hcall : ∀ {d f t j d'}, P d f → f t = none → M.call d t j = some d' → P d' (update f t (some j)))
    (haside : ∀ {d f t d'}, P d f → f t = none → M.aside d t = some d' → P d' f)
    (hbody : ∀ {d f t j v}, P d f → f t = some j → M.body d t j = some v → P v.data (update f t v.next.todo))
    (h : M.system.Reachable s) : P s.data (fun t => (s.pc t).todo) := by
  refine invariant (I := fun s => P s.data (fun t => (s.pc t).todo)) (fun s h0 => ?_)
    (fun s l s' hP h => ?_) h
  · have : (fun t => (s.pc t).todo) = fun _ => none := funext fun t => by rw [h0.pc t]; rfl
    rw [this]
    exact hinit _ h0.data
  · have hupd : ∀ (t : T) (k : Pc J C), (fun u => (update s.pc t k u).todo) =
        update (fun u => (s.pc u).todo) t k.todo := fun t k => funext fun u => by
      by_cases hu : u = t
      · rw [hu,update_self,update_self]
      · rw [update_of_ne hu,update_of_ne hu]
    -- Only a call and a body change what a party has to do.
    have hkeep : ∀ (t : T) (k : Pc J C), k.todo = (s.pc t).todo →
        (fun u => (update s.pc t k u).todo) = fun u => (s.pc u).todo := fun t k hk => by
      rw [hupd t k,hk]
      exact update_eq_self t _
    cases steps_of_step h with
    | @call t j d hi hd =>
      change P d (fun u => (update s.pc t (.acquire j) u).todo)
      rw [hupd]
      exact hcall hP (by rw [hi]; rfl) hd
    | @aside t d hi hd => exact haside hP (by rw [hi]; rfl) hd
    | kill hf => exact hP
    | @run t r k hm =>
      change P r.data (fun u => (update r.pc t k u).todo)
      rw [hm.pc]
      generalize hk : s.pc t = k₀ at hm
      cases hm with
      | @body j v hb =>
        rw [hupd]
        exact hbody hP (by rw [hk]; rfl) hb
      | @leave j o => rw [hkeep t _ (by rw [hk]; cases o <;> rfl)]; exact hP
      | _ => rw [hkeep t _ (by rw [hk]; rfl)]; exact hP

variable (M) in
/-- The party has the spinlock `l`. -/
def Pc.has (l : L) : Pc J C → Bool
  | .inside j | .waking j _ _ | .sleepRelease j _ _ => decide (M.lock j = l)
  | _ => false

/-- Every lock names the party that is inside, and the sleepers are where `sleep` has left them. -/
structure Locked (M : Monitor T σ L J C) (s : State T σ L J C) : Prop where
  lock : ∀ l, Guarded (Pc.has M l) (s.lock l) s.pc
  table : Guarded Pc.hasTable s.table s.pc
  asleep : ∀ t, s.sleeping t = true → ∃ c k, s.pc t = .asleep c k
  chan : ∀ t c k, s.pc t = .asleep c k → s.chan t = some c

section
variable (h : M.Moves s t k r k')
include h

lemma Moves.lock (l : L) : Handover t (s.lock l) (r.lock l) (k.has M l) (k'.has M l) := by
  have hset : ∀ (j : J) (o : Option T), M.lock j ≠ l → (s.setLock (M.lock j) o).lock l = s.lock l :=
    fun j o hj => update_of_ne (Ne.symm hj) ..
  have hself : ∀ (j : J) (o : Option T), M.lock j = l → (s.setLock (M.lock j) o).lock l = o := fun j o hj => by
    rw [← hj]
    exact update_self ..
  have hdrop : ∀ j, Handover t (s.lock l) ((s.setLock (M.lock j) none).lock l) (decide (M.lock j = l)) false := by
    intro j
    by_cases hj : M.lock j = l
    · exact .drop (decide_eq_true hj) (hself j none hj) rfl
    · exact .keep (hset j none hj) (decide_eq_false hj).symm
  cases h with
  | @acquire j hf =>
    by_cases hj : M.lock j = l
    · exact .take (by rw [← hj]; exact hf) (hself j _ hj) (decide_eq_true hj)
    · exact .keep (hset j _ hj) (decide_eq_false hj)
  | @leave j o => cases o <;> exact hdrop j
  | @sleepRelease j c k => exact hdrop j
  | _ => exact .keep rfl rfl

lemma Moves.table : Handover t s.table r.table k.hasTable k'.hasTable := by
  cases h with
  | sleep hf => exact .take hf rfl rfl
  | asleep hs hf => exact .take hf rfl rfl
  | sleepSet => exact .drop rfl rfl rfl
  | tidy => exact .drop rfl rfl rfl
  | @leave j o => cases o <;> exact .keep rfl rfl
  | _ => exact .keep rfl rfl

/-- A step of `t` leaves the channels of the others alone and puts nobody else to sleep. -/
lemma Moves.others {u : T} (hu : u ≠ t) : r.chan u = s.chan u ∧ (r.sleeping u = true → s.sleeping u = true) := by
  cases h with
  | wakeup hf => exact ⟨rfl,fun hs => (and_eq_true_iff.mp hs).1⟩
  | sleepSet => exact ⟨update_of_ne hu ..,fun hs => (update_of_ne hu ..).symm.trans hs⟩
  | tidy => exact ⟨update_of_ne hu ..,id⟩
  | _ => exact ⟨rfl,id⟩

end

/-- After its own step `t` sleeps only on the channel that it has just gone to. -/
lemma Moves.self (hs : s.sleeping t = true → ∃ c i, k = .asleep c i) (h : M.Moves s t k r k') :
    (r.sleeping t = true → ∃ c i, k' = .asleep c i) ∧ ∀ c i, k' = .asleep c i → r.chan t = some c := by
  have hawake : (∀ c i, k ≠ .asleep c i) → s.sleeping t = true → ∃ c i, k' = .asleep c i := fun hk h => by
    obtain ⟨c,i,hc⟩ := hs h
    exact absurd hc (hk c i)
  cases h with
  | wakeup hf => exact ⟨fun h => hawake nofun (and_eq_true_iff.mp h).1,nofun⟩
  | @leave j o => exact ⟨hawake nofun,by cases o <;> exact nofun⟩
  | @sleepSet c k =>
    refine ⟨fun _ => ⟨c,k,rfl⟩,fun c' i hc => ?_⟩
    cases hc
    exact update_self ..
  | asleep hawake' hf =>
    refine ⟨fun h => ?_,nofun⟩
    rw [show s.sleeping t = true from h] at hawake'
    cases hawake'
  | _ => exact ⟨hawake nofun,nofun⟩

lemma locked_goto (hL : Locked M s) (h : M.Moves s t (s.pc t) r k) : Locked M (r.goto t k) := by
  refine ⟨fun l => ?_,?_,fun u hu => ?_,fun u c i hu => ?_⟩
  · change Guarded (Pc.has M l) (r.lock l) (update r.pc t k)
    rw [h.pc]
    exact (hL.lock l).step (h.lock l)
  · change Guarded Pc.hasTable r.table (update r.pc t k)
    rw [h.pc]
    exact hL.table.step h.table
  · change ∃ c i, update r.pc t k u = .asleep c i
    by_cases hut : u = t
    · subst hut
      rw [update_self]
      exact (h.self (hL.asleep u)).1 hu
    · rw [update_of_ne hut,h.pc]
      exact hL.asleep u ((h.others hut).2 hu)
  · change update r.pc t k u = .asleep c i at hu
    by_cases hut : u = t
    · subst hut
      rw [update_self] at hu
      exact (h.self (hL.asleep u)).2 c i hu
    · rw [update_of_ne hut,h.pc] at hu
      exact (h.others hut).1.trans (hL.chan u c i hu)

lemma locked_step {l : Label T J} (hL : Locked M s) (h : M.step s l = some s') : Locked M s' := by
  cases steps_of_step h with
  | @call t j d hi hd =>
    refine ⟨fun l => (hL.lock l).step (.keep rfl ?_),hL.table.step (.keep rfl ?_),fun u hu => ?_,fun u c i hu => ?_⟩
    · rw [hi]
      rfl
    · rw [hi]
      rfl
    · obtain ⟨c,i,hc⟩ := hL.asleep u hu
      have hut : u ≠ t := by
        rintro rfl
        rw [hi] at hc
        cases hc
      exact ⟨c,i,(update_of_ne hut ..).trans hc⟩
    · have hut : u ≠ t := by
        rintro rfl
        exact nomatch (update_self ..).symm.trans hu
      exact hL.chan u c i ((update_of_ne hut ..).symm.trans hu)
  | run hm => exact locked_goto hL hm
  | aside hi hd => exact ⟨hL.lock,hL.table,hL.asleep,hL.chan⟩
  | @kill t hf =>
    refine ⟨hL.lock,hL.table,fun u hu => ?_,hL.chan⟩
    by_cases hut : u = t
    · rw [hut] at hu
      exact nomatch (update_self ..).symm.trans hu
    · exact hL.asleep u ((update_of_ne hut ..).symm.trans hu)

lemma reach_locked (h : M.system.Reachable s) : Locked M s := by
  refine invariant (I := Locked M) (fun s h0 => ?_) (fun s l s' hL h => locked_step hL h) h
  refine ⟨fun l t => ?_,fun t => ?_,fun t ht => ?_,fun t c k hk => ?_⟩
  · rw [h0.lock l,h0.pc t]
    exact ⟨nofun,nofun⟩
  · rw [h0.table,h0.pc t]
    exact ⟨nofun,nofun⟩
  · rw [h0.sleeping t] at ht
    cases ht
  · rw [h0.pc t] at hk
    cases hk

section
/-- `W d t c k` says that `t` with job `k` still has to wait on `c`. Whoever ends a wait wakes the channel under
the lock that guards it, and whoever goes to sleep has to. -/
structure Signals (M : Monitor T σ L J C) (W : σ → T → C → J → Prop) (I : State T σ L J C → Prop) : Prop where
  call : ∀ {s t j d u c k}, I s → s.pc t = .idle → M.call s.data t j = some d → u ≠ t → W s.data u c k → W d u c k
  aside : ∀ {s t d u c k}, I s → s.pc t = .idle → M.aside s.data t = some d → u ≠ t → W s.data u c k → W d u c k
  body : ∀ {s t j v u c k}, I s → s.pc t = .inside j → M.body s.data t j = some v → u ≠ t → W s.data u c k →
    W v.data u c k ∨ c ∈ v.wakes ∧ M.lock j = M.guard c
  sleep : ∀ {s t j v c k}, I s → s.pc t = .inside j → M.body s.data t j = some v → v.next = .sleep c k →
    W v.data t c k ∧ M.lock j = M.guard c

variable {W : σ → T → C → J → Prop} {I : State T σ L J C → Prop}

/-- The party is out of reach of `wakeup`, or asleep. -/
def Waits (s : State T σ L J C) (u : T) (c : C) (i : J) : Prop :=
  s.pc u = .sleepSet c i ∨ s.pc u = .asleep c i ∧ s.sleeping u = true

/-- The party is going to wake `c`. -/
def Pc.Owes (M : Monitor T σ L J C) (k : Pc J C) (c : C) : Prop :=
  ∃ j cs n, k = .waking j cs n ∧ c ∈ cs ∧ M.lock j = M.guard c

/-- Who has found that it has to wait and has not let go of the lock is right, and who has let go is right or is
going to be woken. -/
structure Signalled (M : Monitor T σ L J C) (W : σ → T → C → J → Prop) (s : State T σ L J C) : Prop where
  found : ∀ {u j cs c i}, s.pc u = .waking j cs (.sleep c i) → W s.data u c i ∧ M.lock j = M.guard c
  bound : ∀ {u j c i}, s.pc u = .sleepRelease j c i → W s.data u c i ∧ M.lock j = M.guard c
  waits : ∀ {u c i}, Waits s u c i → W s.data u c i ∨ ∃ t, (s.pc t).Owes M c

omit [DecidableEq C] in
/-- One party moves to `k` and the data change so that whoever had to wait still has to, or `t` is to wake it. -/
lemma signalled_goto (hG : Signalled M W s) (hpc : s'.pc = update s.pc t k)
    (hholds : ∀ {u j c i}, u ≠ t → (s.pc u).has M (M.lock j) = true → M.lock j = M.guard c → W s.data u c i → W s'.data u c i)
    (hfound : ∀ {j cs c i}, k = .waking j cs (.sleep c i) → W s'.data t c i ∧ M.lock j = M.guard c)
    (hbound : ∀ {j c i}, k = .sleepRelease j c i → W s'.data t c i ∧ M.lock j = M.guard c)
    (hself : ∀ {c i}, Waits s' t c i → W s'.data t c i ∨ ∃ t, (s'.pc t).Owes M c)
    (hother : ∀ {u c i}, u ≠ t → Waits s' u c i → W s'.data u c i ∨ ∃ t, (s'.pc t).Owes M c) : Signalled M W s' := by
  have hp : s'.pc t = k := by rw [hpc,update_self]
  have hq : ∀ u, u ≠ t → s'.pc u = s.pc u := fun u hu => by rw [hpc,update_of_ne hu]
  refine ⟨fun {u j cs c i} hu => ?_,fun {u j c i} hu => ?_,fun {u c i} hu => ?_⟩
  · by_cases hut : u = t
    · subst hut
      exact hfound (hp.symm.trans hu)
    · rw [hq u hut] at hu
      obtain ⟨hw,hl⟩ := hG.found hu
      exact ⟨hholds hut (by rw [hu]; exact decide_eq_true rfl) hl hw,hl⟩
  · by_cases hut : u = t
    · subst hut
      exact hbound (hp.symm.trans hu)
    · rw [hq u hut] at hu
      obtain ⟨hw,hl⟩ := hG.bound hu
      exact ⟨hholds hut (by rw [hu]; exact decide_eq_true rfl) hl hw,hl⟩
  · by_cases hut : u = t
    · subst hut
      exact hself hu
    · exact hother hut hu

omit [DecidableEq C] in
/-- A body changes the data: whoever does not have to wait any more is to be woken. -/
lemma signalled_body {j : J} {v : Verdict σ J C} (hS : Signals M W I) (hI : I s) (hL : Locked M s) (hG : Signalled M W s)
    (hpc : s.pc t = .inside j) (hb : M.body s.data t j = some v) :
    Signalled M W ({s with data := v.data}.goto t (.waking j v.wakes v.next)) := by
  have hin : (s.pc t).has M (M.lock j) = true := by
    rw [hpc]
    exact decide_eq_true rfl
  refine signalled_goto hG rfl (fun {u i c k} hut hu hi hw => ?_) (fun {i cs c k} hk => ?_) nofun
    (fun {c i} hw => ?_) (fun {u c i} hut hw => ?_)
  · rcases hS.body hI hpc hb hut hw with h | ⟨-,h⟩
    · exact h
    · rw [hi,← h] at hu
      exact absurd ((hL.lock _).unique hu hin) hut
  · obtain ⟨rfl,-,hn⟩ := Pc.waking.inj hk
    exact hS.sleep hI hpc hb hn
  · rcases hw with h | h
    · exact nomatch (update_self ..).symm.trans h
    · exact nomatch (update_self ..).symm.trans h.1
  · have hw' : Waits s u c i := by
      unfold Waits at hw ⊢
      rwa [goto_pc_of_ne hut] at hw
    rcases hG.waits hw' with h | ⟨w,j',cs,n,hw1,hw2,hw3⟩
    · rcases hS.body hI hpc hb hut h with h' | ⟨h1,h2⟩
      · exact .inl h'
      · exact .inr ⟨t,j,v.wakes,v.next,update_self ..,h1,h2⟩
    · have hwt : w ≠ t := by
        rintro rfl
        rw [hpc] at hw1
        cases hw1
      exact .inr ⟨w,j',cs,n,(update_of_ne hwt ..).trans hw1,hw2,hw3⟩

/-- Every other step leaves the data as they are. -/
lemma signalled_move (hL : Locked M s) (hG : Signalled M W s) (h : M.Moves s t k r k') (hk : s.pc t = k)
    (hd : r.data = s.data) (hin : ∀ j, k ≠ .inside j) : Signalled M W (r.goto t k') := by
  have hpc : (r.goto t k').pc = update s.pc t k' := by
    rw [← h.pc]
    rfl
  have hdata : (r.goto t k').data = s.data := hd
  -- A debt is paid by its owner only.
  have hkeep : ∀ c w, w ≠ t → (s.pc w).Owes M c → ∃ w, ((r.goto t k').pc w).Owes M c := fun c w hw ho => by
    refine ⟨w,?_⟩
    rw [hpc,update_of_ne hw]
    exact ho
  refine signalled_goto hG hpc (fun {u j c i} _ _ _ hw => by rw [hdata]; exact hw) (fun {j cs c i} hj => ?_)
    (fun {j c i} hj => ?_) (fun {c i} hw => ?_) (fun {u c i} hut hw => ?_)
  · rw [hdata]
    cases h with
    | body hb => exact absurd rfl (hin _)
    | wakeup hf =>
      cases hj
      exact hG.found hk
    | @leave _ o => cases o <;> cases hj
    | _ => cases hj
  · rw [hdata]
    cases h with
    | sleep hf =>
      cases hj
      exact hG.found hk
    | @leave _ o => cases o <;> cases hj
    | _ => cases hj
  · rw [hdata]
    unfold Waits at hw
    rw [hpc,update_self] at hw
    cases h with
    | @sleepRelease j c' i' =>
      rcases hw with hw | hw
      · cases hw
        exact .inl (hG.bound hk).1
      · exact nomatch hw.1
    | @sleepSet c' i' =>
      rcases hw with hw | hw
      · exact nomatch hw
      · obtain ⟨hw,-⟩ := hw
        cases hw
        rcases hG.waits (.inl hk) with h1 | ⟨w,h1⟩
        · exact .inl h1
        · refine .inr (hkeep c w ?_ h1)
          rintro rfl
          obtain ⟨j,cs,n,h1,-⟩ := h1
          rw [hk] at h1
          cases h1
    | @leave j o => cases o <;> exact nomatch hw
    | _ => exact nomatch hw
  · rw [hdata]
    have hw' : Waits s u c i := by
      unfold Waits at hw ⊢
      rw [hpc,update_of_ne hut] at hw
      exact hw.imp_right (And.imp_right (h.others hut).2)
    rcases hG.waits hw' with h1 | ⟨w,h1⟩
    · exact .inl h1
    · by_cases hwt : w = t
      · subst hwt
        obtain ⟨j,cs,n,h1,h2,h3⟩ := h1
        rw [hk] at h1
        subst h1
        cases h with
        | @wakeup j c' cs n hf =>
          by_cases hc : c = c'
          · subst hc
            exfalso
            rcases hw' with h4 | ⟨h4,-⟩
            · have := (hL.table u).mpr (by rw [h4]; rfl)
              rw [hf] at this
              cases this
            · rcases hw with h5 | ⟨-,h5⟩
              · rw [hpc,update_of_ne hut,h4] at h5
                cases h5
              · have := (and_eq_true_iff.mp h5).2
                rw [hL.chan u c i h4] at this
                simp at this
          · refine .inr ⟨w,j,cs,n,?_,(List.mem_cons.mp h2).resolve_left hc,h3⟩
            rw [hpc,update_self]
        | leave => cases h2
        | sleep hf => cases h2
      · exact .inr (hkeep c w hwt h1)

lemma signalled_step {l : Label T J} (hS : Signals M W I) (hI : I s) (hL : Locked M s) (hG : Signalled M W s)
    (h : M.step s l = some s') : Signalled M W s' := by
  cases steps_of_step h with
  | @call t j d hi hd =>
    have hdata : ∀ {u c k}, u ≠ t → W s.data u c k → W d u c k := hS.call hI hi hd
    refine signalled_goto hG rfl (fun hut _ _ => hdata hut) nofun nofun (fun {c i} hw => ?_) (fun {u c i} hut hw => ?_)
    · rcases hw with h | h
      · exact nomatch (update_self ..).symm.trans h
      · exact nomatch (update_self ..).symm.trans h.1
    · have hw' : Waits s u c i := by
        unfold Waits at hw ⊢
        rwa [goto_pc_of_ne hut] at hw
      refine (hG.waits hw').imp (hdata hut) (fun ⟨w,j',cs,n,h1,h2,h3⟩ => ?_)
      have hwt : w ≠ t := by
        rintro rfl
        rw [hi] at h1
        cases h1
      exact ⟨w,j',cs,n,(update_of_ne hwt ..).trans h1,h2,h3⟩
  | @run t r k hm =>
    generalize hk : s.pc t = k₀ at hm
    cases hm with
    | body hb => exact signalled_body hS hI hL hG hk hb
    | acquire hf => exact signalled_move hL hG (.acquire hf) hk rfl nofun
    | wakeup hf => exact signalled_move hL hG (.wakeup hf) hk rfl nofun
    | leave => exact signalled_move hL hG .leave hk rfl nofun
    | sleep hf => exact signalled_move hL hG (.sleep hf) hk rfl nofun
    | sleepRelease => exact signalled_move hL hG .sleepRelease hk rfl nofun
    | sleepSet => exact signalled_move hL hG .sleepSet hk rfl nofun
    | asleep hs hf => exact signalled_move hL hG (.asleep hs hf) hk rfl nofun
    | tidy => exact signalled_move hL hG .tidy hk rfl nofun
  | @aside t d hi hd =>
    have hdata : ∀ {u c k}, s.pc u ≠ .idle → W s.data u c k → W d u c k :=
      fun hu => hS.aside hI hi hd fun hut => hu (by rw [hut]; exact hi)
    refine ⟨fun hu => (hG.found hu).imp_left (hdata ?_),fun hu => (hG.bound hu).imp_left (hdata ?_),
      fun hu => (hG.waits hu).imp_left (hdata ?_)⟩
    · rw [show s.pc _ = _ from hu]
      nofun
    · rw [show s.pc _ = _ from hu]
      nofun
    · intro hidle
      unfold Waits at hu
      rw [hidle] at hu
      exact nomatch hu
  | @kill t hf =>
    refine ⟨hG.found,hG.bound,fun {u c i} hu => hG.waits (hu.imp_right (And.imp_right fun h => ?_))⟩
    by_cases hut : u = t
    · rw [hut] at h
      exact nomatch (update_self ..).symm.trans h
    · exact (update_of_ne hut ..).symm.trans h

/-- Nobody is stranded: while the lock that guards a channel is free, whoever sleeps on it has to wait. -/
lemma has_to_wait {c : C} (hS : Signals M W I) (hI : ∀ s, M.system.Reachable s → I s) (h : M.system.Reachable s)
    (hfree : s.lock (M.guard c) = none) (hs : s.sleeping t = true) (hc : s.chan t = some c) :
    ∃ k, s.pc t = .asleep c k ∧ W s.data t c k := by
  have hG : Signalled M W s := by
    refine System.ReachWhile.invariant_on (J := fun s => Locked M s ∧ I s) (I := Signalled M W)
      (fun s h => ⟨reach_locked h,hI s h⟩) (fun s h0 => ?_) (fun s l s' hJ hG _ h => signalled_step hS hJ.2 hJ.1 hG h) h
    refine ⟨fun {u _ _ _ _} hu => ?_,fun {u _ _ _} hu => ?_,fun {u _ _} hu => ?_⟩
    · rw [h0.pc u] at hu
      cases hu
    · rw [h0.pc u] at hu
      cases hu
    · unfold Waits at hu
      rw [h0.pc u] at hu
      exact nomatch hu
  have hL := reach_locked h
  obtain ⟨c',k,hk⟩ := hL.asleep t hs
  have hcc : c' = c := some.inj ((hL.chan t c' k hk).symm.trans hc)
  subst hcc
  refine ⟨k,hk,(hG.waits (.inr ⟨hk,hs⟩)).resolve_right fun ⟨w,j,cs,n,h1,_,h3⟩ => ?_⟩
  have := (hL.lock (M.guard c') w).mpr (by rw [h1]; exact decide_eq_true h3)
  rw [hfree] at this
  cases this

end

end Monitor
end Xv6Threads
