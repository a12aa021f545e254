import Xv6Threads.Foundations.Transition

/-! Interrupts on and off. `ncli` and `intena` belong to a CPU, but the nesting of `pushcli` and `popcli` belongs to a
kernel thread: the scheduler of a CPU, or a process, which may go on on another CPU after `sched`. Of a lock only its
`pushcli` and `popcli` matter here, so any thread may take any lock at any time. -/
namespace Xv6Threads.Interrupts
open Function Option List

/-- `struct cpu` with the interrupt flag of the processor. -/
structure Cpu where
  ncli : ℤ
  intena : Bool
  flag : Bool
  panicked : Bool

/-- Where a thread is: in its own code, at the start of `pushcli`, behind `readeflags` there, or in `sched` behind
`swtch`. What the flag was at the call of `pushcli` is kept, though the code does not know it. -/
inductive Pc
  | code
  | called (before : Bool)
  | read (before eflags : Bool)
  | switched
  deriving DecidableEq

/-- A trap frame: where the thread was, how deep, and the flag in `eflags`. -/
structure Frame where
  pc : Pc
  depth : ℕ
  flag : Bool

/-- `depth` is the number of calls of `pushcli` without their `popcli`, and `before` the flag at the outermost of them.
`intena` is the variable of `sched`. -/
structure Thread where
  pc : Pc
  depth : ℕ
  before : Option Bool
  frames : List Frame
  intena : Bool

/-- Steps that a CPU makes in one thread. -/
inductive Act
  | pushcli
  | next
  | popcli
  | interrupt
  | syscall
  | iret

/-- `cli()` and the rest of `pushcli`, which nothing interrupts. -/
def disable (k : Cpu) (t : Thread) (before eflags : Bool) : Cpu × Thread :=
  ({ k with flag := false, intena := if k.ncli = 0 then eflags else k.intena, ncli := k.ncli+1 },
    { t with pc := .code, depth := t.depth+1, before := if t.depth = 0 then some before else t.before })

/-- `popcli` -/
def enable (k : Cpu) : Cpu :=
  if k.flag then { k with panicked := true }
  else if k.ncli-1 < 0 then { k with ncli := k.ncli-1, panicked := true }
  else { k with ncli := k.ncli-1, flag := k.ncli-1 = 0 && k.intena }

/-- A thread calls `popcli` only after its own `pushcli`, and returns from a trap at the depth it had before. System
calls come from user mode and go through a trap gate, which leaves the flag alone. -/
def act (k : Cpu) (t : Thread) : Act → Option (Cpu × Thread)
  | .pushcli => if t.pc = .code then some (k,{ t with pc := .called k.flag }) else none
  | .next =>
    match t.pc with
    | .code => none
    | .called b => some (k,{ t with pc := .read b k.flag })
    | .read b e => some (disable k t b e)
    | .switched => some ({ k with intena := t.intena },{ t with pc := .code })
  | .popcli => if t.pc = .code ∧ 0 < t.depth then some (enable k,{ t with depth := t.depth-1 }) else none
  | .interrupt =>
    if k.flag then some ({ k with flag := false },{ t with pc := .code, frames := ⟨t.pc,t.depth,k.flag⟩ :: t.frames })
    else none
  | .syscall =>
    if t.pc = .code ∧ t.depth = 0 ∧ t.frames = [] then some (k,{ t with frames := [⟨.code,0,k.flag⟩] }) else none
  | .iret =>
    match t.frames with
    | [] => none
    | f :: fs =>
      if t.pc = .code ∧ t.depth = f.depth then
        some ({ k with flag := f.flag },{ t with pc := f.pc, frames := fs })
      else none

inductive Id (C P : Type)
  | scheduler (c : C)
  | proc (p : P)
  deriving DecidableEq

/-- `C` is the type of CPUs and `P` that of processes; `out` says which processes no CPU runs. -/
structure State (C P : Type) where
  cpu : C → Cpu
  cur : C → Id C P
  thread : Id C P → Thread
  out : P → Bool

inductive Label (C P : Type)
  | act (c : C) (a : Act)
  | sti (c : C)
  | sched (c : C)
  | resume (c : C) (p : P)
  | alloc (p : P)

/-- A new process starts in `forkret`, with `ptable.lock` from the scheduler, and returns to user mode from there. -/
def newborn : Thread := ⟨.code,1,none,[⟨.code,0,true⟩],false⟩

variable {C P : Type} [DecidableEq C] [DecidableEq P]

namespace State
variable (s : State C P)

def put (c : C) (k : Cpu) (i : Id C P) (t : Thread) : State C P :=
  { s with cpu := update s.cpu c k, thread := update s.thread i t }

/-- `sched` of process `p` on CPU `c`, up to `swtch`. -/
def schedAt (c : C) (p : P) : State C P :=
  let t := s.thread (.proc p)
  if (s.cpu c).ncli ≠ 1 ∨ (s.cpu c).flag then s.put c { s.cpu c with panicked := true } (.proc p) t
  else
    { s.put c (s.cpu c) (.proc p) { t with pc := .switched, intena := (s.cpu c).intena } with
      cur := update s.cur c (.scheduler c)
      out := update s.out p true }

/-- A process calls `sched` with one lock, `ptable.lock`. The scheduler enables interrupts before it takes this lock, and
switches to a process while it has it. -/
def step : Label C P → Option (State C P)
  | .act c a =>
    if (s.cpu c).panicked then none
    else (act (s.cpu c) (s.thread (s.cur c)) a).map fun r => s.put c r.1 (s.cur c) r.2
  | .sti c =>
    let t := s.thread (.scheduler c)
    if (s.cpu c).panicked = false ∧ s.cur c = .scheduler c ∧ t.pc = .code ∧ t.depth = 0 ∧ t.frames = [] then
      some (s.put c { s.cpu c with flag := true } (.scheduler c) t)
    else none
  | .sched c =>
    match s.cur c with
    | .scheduler _ => none
    | .proc p =>
      let t := s.thread (.proc p)
      if (s.cpu c).panicked = false ∧ t.pc = .code ∧ t.depth = 1 then some (s.schedAt c p) else none
  | .resume c p =>
    let t := s.thread (.scheduler c)
    if (s.cpu c).panicked = false ∧ s.cur c = .scheduler c ∧ t.pc = .code ∧ t.depth = 1 ∧ t.frames = [] ∧ s.out p then
      some { s with cur := update s.cur c (.proc p), out := update s.out p false }
    else none
  | .alloc p =>
    if s.out p then some { s with thread := update s.thread (.proc p) newborn } else none

end State

/-- Every CPU is in its scheduler with interrupts off, and no process has run yet. -/
def initial (C P : Type) : State C P where
  cpu _ := ⟨0,false,false,false⟩
  cur c := .scheduler c
  thread
    | .scheduler _ => ⟨.code,0,none,[],false⟩
    | .proc _ => newborn
  out _ := true

def machine (C P : Type) [DecidableEq C] [DecidableEq P] : System (State C P) (Label C P) where
  init s := s = initial C P
  step := State.step

/-- A thread inside `pushcli` has seen the flag `f`. -/
def Pc.saw (f : Bool) : Pc → Prop
  | .called b => b = f
  | .read b e => b = f ∧ e = f
  | _ => True

/-- The frames are of code that was interrupted outside of any lock. -/
def Frames (t : Thread) : Prop := ∀ f ∈ t.frames, f.depth = 0 ∧ f.pc ≠ .switched ∧ f.pc.saw f.flag

/-- Thread `t` runs on CPU `k`; if it is a process, `own`, the CPU has its `intena`. -/
structure Runs (own : Bool) (k : Cpu) (t : Thread) : Prop where
  fine : k.panicked = false
  ncli : k.ncli = t.depth
  off : 0 < t.depth → k.flag = false
  intena : own = true → 0 < t.depth → t.pc ≠ .switched → ∀ b ∈ t.before, k.intena = b
  saved : t.pc = .switched → t.depth = 1 ∧ ∀ b ∈ t.before, t.intena = b
  saw : t.pc.saw k.flag
  frames : Frames t

/-- A process that has been switched from, or is new. -/
structure Waits (t : Thread) : Prop where
  depth : t.depth = 1
  place : t.pc = .switched ∧ (∀ b ∈ t.before, t.intena = b) ∨ t.pc = .code ∧ t.before = none
  frames : Frames t

lemma runs_act {own : Bool} {k k' : Cpu} {t t' : Thread} {a : Act} (h : Runs own k t) (ha : act k t a = some (k',t')) :
    Runs own k' t' := by
  have hncli := h.ncli
  cases a with
  | pushcli =>
    simp only [act] at ha
    split_ifs at ha with hpc
    cases ha
    exact ⟨h.fine,hncli,h.off,fun ho hd _ => h.intena ho hd (by simp [hpc]),(fun hs => by cases hs),rfl,h.frames⟩
  | next =>
    simp only [act] at ha
    split at ha
    · cases ha
    · next b hpc =>
      cases ha
      have hb := h.saw
      rw [hpc] at hb
      exact ⟨h.fine,hncli,h.off,fun ho hd _ => h.intena ho hd (by simp [hpc]),(fun hs => by cases hs),⟨hb,rfl⟩,h.frames⟩
    · next b e hpc =>
      cases ha
      have hb := h.saw
      rw [hpc] at hb
      obtain ⟨rfl,rfl⟩ := hb
      refine ⟨h.fine,by simp only; omega,fun _ => rfl,fun ho _ _ b hb => ?_,(fun hs => by cases hs),trivial,h.frames⟩
      -- the outermost `pushcli` stores `intena`, the others leave it
      by_cases hd : t.depth = 0
      · rw [if_pos hd] at hb
        rw [if_pos (by omega)]
        exact some.inj hb
      · rw [if_neg hd] at hb
        rw [if_neg (by omega)]
        exact h.intena ho (by omega) (by simp [hpc]) b hb
    · next hpc =>
      cases ha
      obtain ⟨hd,hs⟩ := h.saved hpc
      exact ⟨h.fine,hncli,h.off,fun _ _ _ => hs,(fun hs => by cases hs),trivial,h.frames⟩
  | popcli =>
    simp only [act] at ha
    split_ifs at ha with hc
    cases ha
    obtain ⟨hpc,hd⟩ := hc
    have hoff := h.off hd
    rw [enable,hoff,if_neg (by simp),if_neg (by omega)]
    refine ⟨h.fine,by simp only; omega,fun hd' => ?_,fun ho hd' _ => h.intena ho hd (by simp [hpc]),fun hs => ?_,?_,h.frames⟩
    · have hne : k.ncli-1 ≠ 0 := by
        simp only at hd'
        omega
      simp [hne]
    · rw [hpc] at hs
      cases hs
    · simp only [hpc]
      trivial
  | interrupt =>
    simp only [act] at ha
    split_ifs at ha with hf
    cases ha
    have hd : t.depth = 0 := by
      by_contra hd
      rw [h.off (by omega)] at hf
      cases hf
    refine ⟨h.fine,hncli,fun _ => rfl,fun _ h0 => ?_,(fun hs => by cases hs),trivial,fun f hf' => ?_⟩
    · simp only [hd] at h0
      omega
    · rcases mem_cons.mp hf' with rfl | hf'
      · refine ⟨hd,fun hs => ?_,h.saw⟩
        have := (h.saved hs).1
        omega
      · exact h.frames f hf'
  | syscall =>
    simp only [act] at ha
    split_ifs at ha with hc
    cases ha
    refine ⟨h.fine,hncli,h.off,h.intena,h.saved,h.saw,fun f hf => ?_⟩
    rw [mem_singleton.mp hf]
    exact ⟨rfl,(fun hs => by cases hs),trivial⟩
  | iret =>
    simp only [act] at ha
    split at ha
    · cases ha
    · next f fs hfs =>
      split_ifs at ha with hc
      cases ha
      obtain ⟨hf0,hsw,hsaw⟩ := h.frames f (by simp [hfs])
      have hd : t.depth = 0 := hc.2.trans hf0
      refine ⟨h.fine,hncli,fun h0 => ?_,fun _ h0 => ?_,fun hs => absurd hs hsw,hsaw,fun g hg => h.frames g (by simp [hfs,hg])⟩
      · simp only [hd] at h0
        omega
      · simp only [hd] at h0
        omega

def Id.isProc : Id C P → Bool
  | .scheduler _ => false
  | .proc _ => true

/-- A CPU runs its own scheduler, or a process that no other CPU runs. -/
structure Placed (cur : C → Id C P) (out : P → Bool) : Prop where
  home : ∀ {c d}, cur c = .scheduler d → d = c
  uniq : ∀ {c d p}, cur c = .proc p → cur d = .proc p → c = d
  inside : ∀ {c p}, cur c = .proc p → out p = false

namespace Placed
variable {cur : C → Id C P} {out : P → Bool} {c : C} {p : P}

omit [DecidableEq C] [DecidableEq P] in
lemma ne (h : Placed cur out) {d : C} (hd : d ≠ c) : cur d ≠ cur c := by
  intro he
  cases hc : cur c with
  | scheduler e => exact hd ((h.home (he.trans hc)).symm.trans (h.home hc))
  | proc p => exact hd (h.uniq (he.trans hc) hc)

omit [DecidableEq C] [DecidableEq P] in
lemma not_run (h : Placed cur out) (hp : out p = true) (d : C) : cur d ≠ .proc p := by
  intro he
  rw [h.inside he] at hp
  cases hp

lemma leave (h : Placed cur out) (hc : cur c = .proc p) : Placed (update cur c (.scheduler c)) (update out p true) := by
  have hold : ∀ {d q}, update cur c (Id.scheduler c) d = .proc q → d ≠ c ∧ cur d = .proc q := fun {d q} hd => by
    by_cases hdc : d = c
    · simp [hdc] at hd
    · exact ⟨hdc,by rwa [update_of_ne hdc] at hd⟩
  refine ⟨fun {d e} he => ?_,fun h1 h2 => h.uniq (hold h1).2 (hold h2).2,fun {d q} hd => ?_⟩
  · by_cases hdc : d = c
    · rw [hdc,update_self] at he
      cases he
      exact hdc.symm
    · rw [update_of_ne hdc] at he
      exact h.home he
  · obtain ⟨hdc,hd⟩ := hold hd
    rw [update_of_ne (by rintro rfl; exact hdc (h.uniq hd hc))]
    exact h.inside hd

lemma enter (h : Placed cur out) (hp : out p = true) : Placed (update cur c (.proc p)) (update out p false) := by
  have hold : ∀ {d q}, update cur c (Id.proc p) d = .proc q → d = c ∧ q = p ∨ cur d = .proc q ∧ q ≠ p := by
    intro d q hd
    by_cases hdc : d = c
    · rw [hdc,update_self] at hd
      cases hd
      exact .inl ⟨hdc,rfl⟩
    · rw [update_of_ne hdc] at hd
      exact .inr ⟨hd,by rintro rfl; exact h.not_run hp d hd⟩
  refine ⟨fun {d e} he => ?_,fun h1 h2 => ?_,fun hd => ?_⟩
  · by_cases hdc : d = c
    · simp [hdc] at he
    · rw [update_of_ne hdc] at he
      exact h.home he
  · rcases hold h1 with ⟨hd1,hq1⟩ | ⟨hd1,hq1⟩ <;> rcases hold h2 with ⟨hd2,hq2⟩ | ⟨hd2,hq2⟩
    · exact hd1.trans hd2.symm
    · exact absurd hq1 hq2
    · exact absurd hq2 hq1
    · exact h.uniq hd1 hd2
  · rcases hold hd with ⟨-,rfl⟩ | ⟨hd,hq⟩
    · exact update_self ..
    · rw [update_of_ne hq]
      exact h.inside hd

end Placed

/-- A scheduler that has switched to a process. -/
structure Left (t : Thread) : Prop where
  pc : t.pc = .code
  depth : t.depth = 1
  frames : Frames t

structure Inv (s : State C P) : Prop where
  placed : Placed s.cur s.out
  runs : ∀ c, Runs (s.cur c).isProc (s.cpu c) (s.thread (s.cur c))
  waits : ∀ p, s.out p = true → Waits (s.thread (.proc p))
  left : ∀ c, s.cur c ≠ .scheduler c → Left (s.thread (.scheduler c))

section
variable {s s' : State C P} {c : C} {p : P}

/-- A step of CPU `c` in its thread. -/
lemma Inv.put (h : Inv s) {k : Cpu} {t : Thread} (hr : Runs (s.cur c).isProc k t) : Inv (s.put c k (s.cur c) t) := by
  refine ⟨h.placed,fun d => ?_,fun p hp => ?_,fun d hd => ?_⟩
  · by_cases hd : d = c
    · rw [hd]
      simpa [State.put] using hr
    · simp only [State.put,update_of_ne hd,update_of_ne (h.placed.ne hd)]
      exact h.runs d
  · simp only [State.put,update_of_ne (h.placed.not_run hp c).symm]
    exact h.waits p hp
  · have hne : Id.scheduler d ≠ s.cur c := fun he => by
      rw [h.placed.home he.symm] at hd he
      exact hd he.symm
    simp only [State.put,update_of_ne hne]
    exact h.left d hd

lemma Inv.sched (h : Inv s) (hc : s.cur c = .proc p) (hpc : (s.thread (.proc p)).pc = .code)
    (hd : (s.thread (.proc p)).depth = 1) : Inv (s.schedAt c p) := by
  have hr := h.runs c
  rw [hc] at hr
  have hncli := hr.ncli
  have hoff := hr.off (by omega)
  -- the checks of `sched` do not fail
  rw [State.schedAt,if_neg (by simp [hoff,hncli,hd])]
  refine ⟨h.placed.leave hc,fun d => ?_,fun q hq => ?_,fun d hd' => ?_⟩
  · by_cases hdc : d = c
    · have hl := h.left c (by simp [hc])
      simp only [hdc,State.put,update_self,update_of_ne (show Id.scheduler c ≠ .proc p by simp)]
      refine ⟨hr.fine,by rw [hncli,hd,hl.depth],fun _ => hoff,(fun ho => by cases ho),fun hs => ?_,?_,hl.frames⟩
      · rw [hl.pc] at hs
        cases hs
      · rw [hl.pc]
        trivial
    · have hne := h.placed.ne hdc
      rw [hc] at hne
      simp only [State.put,update_of_ne hdc,update_of_ne hne]
      exact h.runs d
  · by_cases hqp : q = p
    · simp only [hqp,State.put,update_self]
      exact ⟨hd,.inl ⟨rfl,hr.intena rfl (by omega) (by simp [hpc])⟩,hr.frames⟩
    · simp only [update_of_ne hqp] at hq
      simp only [State.put,update_of_ne (show Id.proc q ≠ .proc p by simpa using hqp)]
      exact h.waits q hq
  · have hdc : d ≠ c := by
      rintro rfl
      simp at hd'
    simp only [update_of_ne hdc] at hd'
    simp only [State.put,update_of_ne (show Id.scheduler d ≠ .proc p by simp)]
    exact h.left d hd'

lemma Waits.runs {k : Cpu} {t : Thread} (h : Waits t) (hfine : k.panicked = false) (hncli : k.ncli = 1)
    (hoff : k.flag = false) : Runs true k t := by
  refine ⟨hfine,by rw [hncli,h.depth]; rfl,fun _ => hoff,fun _ _ hs b hb => ?_,fun hs => ⟨h.depth,?_⟩,?_,h.frames⟩
  · rcases h.place with ⟨h1,-⟩ | ⟨-,h2⟩
    · exact absurd h1 hs
    · rw [h2] at hb
      cases hb
  · rcases h.place with ⟨-,h1⟩ | ⟨h2,-⟩
    · exact h1
    · rw [hs] at h2
      cases h2
  · rcases h.place with ⟨h1,-⟩ | ⟨h1,-⟩ <;> rw [h1] <;> trivial

lemma Inv.resume (h : Inv s) (hc : s.cur c = .scheduler c) (hpc : (s.thread (.scheduler c)).pc = .code)
    (hd : (s.thread (.scheduler c)).depth = 1) (hp : s.out p = true) :
    Inv { s with cur := update s.cur c (.proc p), out := update s.out p false } := by
  have hr := h.runs c
  rw [hc] at hr
  refine ⟨h.placed.enter hp,fun d => ?_,fun q hq => ?_,fun d hd' => ?_⟩
  · by_cases hdc : d = c
    · simp only [hdc,update_self]
      exact (h.waits p hp).runs hr.fine (by rw [hr.ncli,hd]; rfl) (hr.off (by omega))
    · simp only [update_of_ne hdc]
      exact h.runs d
  · have hqp : q ≠ p := by
      rintro rfl
      simp at hq
    simp only [update_of_ne hqp] at hq
    exact h.waits q hq
  · by_cases hdc : d = c
    · rw [hdc]
      exact ⟨hpc,hd,hr.frames⟩
    · simp only [update_of_ne hdc] at hd'
      exact h.left d hd'

lemma waits_newborn : Waits newborn := by
  refine ⟨rfl,.inr ⟨rfl,rfl⟩,fun f hf => ?_⟩
  rw [mem_singleton.mp hf]
  exact ⟨rfl,(fun hs => by cases hs),trivial⟩

lemma Inv.step (h : Inv s) {l : Label C P} (hs : s.step l = some s') : Inv s' := by
  cases l with
  | act c a =>
    simp only [State.step] at hs
    split_ifs at hs
    obtain ⟨⟨k,t⟩,ha,rfl⟩ := map_eq_some_iff.mp hs
    exact h.put (runs_act (h.runs c) ha)
  | sti c =>
    simp only [State.step] at hs
    split_ifs at hs with hg
    cases hs
    obtain ⟨-,hc,hpc,hd,-⟩ := hg
    have hr := h.runs c
    rw [← hc] at hpc hd ⊢
    refine h.put ⟨hr.fine,hr.ncli,fun h0 => by omega,fun ho => ?_,hr.saved,?_,hr.frames⟩
    · simp [hc,Id.isProc] at ho
    · rw [hpc]
      trivial
  | sched c =>
    simp only [State.step] at hs
    split at hs
    · cases hs
    · next p hc =>
      split_ifs at hs with hg
      cases hs
      exact h.sched hc hg.2.1 hg.2.2
  | resume c p =>
    simp only [State.step] at hs
    split_ifs at hs with hg
    cases hs
    exact h.resume hg.2.1 hg.2.2.1 hg.2.2.2.1 hg.2.2.2.2.2
  | alloc p =>
    simp only [State.step] at hs
    split_ifs at hs with hp
    cases hs
    refine ⟨h.placed,fun c => ?_,fun q hq => ?_,fun c hc => ?_⟩
    · simp only [update_of_ne (h.placed.not_run hp c)]
      exact h.runs c
    · by_cases hqp : q = p
      · simp only [hqp,update_self]
        exact waits_newborn
      · simp only [update_of_ne (show Id.proc q ≠ .proc p by simpa using hqp)]
        exact h.waits q hq
    · simp only [update_of_ne (show Id.scheduler c ≠ .proc p by simp)]
      exact h.left c hc

end

lemma inv_of_reachable {s : State C P} (h : (machine C P).Reachable s) : Inv s := by
  refine System.Reachable.invariant (I := Inv) (fun s hs => ?_) (fun _ _ _ hi ht => hi.step ht) h
  obtain rfl : s = initial C P := hs
  refine ⟨⟨fun he => ?_,(fun he => by cases he),(fun he => by cases he)⟩,fun c => ?_,fun _ _ => waits_newborn,
    fun c hc => absurd rfl hc⟩
  · cases he
    rfl
  · exact ⟨rfl,rfl,fun _ => rfl,(fun ho => by cases ho),(fun hs => by cases hs),trivial,(fun f hf => by cases hf)⟩

/-- In every run `ncli` is never negative, interrupts are off while it is positive, and neither `popcli` nor `sched`
panics. When a process, on whatever CPU it is by then, does the `popcli` that ends its nesting, the flag becomes what it
was at its first `pushcli`. -/
theorem interrupt_state_survives {s : State C P} (h : (machine C P).Reachable s) (c : C) :
    0 ≤ (s.cpu c).ncli ∧ (0 < (s.cpu c).ncli → (s.cpu c).flag = false) ∧ (s.cpu c).panicked = false ∧
    ∀ p b s', s.cur c = .proc p → (s.thread (.proc p)).depth = 1 → (s.thread (.proc p)).before = some b →
      s.step (.act c .popcli) = some s' → (s'.cpu c).flag = b := by
  have hr := (inv_of_reachable h).runs c
  have hncli := hr.ncli
  refine ⟨by omega,fun h0 => hr.off (by omega),hr.fine,fun p b s' hc hd hb hs => ?_⟩
  rw [State.step,if_neg (by simp [hr.fine])] at hs
  obtain ⟨⟨k,t⟩,ha,rfl⟩ := map_eq_some_iff.mp hs
  rw [hc] at ha hr
  simp only [act] at ha
  split_ifs at ha with hg
  cases ha
  have hoff := hr.off (by omega)
  have hintena := hr.intena rfl (by omega) (by simp [hg.1]) b hb
  have hone : (s.cpu c).ncli = 1 := by rw [hr.ncli,hd]; rfl
  simp [State.put,enable,hoff,hone,hintena]

/-- `acquire`, as far as interrupts are concerned. -/
def acquire {P : Type} (c : Bool) : List (Label Bool P) := [.act c .pushcli,.act c .next,.act c .next]

/-- A process starts on one CPU, makes a system call, calls `sched` there, and goes on on the other CPU. -/
def migration : List (Label Bool Unit) :=
  List.flatten [[.sti false],acquire false,[.resume false (),.act false .popcli,.act false .iret,.act false .syscall],
    acquire false,[.sched false,.sti true],acquire true,[.resume true (),.act true .next]]

/-- Its `release` on the other CPU enables interrupts, which were enabled before its `acquire`. -/
theorem migrated_process_enables : ∃ s s' : State Bool Unit, (machine Bool Unit).Reachable s ∧ s.cur true = .proc () ∧
    s.step (.act true .popcli) = some s' ∧ (s'.cpu true).flag = true := by
  have hrun : ∃ s, (machine Bool Unit).Reachable s ∧ s.cur true = .proc () ∧ (s.thread (.proc ())).depth = 1 ∧
      (s.thread (.proc ())).before = some true ∧ (s.step (.act true .popcli)).isSome :=
    System.reachable_of_exec migration _ rfl (by decide)
  obtain ⟨s,hs,hc,hd,hb,hsome⟩ := hrun
  obtain ⟨s',hs'⟩ := isSome_iff_exists.mp hsome
  exact ⟨s,s',hs,hc,hs',(interrupt_state_survives hs true).2.2.2 () true s' hc hd hb hs'⟩

end Xv6Threads.Interrupts
