import Xv6Threads.Pipe.Model

/-! Every step of a process on the pipe, with what it has found, and that the pipe's lock and
`ptable.lock` are kept. -/
namespace Xv6Threads.Pipe
open Function
variable {T : Type} [DecidableEq T]

/-- The steps of process `t`. -/
inductive Acts (v : Vars T) (t : T) : Pc → Vars T → Pc → Prop
  | acquire (j : Job) (hl : v.lock = none) : Acts v t (.acquire j) {v with lock := some t} j.enter
  | full (c : Write) (i b : ℕ) (hi : (i : ℤ) < c.n.toInt) (hf : v.nwrite = v.nread+512) :
      Acts v t (.writeTest c i b) v (.fullTest c i b)
  | store (c : Write) (i b : ℕ) (hi : (i : ℤ) < c.n.toInt) (hf : v.nwrite ≠ v.nread+512) :
      Acts v t (.writeTest c i b) (v.store c i) (.writeTest c (i+1) b)
  | written (c : Write) (i b : ℕ) (hi : ¬(i : ℤ) < c.n.toInt) : Acts v t (.writeTest c i b) v (.writeWake c)
  | giveUp (c : Write) (i b : ℕ) (hk : v.readopen = false ∨ v.killed t = true) :
      Acts v t (.fullTest c i b) v (.leave (.wrote c (-1)))
  | stay (c : Write) (i b : ℕ) (hk : ¬(v.readopen = false ∨ v.killed t = true)) :
      Acts v t (.fullTest c i b) v (.fullWake c i)
  | fullWake (c : Write) (i : ℕ) (hp : v.ptableLock = none) :
      Acts v t (.fullWake c i) (v.wakeup1 .nread) (.sleepLock (.write c i))
  | writeWake (c : Write) (hp : v.ptableLock = none) :
      Acts v t (.writeWake c) (v.wakeup1 .nread) (.leave (.wrote c c.n))
  | readKilled (n : Int32) : Acts v t (.readTest n) v (.leave .killed)
  | readEmpty (n : Int32) (he : v.nread = v.nwrite) (hw : v.writeopen = true) :
      Acts v t (.readTest n) v (.sleepLock (.read n))
  | readReady (n : Int32) (hr : ¬(v.nread = v.nwrite ∧ v.writeopen = true)) :
      Acts v t (.readTest n) v (.readCopy n [])
  | take (n : Int32) (bytes : List UInt8) (hn : (bytes.length : ℤ) < n.toInt) (hr : v.nread ≠ v.nwrite) :
      Acts v t (.readCopy n bytes) v.take (.readCopy n (bytes++[v.next]))
  | taken (n : Int32) (bytes : List UInt8) (hr : ¬((bytes.length : ℤ) < n.toInt ∧ v.nread ≠ v.nwrite)) :
      Acts v t (.readCopy n bytes) v (.readWake n bytes)
  | readWake (n : Int32) (bytes : List UInt8) (hp : v.ptableLock = none) :
      Acts v t (.readWake n bytes) (v.wakeup1 .nwrite) (.leave (.got n bytes))
  | closeSet (w : Bool) : Acts v t (.closeSet w) (v.shut w) (.closeWake w)
  | closeWake (w : Bool) (hp : v.ptableLock = none) :
      Acts v t (.closeWake w) (v.wakeup1 (closeChan w)) (.leave .closed)
  | sleepLock (k : Wait) (hp : v.ptableLock = none) :
      Acts v t (.sleepLock k) {v with ptableLock := some t} (.sleepRelease k)
  | sleepRelease (k : Wait) : Acts v t (.sleepRelease k) {v with lock := none} (.sleepSet k)
  | sleepSet (k : Wait) : Acts v t (.sleepSet k) {v with
      chan := update v.chan t (some k.chan)
      sleeping := update v.sleeping t true
      ptableLock := none} (.asleep k)
  | asleep (k : Wait) (hs : v.sleeping t = false) (hp : v.ptableLock = none) :
      Acts v t (.asleep k) {v with ptableLock := some t} (.tidy k)
  | tidy (k : Wait) :
      Acts v t (.tidy k) {v with chan := update v.chan t none, ptableLock := none} (.reacquire k)
  | reacquire (k : Wait) (hl : v.lock = none) : Acts v t (.reacquire k) {v with lock := some t} k.enter
  | leave (r : Result) : Acts v t (.leave r) (v.finish r) .idle

lemma act_cases {v v' : Vars T} {t : T} {pc pc' : Pc} (h : act v t pc = some (v',pc')) : Acts v t pc v' pc' := by
  cases pc with
  | idle => cases h
  | acquire j =>
    simp only [act] at h
    split_ifs at h with hl
    cases h
    exact .acquire j hl
  | writeTest c i b =>
    simp only [act] at h
    split_ifs at h with hi hf <;> cases h
    · exact .full c i b hi hf
    · exact .store c i b hi hf
    · exact .written c i b hi
  | fullTest c i b =>
    simp only [act] at h
    split_ifs at h with hk <;> cases h
    · exact .giveUp c i b hk
    · exact .stay c i b hk
  | fullWake c i =>
    simp only [act] at h
    split_ifs at h with hp
    cases h
    exact .fullWake c i hp
  | writeWake c =>
    simp only [act] at h
    split_ifs at h with hp
    cases h
    exact .writeWake c hp
  | readTest n =>
    simp only [act] at h
    split_ifs at h with hr hk <;> cases h
    · exact .readKilled n
    · exact .readEmpty n hr.1 hr.2
    · exact .readReady n hr
  | readCopy n bytes =>
    simp only [act] at h
    split_ifs at h with hr <;> cases h
    · exact .take n bytes hr.1 hr.2
    · exact .taken n bytes hr
  | readWake n bytes =>
    simp only [act] at h
    split_ifs at h with hp
    cases h
    exact .readWake n bytes hp
  | closeSet w => cases h; exact .closeSet w
  | closeWake w =>
    simp only [act] at h
    split_ifs at h with hp
    cases h
    exact .closeWake w hp
  | sleepLock k =>
    simp only [act] at h
    split_ifs at h with hp
    cases h
    exact .sleepLock k hp
  | sleepRelease k => cases h; exact .sleepRelease k
  | sleepSet k => cases h; exact .sleepSet k
  | asleep k =>
    simp only [act] at h
    split_ifs at h with hp
    cases h
    exact .asleep k hp.1 hp.2
  | tidy k => cases h; exact .tidy k
  | reacquire k =>
    simp only [act] at h
    split_ifs at h with hl
    cases h
    exact .reacquire k hl
  | leave r => cases h; exact .leave r

/-- Every step of the system. -/
inductive Steps (s : State T) : Label T → State T → Prop
  | start (l : Label T) (t : T) (j : Job) (hi : s.pc t = .idle) (hj : ∀ c, j = .write c → c.id = s.calls) :
      Steps s l {s with pc := update s.pc t (.acquire j), calls := s.calls+1}
  | run (t : T) (v : Vars T) (pc : Pc) (h : Acts s.vars t (s.pc t) v pc) :
      Steps s (.run t) {s with vars := v, pc := update s.pc t pc}
  | kill (t : T) : Steps s (.kill t) {s with vars := {s.vars with
      killed := update s.vars.killed t true
      sleeping := update s.vars.sleeping t false}}

variable {s s' : State T}

lemma start_cases {t : T} {j : Job} (l : Label T) (hj : ∀ c, j = .write c → c.id = s.calls)
    (h : s.start t j = some s') : Steps s l s' := by
  unfold State.start at h
  split at h
  · next hi =>
    cases h
    exact .start l t j hi hj
  · cases h

lemma step_cases {l : Label T} (h : s.step l = some s') : Steps s l s' := by
  unfold State.step at h
  by_cases hf : s.vars.freed = true
  · rw [if_pos hf] at h
    cases h
  rw [if_neg hf] at h
  cases l with
  | write t addr n => exact start_cases _ (fun c hc => by cases hc; rfl) h
  | read t n | close t w => exact start_cases _ (fun c hc => by cases hc) h
  | run t =>
    obtain ⟨⟨v,pc⟩,hr,he⟩ := Option.map_eq_some_iff.mp h
    cases he
    exact .run t v pc (act_cases hr)
  | kill t =>
    simp only at h
    split_ifs at h
    cases h
    exact .kill t

/-- The process has the pipe's lock. -/
def Pc.inside : Pc → Bool
  | .idle | .acquire _ | .sleepSet _ | .asleep _ | .tidy _ | .reacquire _ => false
  | _ => true

/-- The process has `ptable.lock`. -/
def Pc.holdsPtable : Pc → Bool
  | .sleepRelease _ | .sleepSet _ | .tidy _ => true
  | _ => false

lemma inside_enter (j : Job) : j.enter.inside = true := by cases j <;> rfl

lemma inside_wait (k : Wait) : k.enter.inside = true := by cases k <;> rfl

omit [DecidableEq T] in
lemma finish_lock (v : Vars T) (r : Result) : (v.finish r).lock = none ∧ (v.finish r).ptableLock = v.ptableLock := by
  cases r <;> exact ⟨rfl,rfl⟩

omit [DecidableEq T] in
lemma shut_lock (v : Vars T) (w : Bool) : (v.shut w).lock = v.lock ∧ (v.shut w).ptableLock = v.ptableLock := by
  cases w <;> exact ⟨rfl,rfl⟩

lemma acts_lock {v v' : Vars T} {t : T} {pc pc' : Pc} (h : Acts v t pc v' pc') :
    Handover t v.lock v'.lock pc.inside pc'.inside := by
  cases h with
  | acquire j hl => exact .take hl rfl (inside_enter j)
  | reacquire k hl => exact .take hl rfl (inside_wait k)
  | sleepRelease k => exact .drop rfl rfl rfl
  | leave r => exact .drop rfl (finish_lock v r).1 rfl
  | closeSet w => exact .keep (shut_lock v w).1 rfl
  | _ => exact .keep rfl rfl

/-- The pipe's lock names the process that is inside. -/
def Locked (s : State T) : Prop := Guarded Pc.inside s.vars.lock s.pc

lemma locked_step {l : Label T} (hL : Locked s) (h : Steps s l s') : Locked s' := by
  cases h with
  | start l t j hi hj =>
    refine Guarded.step hL (.keep rfl ?_)
    rw [hi]
    rfl
  | run t v pc h => exact Guarded.step hL (acts_lock h)
  | kill t => exact hL

omit [DecidableEq T] in
lemma locked_fresh {s : State T} (h : Fresh s) : Locked s := by
  intro t
  rw [h.lock,h.idle]
  exact ⟨nofun,nofun⟩

end Xv6Threads.Pipe
