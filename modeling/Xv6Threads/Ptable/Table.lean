import Mathlib

/-! The process table and the functions of `proc.c` on it. A `struct proc` pointer is the index of
its slot, and a page directory is named by a number. Of `struct proc` the table keeps what
`fork`, `clone`, `exec`, `exit`, `thread_exit`, `wait`, `join` and `kill` decide on. -/
namespace Xv6Threads.Ptable
open Function List

abbrev nproc : ℕ := 64

abbrev Slot := Fin nproc

abbrev PgDir := ℕ

inductive ProcState
  | unused
  | embryo
  | sleeping
  | runnable
  | running
  | zombie
  deriving DecidableEq

/-- What a process sleeps on: a `struct proc` in `wait` and `join`, anything else elsewhere. -/
inductive Chan
  | proc (p : Slot)
  | other (c : ℕ)
  deriving DecidableEq

/-- `struct proc`. The last three fields are read by no step: whether the entry has been given its
address space, the number of its allocation, and that of the process that created it. -/
structure Proc where
  state : ProcState
  pid : Int32
  parent : Option Slot
  pgdir : Option PgDir
  killed : Bool
  chan : Option Chan
  isthread : Bool
  tgid : Int32
  ready : Bool
  birth : ℕ
  creator : ℕ

abbrev Table := Slot → Proc

/-- `userinit` gets the first slot. -/
def initproc : Slot := 0

/-- The first slot that a scan of the table meets. -/
def firstSlot (f : Slot → Bool) : Option Slot := (List.finRange nproc).find? f

variable {p : Slot}

lemma firstSlot_some {f : Slot → Bool} (h : firstSlot f = some p) : f p = true := find?_some h

lemma firstSlot_none {f : Slot → Bool} (h : firstSlot f = none) (p : Slot) : f p = false := by
  have := find?_eq_none.mp h p (mem_finRange p)
  simpa using this

def wakeup1 (t : Table) (c : Option Chan) : Table := fun q =>
  if (t q).state = .sleeping ∧ (t q).chan = c then {t q with state := .runnable} else t q

def adopt (t : Table) (q : Slot) : Table :=
  update t q {t q with parent := some initproc}

/-- One round of the loop in `exit` that passes abandoned children to init. -/
def reparent1 (p : Slot) (t : Table) (q : Slot) : Table :=
  if (t q).parent = some p then
    if (t q).state = .zombie then wakeup1 (adopt t q) (some (.proc initproc)) else adopt t q
  else t

def reparent (p : Slot) (t : Table) : Table := (List.finRange nproc).foldl (reparent1 p) t

/-- The table after `exit` of `p`. -/
def exit (p : Slot) (t : Table) : Table :=
  let t' := reparent p (wakeup1 t ((t p).parent.map .proc))
  update t' p {t' p with state := .zombie}

/-- The table after `thread_exit` of the thread `p`. It passes on no children. -/
def threadExit (p : Slot) (t : Table) : Table :=
  let t' := wakeup1 t ((t p).parent.map .proc)
  update t' p {t' p with state := .zombie}

/-- `wait` clears an entry that it has reaped; the page directory pointer stays in it. -/
def waitClear (e : Proc) : Proc :=
  {e with pid := 0, parent := none, killed := false, state := .unused}

/-- `join` clears an entry that it has reaped. -/
def joinClear (e : Proc) : Proc :=
  {e with pid := 0, parent := none, pgdir := none, killed := false, isthread := false, state := .unused}

/-- `allocproc` on the slot it has found. -/
def allocEntry (e : Proc) (pid : Int32) (birth : ℕ) : Proc :=
  {e with state := .embryo, pid := pid, isthread := false, tgid := pid, ready := false, birth := birth}

/-- What `fork` of `p` stores into its child after `copyuvm`. -/
def forkEntry (t : Table) (p : Slot) (d : PgDir) (e : Proc) : Proc :=
  {e with pgdir := some d, parent := some p, tgid := e.pid, ready := true, creator := (t p).birth}

/-- What `clone` by `p` stores into the new thread. -/
def cloneEntry (t : Table) (p : Slot) (e : Proc) : Proc :=
  {e with
    pgdir := (t p).pgdir
    parent := some p
    isthread := true
    tgid := (t p).tgid
    ready := true
    creator := (t p).birth}

/-- `kill` on the entry it has found. -/
def killEntry (e : Proc) : Proc :=
  {e with killed := true, state := if e.state = .sleeping then .runnable else e.state}

/-- The entries that `join(w)` by `p` looks at. -/
def joinable (t : Table) (p : Slot) (w : Int32) (q : Slot) : Bool :=
  (t q).parent == some p && (t q).isthread && !(decide (0 < w) && (t q).pid != w)

/-- The entries other than `z` that are in use and have page directory `d`. -/
def sharers (t : Table) (z : Option Slot) (d : PgDir) : List Slot :=
  (List.finRange nproc).filter
    (fun q => (t q).state ≠ .unused ∧ (t q).pgdir = some d ∧ z ≠ some q)

lemma sharers_eq_nil {t : Table} {z : Option Slot} {d : PgDir} :
    sharers t z d = [] ↔ ∀ q, (t q).state ≠ .unused → (t q).pgdir = some d → z = some q := by
  simp [sharers,filter_eq_nil_iff,mem_finRange]

/-- How waking and passing on children change an entry: nothing but the state of a sleeper
and the parent. -/
structure Woken (p : Slot) (e e' : Proc) : Prop where
  state : e'.state = e.state ∨ (e.state = .sleeping ∧ e'.state = .runnable)
  parent : e'.parent = e.parent ∨ (e.parent = some p ∧ e'.parent = some initproc)
  pid : e'.pid = e.pid
  pgdir : e'.pgdir = e.pgdir
  killed : e'.killed = e.killed
  chan : e'.chan = e.chan
  isthread : e'.isthread = e.isthread
  tgid : e'.tgid = e.tgid
  ready : e'.ready = e.ready
  birth : e'.birth = e.birth
  creator : e'.creator = e.creator

lemma Woken.refl (p : Slot) (e : Proc) : Woken p e e := ⟨.inl rfl,.inl rfl,rfl,rfl,rfl,rfl,rfl,rfl,rfl,rfl,rfl⟩

lemma Woken.trans {a b c : Proc} (h : Woken p a b) (h' : Woken p b c) : Woken p a c where
  state := by
    rcases h.state with h1 | ⟨h1,h2⟩ <;> rcases h'.state with h3 | ⟨h3,h4⟩
    · exact .inl (h3.trans h1)
    · exact .inr ⟨h1 ▸ h3,h4⟩
    · exact .inr ⟨h1,h3.trans h2⟩
    · exact .inr ⟨h1,h4⟩
  parent := by
    rcases h.parent with h1 | ⟨h1,h2⟩ <;> rcases h'.parent with h3 | ⟨h3,h4⟩
    · exact .inl (h3.trans h1)
    · exact .inr ⟨h1 ▸ h3,h4⟩
    · exact .inr ⟨h1,h3.trans h2⟩
    · exact .inr ⟨h1,h4⟩
  pid := h'.pid.trans h.pid
  pgdir := h'.pgdir.trans h.pgdir
  killed := h'.killed.trans h.killed
  chan := h'.chan.trans h.chan
  isthread := h'.isthread.trans h.isthread
  tgid := h'.tgid.trans h.tgid
  ready := h'.ready.trans h.ready
  birth := h'.birth.trans h.birth
  creator := h'.creator.trans h.creator

lemma Woken.zombie {e e' : Proc} (h : Woken p e e') : e'.state = .zombie ↔ e.state = .zombie := by
  rcases h.state with h | ⟨h,h'⟩
  · rw [h]
  · rw [h,h']; exact ⟨nofun,nofun⟩

lemma Woken.sleeping {e e' : Proc} (h : Woken p e e') (hs : e'.state = .sleeping) : e.state = .sleeping := by
  rcases h.state with h | ⟨h,-⟩
  · rw [← h]; exact hs
  · exact h

section
variable (t : Table) (c : Option Chan)
include t c

lemma wakeup1_woken (p q : Slot) : Woken p (t q) (wakeup1 t c q) := by
  unfold wakeup1
  split_ifs with h
  · exact ⟨.inr ⟨h.1,rfl⟩,.inl rfl,rfl,rfl,rfl,rfl,rfl,rfl,rfl,rfl,rfl⟩
  · exact .refl p _

lemma wakeup1_chan (q : Slot) (hs : (wakeup1 t c q).state = .sleeping) : (t q).chan ≠ c := by
  intro hc
  by_cases h : (t q).state = .sleeping <;> simp [wakeup1,h,hc] at hs

lemma wakeup1_parent (q : Slot) : (wakeup1 t c q).parent = (t q).parent := by
  unfold wakeup1
  split_ifs <;> rfl

end

lemma adopt_woken {t : Table} {z : Slot} (h : (t z).parent = some p) (q : Slot) : Woken p (t q) (adopt t z q) := by
  by_cases hq : q = z
  · subst hq
    rw [adopt,update_self]
    exact ⟨.inl rfl,.inr ⟨h,rfl⟩,rfl,rfl,rfl,rfl,rfl,rfl,rfl,rfl,rfl⟩
  · rw [adopt,update_of_ne hq]
    exact .refl p _

lemma reparent1_woken (p : Slot) (t : Table) (z q : Slot) : Woken p (t q) (reparent1 p t z q) := by
  unfold reparent1
  split_ifs with h1 h2
  · exact (adopt_woken h1 q).trans (wakeup1_woken _ _ p q)
  · exact adopt_woken h1 q
  · exact .refl p _

lemma reparent1_parent (p : Slot) (t : Table) (z q : Slot) : (reparent1 p t z q).parent =
    if q = z ∧ (t z).parent = some p then some initproc else (t q).parent := by
  have hz : (adopt t z q).parent = if q = z then some initproc else (t q).parent := by
    by_cases hq : q = z
    · subst hq; simp [adopt]
    · simp [adopt,hq]
  by_cases hp : (t z).parent = some p
  · simp only [reparent1,hp,if_true,and_true]
    split_ifs at hz ⊢ <;> simp only [wakeup1_parent,hz]
  · simp [reparent1,hp]

lemma reparents_woken (p : Slot) (l : List Slot) (t : Table) (q : Slot) :
    Woken p (t q) (l.foldl (reparent1 p) t q) := by
  induction l generalizing t with
  | nil => exact .refl p _
  | cons z l ih => exact (reparent1_woken p t z q).trans (ih _)

lemma reparents_parent (hp : p ≠ initproc) (l : List Slot) (t : Table) {q : Slot}
    (hq : q ∈ l ∨ (t q).parent ≠ some p) : (l.foldl (reparent1 p) t q).parent ≠ some p := by
  induction l generalizing t with
  | nil => simpa using hq
  | cons z l ih =>
    refine ih _ ?_
    rw [reparent1_parent]
    split_ifs with h
    · exact .inr (fun h => hp (Option.some.inj h).symm)
    · rcases hq with hq | hq
      · rcases mem_cons.mp hq with rfl | hq
        · exact .inr (fun hq => h ⟨rfl,hq⟩)
        · exact .inl hq
      · exact .inr hq

lemma reparents_wake (l : List Slot) (t : Table) {z : Slot} (hz : z ∈ l)
    (hpz : (t z).parent = some p) (hsz : (t z).state = .zombie) (q : Slot)
    (hq : (l.foldl (reparent1 p) t q).state = .sleeping) : (t q).chan ≠ some (.proc initproc) := by
  induction l generalizing t with
  | nil => simp at hz
  | cons a l ih =>
    have hw := reparent1_woken p t a
    by_cases ha : z = a
    · -- Sleepers of the final table slept right after this round.
      subst ha
      have hs : (reparent1 p t z q).state = .sleeping := (reparents_woken p l _ q).sleeping hq
      rw [reparent1,if_pos hpz,if_pos hsz] at hs
      have := wakeup1_chan _ _ q hs
      rwa [(adopt_woken hpz q).chan] at this
    · rw [← (hw q).chan]
      refine ih (reparent1 p t a) ((mem_cons.mp hz).resolve_left ha) ?_ ?_ hq
      · rw [reparent1_parent,if_neg (fun h => ha h.1)]
        exact hpz
      · exact (hw z).zombie.mpr hsz

end Xv6Threads.Ptable
