import Xv6Threads.Foundations.Transition

/-! The `missionaries` program as the threads execute it: one small step for each C statement
that touches a shared variable, the mutex or a semaphore. The mutex and the two semaphores
are correct by assumption, that is, `pthread_mutex_lock` waits until `mu` is free and
`sem_wait_u` until the semaphore has a permit. The C ints are unbounded here; the process
table holds at most 64 threads, so none of them comes near its limit. -/
namespace Xv6Threads.Missionaries

/-- The passengers of a run with `nm` missionaries and `nc` cannibals. -/
abbrev Passenger (nm nc : ℕ) := Fin nm ⊕ Fin nc

/-- What a boat carries, with its number: `bm`, `bc` and `bn` of `board`. -/
structure Boat where
  m : ℤ
  c : ℤ
  no : ℤ
  deriving DecidableEq

/-- The two places that `try_form_boat` returns to. -/
inductive Caller
  | arrive
  | row
  deriving DecidableEq

/-- Statements of `try_form_boat`. -/
inductive FormPc
  | testBusy
  | clear
  | choose
  | subM
  | subC
  | setBusy
  | zeroBoarded
  | incNo
  | announce
  | postM (i : ℕ)
  | postC (i : ℕ)
  deriving DecidableEq

/-- Statements of `missionary` and `cannibal` with the calls of `board` and `try_form_boat`
written out. A passenger is `unborn` until `main` has created its thread. -/
inductive Pc
  | unborn
  | lock
  | arrive
  | announceArrival
  | form (caller : Caller) (f : FormPc)
  | unlock
  | semWait
  | boardLock
  | boardInc
  | boardPrint
  | boardTest
  | boardUnlock (last : Option Boat)
  | row (b : Boat)
  | rowLock
  | resetBusy
  | resetBoarded
  | resetBoat
  | rowUnlock
  | done
  deriving DecidableEq

/-- Statements of `main` after the objects are initialised. -/
inductive MainPc
  | createC (i : ℕ)
  | createM (i : ℕ)
  | joinM (i : ℕ)
  | joinC (i : ℕ)
  | pass
  | exited
  deriving DecidableEq

/-- What has happened. No step reads the history. -/
inductive Event (nm nc : ℕ)
  | selected (m c no : ℤ)
  | permit (p : Passenger nm nc)
  | boarded (p : Passenger nm nc) (no : ℤ)
  | rowed (p : Passenger nm nc) (b : Boat)
  | passed
  deriving DecidableEq

/-- The mutex, the semaphores and the static variables. -/
structure Vars (nm nc : ℕ) where
  mu : Option (Passenger nm nc)
  mpermit : ℕ
  cpermit : ℕ
  waitingM : ℤ
  waitingC : ℤ
  boatBusy : ℤ
  boarded : ℤ
  boatno : ℤ
  boatM : ℤ
  boatC : ℤ

structure State (nm nc : ℕ) where
  vars : Vars nm nc
  pc : Passenger nm nc → Pc
  main : MainPc
  /-- Newest event first. -/
  hist : List (Event nm nc)

variable {nm nc : ℕ}

def Caller.ret : Caller → Pc
  | .arrive => .unlock
  | .row => .rowUnlock

/-- One statement of `try_form_boat`. -/
def tryFormBoat (v : Vars nm nc) (k : Caller) : FormPc → Vars nm nc × Pc × List (Event nm nc)
  | .testBusy => (v,if v.boatBusy ≠ 0 then k.ret else .form k .clear,[])
  | .clear => ({v with boatM := 0, boatC := 0},.form k .choose,[])
  | .choose =>
    -- Prefer a mixed safe boat, then homogeneous boats.
    if v.waitingM ≥ 2 ∧ v.waitingC ≥ 1 then
      ({v with boatM := 2, boatC := 1},.form k .subM,[.selected 2 1 (v.boatno+1)])
    else if v.waitingM ≥ 3 then
      ({v with boatM := 3},.form k .subM,[.selected 3 0 (v.boatno+1)])
    else if v.waitingC ≥ 3 then
      ({v with boatC := 3},.form k .subM,[.selected 0 3 (v.boatno+1)])
    else (v,k.ret,[])
  | .subM => ({v with waitingM := v.waitingM-v.boatM},.form k .subC,[])
  | .subC => ({v with waitingC := v.waitingC-v.boatC},.form k .setBusy,[])
  | .setBusy => ({v with boatBusy := 1},.form k .zeroBoarded,[])
  | .zeroBoarded => ({v with boarded := 0},.form k .incNo,[])
  | .incNo => ({v with boatno := v.boatno+1},.form k .announce,[])
  | .announce => (v,.form k (.postM 0),[])
  | .postM i =>
    if (i : ℤ) < v.boatM then ({v with mpermit := v.mpermit+1},.form k (.postM (i+1)),[])
    else (v,.form k (.postC 0),[])
  | .postC i =>
    if (i : ℤ) < v.boatC then ({v with cpermit := v.cpermit+1},.form k (.postC (i+1)),[])
    else (v,k.ret,[])

def mutexLock (v : Vars nm nc) (p : Passenger nm nc) (next : Pc) :
    Option (Vars nm nc × Pc × List (Event nm nc)) :=
  if v.mu = none then some ({v with mu := some p},next,[]) else none

/-- `waiting_m++` or `waiting_c++`. -/
def arrival (v : Vars nm nc) : Passenger nm nc → Vars nm nc
  | .inl _ => {v with waitingM := v.waitingM+1}
  | .inr _ => {v with waitingC := v.waitingC+1}

/-- `sem_wait_u` on the semaphore of the passenger's kind. -/
def semWait (v : Vars nm nc) : Passenger nm nc → Option (Vars nm nc)
  | .inl _ => if 0 < v.mpermit then some {v with mpermit := v.mpermit-1} else none
  | .inr _ => if 0 < v.cpermit then some {v with cpermit := v.cpermit-1} else none

/-- One statement of the thread of passenger `p`; `none` when it cannot go on. -/
def act (v : Vars nm nc) (p : Passenger nm nc) : Pc → Option (Vars nm nc × Pc × List (Event nm nc))
  | .unborn => none
  | .lock => mutexLock v p .arrive
  | .arrive => some (arrival v p,.announceArrival,[])
  | .announceArrival => some (v,.form .arrive .testBusy,[])
  | .form k f => some (tryFormBoat v k f)
  | .unlock => some ({v with mu := none},.semWait,[])
  | .semWait => (semWait v p).map (fun w => (w,.boardLock,[.permit p]))
  | .boardLock => mutexLock v p .boardInc
  | .boardInc => some ({v with boarded := v.boarded+1},.boardPrint,[.boarded p v.boatno])
  | .boardPrint => some (v,.boardTest,[])
  | .boardTest =>
    some (v,.boardUnlock (if v.boarded = 3 then some ⟨v.boatM,v.boatC,v.boatno⟩ else none),[])
  | .boardUnlock last =>
    -- Only the third passenger rows.
    some ({v with mu := none},match last with | none => .done | some b => .row b,[])
  | .row b => some (v,.rowLock,[.rowed p b])
  | .rowLock => mutexLock v p .resetBusy
  | .resetBusy => some ({v with boatBusy := 0},.resetBoarded,[])
  | .resetBoarded => some ({v with boarded := 0},.resetBoat,[])
  | .resetBoat => some ({v with boatM := 0, boatC := 0},.form .row .testBusy,[])
  | .rowUnlock => some ({v with mu := none},.done,[])
  | .done => none

/-- The thread of `p` takes its next statement. Only its own program counter moves. -/
def State.advance (s : State nm nc) (p : Passenger nm nc) : Option (State nm nc) :=
  (act s.vars p (s.pc p)).map (fun r =>
    {s with vars := r.1, pc := Function.update s.pc p r.2.1, hist := r.2.2++s.hist})

/-- `pthread_create` makes the thread start at its first statement. -/
def State.create (s : State nm nc) (p : Passenger nm nc) : State nm nc :=
  {s with pc := Function.update s.pc p .lock}

/-- One statement of `main`. Creation alternates between the kinds, and the joins wait for
the missionaries first. -/
def State.mainStep (s : State nm nc) : Option (State nm nc) :=
  match s.main with
  | .createC i =>
    if i < nm ∨ i < nc then
      if h : i < nc then some {s.create (.inr ⟨i,h⟩) with main := .createM i}
      else some {s with main := .createM i}
    else some {s with main := .joinM 0}
  | .createM i =>
    if h : i < nm then some {s.create (.inl ⟨i,h⟩) with main := .createC (i+1)}
    else some {s with main := .createC (i+1)}
  | .joinM i =>
    if h : i < nm then
      if s.pc (.inl ⟨i,h⟩) = .done then some {s with main := .joinM (i+1)} else none
    else some {s with main := .joinC 0}
  | .joinC i =>
    if h : i < nc then
      if s.pc (.inr ⟨i,h⟩) = .done then some {s with main := .joinC (i+1)} else none
    else some {s with main := .pass}
  | .pass => some {s with main := .exited, hist := .passed :: s.hist}
  | .exited => none

/-- Who moves: a passenger's thread, or `main` when there is none. -/
abbrev Label (nm nc : ℕ) := Option (Passenger nm nc)

def State.step (s : State nm nc) : Label nm nc → Option (State nm nc)
  | none => s.mainStep
  | some p => s.advance p

def initial (nm nc : ℕ) : State nm nc where
  vars := ⟨none,0,0,0,0,0,0,0,0,0⟩
  pc _ := .unborn
  main := .createC 0
  hist := []

/-- The program with `NM = nm` and `NC = nc`. -/
def program (nm nc : ℕ) : System (State nm nc) (Label nm nc) where
  init s := s = initial nm nc
  step := State.step

/-- The passengers that have boarded since a boat was last selected. -/
def aboard : List (Event nm nc) → List (Passenger nm nc)
  | [] => []
  | .selected _ _ _ :: _ => []
  | .boarded p _ :: h => p :: aboard h
  | _ :: h => aboard h

/-- The passengers that have consumed a permit since a boat was last selected. -/
def permitted : List (Event nm nc) → List (Passenger nm nc)
  | [] => []
  | .selected _ _ _ :: _ => []
  | .permit p :: h => p :: permitted h
  | _ :: h => permitted h

/-- All boardings of a run. -/
def boardings : List (Event nm nc) → List (Passenger nm nc)
  | [] => []
  | .boarded p _ :: h => p :: boardings h
  | _ :: h => boardings h

end Xv6Threads.Missionaries
