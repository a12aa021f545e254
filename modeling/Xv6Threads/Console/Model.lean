import Xv6Threads.Foundations.Transition

/-! The line discipline of `console.c`: the ring of `consoleintr` and `consoleread`, and the line editor that it stands
for. Both are driven by the same system, whose steps are the stretches that hold `cons.lock`: an interrupt with the
characters that `getc` has, and a read up to its return or its `sleep`. -/
namespace Xv6Threads.Console

def inputBuf : ℕ := 128

def ctrl (c : Char) : UInt8 := UInt8.ofNat (c.toNat-64)

def newline : UInt8 := 10
def carriageReturn : UInt8 := 13
def delete : UInt8 := 127

/-- Why `consoleread` returns. -/
inductive Why
  | count
  | newline
  | eof
  | killed
  deriving DecidableEq

/-- How `consoleread` lets go of the lock: asleep with `n` bytes to go, or for good with its return value. -/
inductive Outcome
  | sleep (n : ℕ)
  | ret (why : Why) (value : Int)
  deriving DecidableEq

/-- The struct `input`. -/
structure Input where
  buf : ℕ → UInt8
  r : UInt32
  w : UInt32
  e : UInt32

namespace Input

def char (i : Input) (k : UInt32) : UInt8 := i.buf (k%128).toNat

/-- The loop of kill-line, at most `k` times. -/
def killLine : ℕ → Input → Input
  | 0, i => i
  | k+1, i => if i.e ≠ i.w ∧ i.char (i.e-1) ≠ newline then killLine k {i with e := i.e-1} else i

/-- A character goes into the ring; a newline, a control-D and the last free place commit the line. -/
def insert (i : Input) (c : UInt8) : Input :=
  let i := {i with buf := Function.update i.buf (i.e%128).toNat c, e := i.e+1}
  if c = newline ∨ c = ctrl 'D' ∨ i.e = i.r+128 then {i with w := i.e} else i

/-- One turn of the loop in `consoleintr`. -/
def key (i : Input) (c : UInt8) : Input :=
  if c = ctrl 'P' then i
  else if c = ctrl 'U' then i.killLine (i.e-i.w).toNat
  else if c = ctrl 'H' ∨ c = delete then
    if i.e ≠ i.w then {i with e := i.e-1} else i
  else if c ≠ 0 ∧ i.e-i.r < 128 then i.insert (if c = carriageReturn then newline else c)
  else i

/-- The loop of `consoleread` with `n` bytes to go: what it copies, and how it ends. -/
def read (killed : Bool) (target : ℕ) : ℕ → Input → Input × List UInt8 × Outcome
  | 0, i => (i,[],.ret .count target)
  | n+1, i =>
    if i.r = i.w then (i,[],if killed then .ret .killed (-1) else .sleep (n+1))
    else
      let c := i.char i.r
      let i := {i with r := i.r+1}
      if c = ctrl 'D' then
        -- a control-D after other bytes is kept for the next read
        (if n+1 < target then {i with r := i.r-1} else i,[],.ret .eof (target-(n+1)))
      else if c = newline then (i,[c],.ret .newline (target-n))
      else
        let out := read killed target n i
        (out.1,c :: out.2.1,out.2.2)

end Input

/-- The line editor: the committed bytes that nobody has read, and the line that is being edited. All that has been
committed and all that has been taken off the queue is noted beside them. -/
structure Editor where
  queue : List UInt8
  line : List UInt8
  committed : List UInt8
  taken : List UInt8

namespace Editor

def commit (x : Editor) : Editor :=
  {x with queue := x.queue++x.line, line := [], committed := x.committed++x.line}

def insert (x : Editor) (c : UInt8) : Editor :=
  let x := {x with line := x.line++[c]}
  if c = newline ∨ c = ctrl 'D' ∨ x.queue.length+x.line.length = inputBuf then x.commit else x

def key (x : Editor) (c : UInt8) : Editor :=
  if c = ctrl 'P' then x
  else if c = ctrl 'U' then {x with line := []}
  else if c = ctrl 'H' ∨ c = delete then {x with line := x.line.dropLast}
  else if c ≠ 0 ∧ x.queue.length+x.line.length < inputBuf then x.insert (if c = carriageReturn then newline else c)
  else x

def take (x : Editor) (c : UInt8) (q : List UInt8) : Editor := {x with queue := q, taken := x.taken++[c]}

def read (killed : Bool) (target : ℕ) : ℕ → Editor → Editor × List UInt8 × Outcome
  | 0, x => (x,[],.ret .count target)
  | n+1, x =>
    match x.queue with
    | [] => (x,[],if killed then .ret .killed (-1) else .sleep (n+1))
    | c :: q =>
      if c = ctrl 'D' then (if n+1 < target then x else x.take c q,[],.ret .eof (target-(n+1)))
      else if c = newline then (x.take c q,[c],.ret .newline (target-n))
      else
        let out := read killed target n (x.take c q)
        (out.1,c :: out.2.1,out.2.2)

end Editor

/-- A call of `consoleread` that has not returned: its count, what is to go, and what it has copied. -/
structure Reader where
  target : ℕ
  n : ℕ
  bytes : List UInt8
  deriving DecidableEq

/-- A call that has returned. -/
structure Return where
  target : ℕ
  bytes : List UInt8
  why : Why
  value : Int
  deriving DecidableEq

structure State (D T : Type) where
  dev : D
  reader : T → Option Reader
  delivered : List UInt8
  returns : List Return

/-- An interrupt with characters, a call of `consoleread`, and a stretch of one, in which the process finds that it
has been killed or not. -/
inductive Label (T : Type)
  | intr (cs : List UInt8)
  | call (t : T) (n : ℕ)
  | run (t : T) (killed : Bool)

section
variable {D T : Type} [DecidableEq T] (key : D → UInt8 → D) (read : Bool → ℕ → ℕ → D → D × List UInt8 × Outcome)

def State.setReader (s : State D T) (t : T) (r : Option Reader) : State D T :=
  {s with reader := Function.update s.reader t r}

/-- What a stretch of reader `r` leaves. -/
def State.advance (s : State D T) (t : T) (r : Reader) (out : D × List UInt8 × Outcome) : State D T :=
  let s : State D T := {s with dev := out.1, delivered := s.delivered++out.2.1}
  match out.2.2 with
  | .sleep n => s.setReader t (some {r with n := n, bytes := r.bytes++out.2.1})
  | .ret why v => {s with returns := s.returns++[Return.mk r.target (r.bytes++out.2.1) why v]}.setReader t none

def State.step (s : State D T) : Label T → Option (State D T)
  | .intr cs => some {s with dev := cs.foldl key s.dev}
  | .call t n =>
    match s.reader t with
    | none => some (s.setReader t (some ⟨n,n,[]⟩))
    | some _ => none
  | .run t killed =>
    match s.reader t with
    | none => none
    | some r => some (s.advance t r (read killed r.target r.n s.dev))

structure Start (D₀ : D) (s : State D T) : Prop where
  dev : s.dev = D₀
  reader : ∀ t, s.reader t = none
  delivered : s.delivered = []
  returns : s.returns = []

end

variable (T : Type) [DecidableEq T]

/-- The driver, from its struct `input` of zeroes. -/
def console : System (State Input T) (Label T) where
  init := Start ⟨fun _ => 0,0,0,0⟩
  step := State.step Input.key Input.read

def editor : System (State Editor T) (Label T) where
  init := Start ⟨[],[],[],[]⟩
  step := State.step Editor.key Editor.read

end Xv6Threads.Console
