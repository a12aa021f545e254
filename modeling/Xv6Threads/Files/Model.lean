import Xv6Threads.Foundations.Transition
import Xv6Threads.Param

/-! The open files of `file.c`, the descriptors of processes, and the pipes behind them. A step is one
critical section of `ftable.lock` or of a pipe's lock, together with what the process does to its own
descriptors before or after it. Any failure of `filealloc`, `kalloc` and `copyuvm` is a choice of the
step. What `pipeclose` and `kfree` have done to each pipe is recorded. -/
namespace Xv6Threads.Files
open Function

/-- One end of a pipe. -/
structure End where
  pipe : ℕ
  writable : Bool
  deriving DecidableEq

/-- `type`, with `pipe` and `writable`, of `struct file` -/
inductive Ftype
  | none
  | pipe (e : End)
  | inode
  deriving DecidableEq

structure File where
  ref : ℕ
  type : Ftype

/-- `readopen` and `writeopen`, the calls of `pipeclose` for each end and the calls of `kfree`. -/
structure Pipe where
  opened : Bool → Bool
  closes : Bool → ℕ
  frees : ℕ

/-- What a process does after a `fileclose`. -/
inductive After (F : Type)
  | ret
  | also (f : F)
  | exit (fd : ℕ)

/-- Where a process is. -/
inductive Pc (P F : Type)
  | unused
  | embryo
  | zombie
  | idle
  | openAlloc
  | openFd (f : F)
  | openSet (f : F)
  | pipe0
  | pipe1 (f0 : F)
  | pipe2 (f0 f1 : F)
  | pipeFd (f0 f1 : F)
  | drop (f : F) (k : After F)
  | tail (ff : Ftype) (k : After F)
  | kfree (p : ℕ) (k : After F)
  | made (q : P)
  | copy (q : P) (i : ℕ)
  | exitAt (fd : ℕ)

structure Proc (P F : Type) where
  pc : Pc P F
  ofile : ℕ → Option F

structure State (P F : Type) where
  proc : P → Proc P F
  file : F → File
  pipe : ℕ → Pipe
  pipes : ℕ

variable {P F : Type}

/-- The lowest descriptor that is free. -/
def freeFd (o : ℕ → Option F) : Option ℕ := (List.range nofile).find? (fun fd => (o fd).isNone)

def setFd (o : ℕ → Option F) (fd : ℕ) (x : Option F) : ℕ → Option F := update o fd x

/-- Where `fileclose` returns to. -/
def After.back (k : After F) (o : ℕ → Option F) : Proc P F :=
  match k with
  | .ret => ⟨.idle,o⟩
  | .also f => ⟨.drop f .ret,o⟩
  | .exit fd => ⟨.exitAt (fd+1),setFd o fd none⟩

def newPipe : Pipe := ⟨fun _ => true,fun _ => 0,0⟩

/-- `pipeclose`, up to the release of the pipe's lock. -/
def Pipe.close (p : Pipe) (w : Bool) : Pipe :=
  {p with opened := update p.opened w false, closes := update p.closes w (p.closes w+1)}

variable [DecidableEq P] [DecidableEq F]

/-- The step of a process on its own descriptors and the file table; `f` and `ok` are what
`filealloc`, and `kalloc` or `copyuvm`, come up with. A panic has no next state. -/
def act (s : State P F) (o : ℕ → Option F) (f : Option F) (ok : Bool) : Pc P F → Option (State P F × Proc P F)
  | .openAlloc =>
    match f with
    | none => some (s,⟨.idle,o⟩)
    | some f =>
      if (s.file f).ref = 0 then
        some ({s with file := update s.file f ⟨1,(s.file f).type⟩},⟨.openFd f,o⟩)
      else none
  | .openFd f =>
    match freeFd o with
    | none => some (s,⟨.drop f .ret,o⟩)
    | some fd => some (s,⟨.openSet f,setFd o fd (some f)⟩)
  | .openSet f => some ({s with file := update s.file f ⟨(s.file f).ref,.inode⟩},⟨.idle,o⟩)
  | .pipe0 =>
    match f with
    | none => some (s,⟨.idle,o⟩)
    | some f =>
      if (s.file f).ref = 0 then
        some ({s with file := update s.file f ⟨1,(s.file f).type⟩},⟨.pipe1 f,o⟩)
      else none
  | .pipe1 f0 =>
    match f with
    | none => some (s,⟨.drop f0 .ret,o⟩)
    | some f =>
      if (s.file f).ref = 0 then
        some ({s with file := update s.file f ⟨1,(s.file f).type⟩},⟨.pipe2 f0 f,o⟩)
      else none
  | .pipe2 f0 f1 =>
    if ok then
      let file := update s.file f0 ⟨(s.file f0).ref,.pipe ⟨s.pipes,false⟩⟩
      some ({s with
        file := update file f1 ⟨(file f1).ref,.pipe ⟨s.pipes,true⟩⟩
        pipe := update s.pipe s.pipes newPipe
        pipes := s.pipes+1},⟨.pipeFd f0 f1,o⟩)
    else some (s,⟨.drop f0 (.also f1),o⟩)
  | .pipeFd f0 f1 =>
    match freeFd o with
    | none => some (s,⟨.drop f0 (.also f1),o⟩)
    | some fd0 =>
      match freeFd (setFd o fd0 (some f0)) with
      | none => some (s,⟨.drop f0 (.also f1),setFd (setFd o fd0 (some f0)) fd0 none⟩)
      | some fd1 => some (s,⟨.idle,setFd (setFd o fd0 (some f0)) fd1 (some f1)⟩)
  | .drop f k =>
    if (s.file f).ref < 1 then none
    else if 1 < (s.file f).ref then
      some ({s with file := update s.file f ⟨(s.file f).ref-1,(s.file f).type⟩},k.back o)
    else some ({s with file := update s.file f ⟨0,.none⟩},⟨.tail (s.file f).type k,o⟩)
  | .tail (.pipe e) k =>
    let p := (s.pipe e.pipe).close e.writable
    some ({s with pipe := update s.pipe e.pipe p},
      if p.opened false = false ∧ p.opened true = false then ⟨.kfree e.pipe k,o⟩ else k.back o)
  | .tail _ k => some (s,k.back o)
  | .kfree p k =>
    some ({s with pipe := update s.pipe p {s.pipe p with frees := (s.pipe p).frees+1}},k.back o)
  | .exitAt fd =>
    if fd < nofile then
      match o fd with
      | some f => some (s,⟨.drop f (.exit fd),o⟩)
      | none => some (s,⟨.exitAt (fd+1),o⟩)
    else some (s,⟨.zombie,o⟩)
  | _ => none

/-- What a process in user mode may call. -/
inductive Call (P : Type)
  | openFile
  | pipe
  | dup (fd : ℕ)
  | close (fd : ℕ)
  | fork (q : P)
  | exit

/-- Who acts: a process calls, goes on, or is reaped by `wait` or `join`. `fork` stands for `clone`
and `exit` for `thread_exit` too, which do the same to descriptors. -/
inductive Label (P F : Type)
  | call (t : P) (c : Call P)
  | run (t : P) (f : Option F) (ok : Bool)
  | reap (q : P)

def State.set (s : State P F) (t : P) (x : Proc P F) : State P F := {s with proc := update s.proc t x}

/-- `sys_dup` -/
def dup (s : State P F) (t : P) (o : ℕ → Option F) (fd : ℕ) : Option (State P F) :=
  if fd < nofile then
    match o fd, freeFd o with
    | some f,some fd' =>
      if (s.file f).ref < 1 then none
      else some ({s with file := update s.file f ⟨(s.file f).ref+1,(s.file f).type⟩}.set t
        ⟨.idle,setFd o fd' (some f)⟩)
    | _,_ => some s
  else some s

/-- `sys_close`, up to `fileclose` -/
def close (s : State P F) (t : P) (o : ℕ → Option F) (fd : ℕ) : State P F :=
  if fd < nofile then
    match o fd with
    | some f => s.set t ⟨.drop f .ret,setFd o fd none⟩
    | none => s
  else s

/-- The loop of `fork` over the descriptors, at `i`, for the child `q`. -/
def copyFd (s : State P F) (t q : P) (i : ℕ) (o : ℕ → Option F) : Option (State P F) :=
  if i < nofile then
    match o i with
    | some f =>
      if (s.file f).ref < 1 then none
      else some (({s with file := update s.file f ⟨(s.file f).ref+1,(s.file f).type⟩}.set q
        ⟨(s.proc q).pc,setFd (s.proc q).ofile i (some f)⟩).set t ⟨.copy q (i+1),o⟩)
    | none => some (s.set t ⟨.copy q (i+1),o⟩)
  else some ((s.set q ⟨.idle,(s.proc q).ofile⟩).set t ⟨.idle,o⟩)

def State.step (s : State P F) : Label P F → Option (State P F)
  | .call t c =>
    match (s.proc t).pc with
    | .idle =>
      let o := (s.proc t).ofile
      match c with
      | .openFile => some (s.set t ⟨.openAlloc,o⟩)
      | .pipe => some (s.set t ⟨.pipe0,o⟩)
      | .dup fd => dup s t o fd
      | .close fd => some (close s t o fd)
      | .fork q =>
        match (s.proc q).pc with
        | .unused => some ((s.set q ⟨.embryo,(s.proc q).ofile⟩).set t ⟨.made q,o⟩)
        | _ => none
      | .exit => some (s.set t ⟨.exitAt 0,o⟩)
    | _ => none
  | .run t f ok =>
    match (s.proc t).pc with
    | .made q =>
      if ok then some (s.set t ⟨.copy q 0,(s.proc t).ofile⟩)
      else some ((s.set q ⟨.unused,(s.proc q).ofile⟩).set t ⟨.idle,(s.proc t).ofile⟩)
    | .copy q i => copyFd s t q i (s.proc t).ofile
    | pc => (act s (s.proc t).ofile f ok pc).map (fun r => r.1.set t r.2)
  | .reap q =>
    match (s.proc q).pc with
    | .zombie => some (s.set q ⟨.unused,(s.proc q).ofile⟩)
    | _ => none

/-- The first process, before it opens anything. -/
structure Boot (s : State P F) : Prop where
  quiet : ∀ t, (s.proc t).pc = .unused ∨ (s.proc t).pc = .idle
  closed : ∀ t fd, (s.proc t).ofile fd = none
  file : ∀ f, s.file f = ⟨0,.none⟩
  pipes : s.pipes = 0
  pipe : ∀ p, s.pipe p = newPipe

variable (P F) in
def files : System (State P F) (Label P F) where
  init := Boot
  step := State.step

end Xv6Threads.Files
