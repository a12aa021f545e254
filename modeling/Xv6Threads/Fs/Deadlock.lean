import Xv6Threads.Fs.Interleaving

/-! Who waits for whose sleep-lock. -/
namespace Xv6Threads.Fs
open Prog

variable {P : Type}

/-- The inode whose sleep-lock process `p` is about to acquire. -/
def Sys.acquiring (s : Sys P) (p : P) : Option ℕ :=
  match s.work p with
  | some (_,.call (.acquiresleep i) _) => some i
  | _ => none

/-- Process `p` is in `acquiresleep` for a lock that `q` has. -/
def Sys.waitsFor (s : Sys P) (p q : P) : Prop := ∃ i, s.acquiring p = some i ∧ s.fs.lock i = some q

variable [DecidableEq P] {s : Sys P} {p q r : P}

lemma acquiring_may (hT : Tame True s) {i : ℕ} (h : s.acquiring p = some i) :
    s.fs.lock i ≠ some p ∧ (¬s.changing p → ∀ j, s.fs.lock j ≠ some p) := by
  unfold Sys.acquiring at h
  split at h
  · next c j k hw =>
    cases h
    obtain ⟨hmay,-,-⟩ := wp_next (hT.busy p c _ hw)
    obtain ⟨h1,h2⟩ := hmay trivial
    exact ⟨h1,fun hc => h2 (by simpa using fun hb => hc ⟨c,_,hw,hb⟩)⟩
  · cases h

lemma changing_of_waits (hT : Tame True s) (h : s.waitsFor p q) (h' : s.waitsFor q r) : s.changing q := by
  obtain ⟨i,-,hi⟩ := h
  obtain ⟨j,hj,-⟩ := h'
  by_contra hc
  exact (acquiring_may hT hj).2 hc i hi

/-- When calls that change names do not overlap and `link` is not given a name that ends in `.` or
`..`, no processes wait for each other in a circle; none waits for itself. -/
theorem no_lock_cycle (h : (interleaved P).ReachWhile serial s) (p : P) : ¬Relation.TransGen s.waitsFor p p := by
  intro hcycle
  have hT : Tame True s := reach_tame (fun _ _ _ h => h) h
  -- Both ends of the first wait of a circle are in such a call, so they are one process.
  obtain ⟨q,hpq,hqp⟩ := Relation.TransGen.head'_iff.mp hcycle
  obtain ⟨r,-,hrp⟩ := Relation.TransGen.tail'_iff.mp hcycle
  have hp := changing_of_waits hT hrp hpq
  have hpp : s.waitsFor p p := by
    rcases Relation.ReflTransGen.cases_head hqp with rfl | ⟨u,hqu,-⟩
    · exact hpq
    · have hq := changing_of_waits hT hpq hqu
      rwa [hT.one trivial q p hq hp] at hpq
  obtain ⟨i,hi,hl⟩ := hpp
  exact (acquiring_may hT hi).1 hl

open scoped FixedRuns

/-- Another process looks up a name while the first one is making a directory. -/
def openDuringMkdir : List (SysLabel (Fin 2)) :=
  System.schedule
    [(.fork 0 1,1),(.start 0 (.mkdir [100]),1),(.next 0,10),(.start 1 (.openFile [120] true),1),(.next 1,3)]

def serialTest (s : Sys (Fin 2)) : SysLabel (Fin 2) → Bool
  | .start _ (.mkdir _) => (s.work 0).isNone ∧ (s.work 1).isNone
  | .start _ (.openFile _ _) => true
  | .start _ _ => false
  | _ => true

lemma serial_of_test (s : Sys (Fin 2)) (l : SysLabel (Fin 2)) (h : serialTest s l = true) : serial s l := by
  cases l with
  | start p c =>
    cases c with
    | mkdir path =>
      refine ⟨trivial,fun _ q ⟨c,x,hx,_⟩ => ?_⟩
      obtain ⟨h0,h1⟩ := of_decide_eq_true h
      match q with
      | 0 => rw [hx] at h0; cases h0
      | 1 => rw [hx] at h1; cases h1
    | openFile path rdonly => exact ⟨trivial,nofun⟩
    | _ => cases h
  | _ => trivial

/-- A process waits, but not in a circle. -/
theorem no_lock_cycle_open_during_mkdir : ∃ s : Sys (Fin 2), (interleaved (Fin 2)).ReachWhile serial s ∧
    s.waitsFor 1 0 ∧ ¬Relation.TransGen s.waitsFor 1 1 := by
  obtain ⟨s,hs,hp⟩ := System.reachWhile_of_exec (M := interleaved (Fin 2)) serialTest serial_of_test openDuringMkdir
    (fun s => s.acquiring 1 = some 1 ∧ s.fs.lock 1 = some 0) (boot_init 0) (by decide +kernel)
  exact ⟨s,hs,⟨1,hp⟩,no_lock_cycle hs 1⟩

/-- `mkdir("d"); link("f", "d/.")` -/
def linkDot : List (SysLabel (Fin 2)) :=
  System.schedule [(.start 0 (.mkdir [100]),1),(.next 0,42),(.start 0 (.link [102] [100,47,46]),1),(.next 0,47)]

/-- `open("x", O_CREATE)` is past its `iunlock(dp)` when another process calls `unlink("x")`. -/
def createUnlink : List (SysLabel (Fin 2)) :=
  System.schedule
    [(.fork 0 1,1),(.start 0 (.create [120]),1),(.next 0,23),(.start 1 (.unlink [120]),1),(.next 1,14)]

/-- `dirlink` finds `.` and waits in `iput` for the directory that its caller has locked; `create` and
`unlink` of one name wait for each other. -/
theorem link_dot_waits_for_itself : (∃ s : Sys (Fin 2), (interleaved (Fin 2)).Reachable s ∧ s.waitsFor 0 0) ∧
    ∃ s : Sys (Fin 2), (interleaved (Fin 2)).Reachable s ∧ s.waitsFor 0 1 ∧ s.waitsFor 1 0 := by
  constructor
  · obtain ⟨s,hs,hp⟩ := System.reachable_of_exec (M := interleaved (Fin 2)) linkDot
      (fun s => s.acquiring 0 = some 3 ∧ s.fs.lock 3 = some 0) (boot_init 0) (by decide +kernel)
    exact ⟨s,hs,3,hp⟩
  · obtain ⟨s,hs,h0,h1⟩ := System.reachable_of_exec (M := interleaved (Fin 2)) createUnlink
      (fun s => (s.acquiring 0 = some 1 ∧ s.fs.lock 1 = some 1) ∧ s.acquiring 1 = some 3 ∧ s.fs.lock 3 = some 0)
      (boot_init 0) (by decide +kernel)
    exact ⟨s,hs,⟨1,h0⟩,3,h1⟩

end Xv6Threads.Fs
