import Xv6Threads.Ptable.Machine

/-! Every step of the process table, with what it found, and what follows for who is alive and
which entries are under construction. -/
namespace Xv6Threads.Ptable
open State Function

namespace State

/-- `wait` has reaped `z`. -/
def reap (s : State) (p z : Slot) (d : PgDir) : State :=
  let s' := (s.freevm d (some z)).put z (waitClear (s.table z))
  {s' with hist := .reaped z (s.table z).pid :: s'.hist}.goto p .user

/-- `join` has reaped `z`. -/
def joinReap (s : State) (p z : Slot) : State :=
  let s' := s.put z (joinClear (s.table z))
  {s' with hist := .reaped z (s.table z).pid :: s'.hist}.goto p .user

end State

/-- The steps of a running process `p`. -/
inductive Acts (s : State) (p : Slot) : Act → State → Prop
  | noSlot (a) (ha : a = .fork ∨ a = .clone) : Acts s p a s
  | fork (c) (hu : s.ctl p = .user) (hc : (s.table c).state = .unused) (hf : s.freeSlot = some c) :
      Acts s p .fork ((s.allocproc c).goto p (.forking c))
  | clone (c) (hu : s.ctl p = .user) (hc : (s.table c).state = .unused) (hf : s.freeSlot = some c) :
      Acts s p .clone ((s.allocproc c).goto p (.cloning c))
  | forkFail (c) (hc : s.ctl p = .forking c) : Acts s p .forkFail ((s.giveUp c).goto p .user)
  | cloneFail (c) (hc : s.ctl p = .cloning c) : Acts s p .cloneFail ((s.giveUp c).goto p .user)
  | copy (c d) (hc : s.ctl p = .forking c) (hd : s.alloc d = false) : Acts s p (.copy d)
      ({s with alloc := Function.update s.alloc d true}.goto p (.copying c d))
  | copyNone (c) (hc : s.ctl p = .forking c) : Acts s p .copyFail ((s.giveUpCopy c).goto p .user)
  | copyFail (c d) (hc : s.ctl p = .copying c d) :
      Acts s p .copyFail (((s.freevm d none).giveUpCopy c).goto p .user)
  | forkFill (c d) (hc : s.ctl p = .copying c d) :
      Acts s p .forkFill ((s.put c (forkEntry s.table p d (s.table c))).goto p (.starting c))
  | cloneFill (c) (hc : s.ctl p = .cloning c) :
      Acts s p .cloneFill ((s.put c (cloneEntry s.table p (s.table c))).goto p (.starting c))
  | start (c) (hc : s.ctl p = .starting c) :
      Acts s p .start ((s.put c {s.table c with state := .runnable}).goto p .user)
  | execBuild (d) (hu : s.ctl p = .user) (hd : s.alloc d = false) : Acts s p (.execBuild d)
      ({s with alloc := Function.update s.alloc d true}.goto p (.building d))
  | execBad (d) (hc : s.ctl p = .building d) : Acts s p .execBad ((s.freevm d none).goto p .user)
  | execCommit (d old) (hc : s.ctl p = .building d) (ho : (s.table p).pgdir = some old) :
      Acts s p .execCommit ((s.put p {s.table p with pgdir := some d}).goto p (.freeing old))
  | execFree (d) (hc : s.ctl p = .freeing d) : Acts s p .execFree ((s.freevm d none).goto p .user)
  | exit (a) (hu : s.ctl p = .user) (hp : p ≠ initproc) (ha : a = .exit ∨ a = .threadExit) :
      Acts s p a (s.die p (exit p s.table))
  | threadExit (hu : s.ctl p = .user) (ht : (s.table p).isthread = true) :
      Acts s p .threadExit (s.die p (threadExit p s.table))
  | reap (z d) (hu : s.ctl p = .user ∨ s.ctl p = .waiting) (hp : (s.table z).parent = some p)
      (hz : (s.table z).state = .zombie) (hd : (s.table z).pgdir = some d)
      (hf : s.zombieChild p = some z) : Acts s p .wait (s.reap p z d)
  | waitFail (hu : s.ctl p = .user ∨ s.ctl p = .waiting) : Acts s p .wait (s.goto p .user)
  | waitSleep (hu : s.ctl p = .user ∨ s.ctl p = .waiting)
      (hn : ∀ z, (s.table z).parent = some p → (s.table z).state ≠ .zombie)
      (hk : (s.table p).killed = false) :
      Acts s p .wait ((s.sleepOn p (.proc p)).goto p .waiting)
  | joinReap (w z) (hu : s.ctl p = .user ∨ s.ctl p = .joining w) (hj : joinable s.table p w z = true)
      (hz : (s.table z).state = .zombie) : Acts s p (.join w) (s.joinReap p z)
  | joinFail (w) (hu : s.ctl p = .user ∨ s.ctl p = .joining w) : Acts s p (.join w) (s.goto p .user)
  | joinSleep (w) (hu : s.ctl p = .user ∨ s.ctl p = .joining w)
      (hn : ∀ z, joinable s.table p w z = true → (s.table z).state ≠ .zombie)
      (hk : (s.table p).killed = false) :
      Acts s p (.join w) ((s.sleepOn p (.proc p)).goto p (.joining w))
  | yield : Acts s p .yield (s.put p {s.table p with state := .runnable})
  | fault (hu : s.ctl p = .user) : Acts s p .fault (s.put p {s.table p with killed := true})
  | block (c) (hb : (s.ctl p).mayBlock = true) : Acts s p (.block c) (s.sleepOn p (.other c))

/-- Every step. -/
inductive Steps (s : State) : Label → State → Prop
  | act {p a s'} (hr : (s.table p).state = .running) (h : Acts s p a s') : Steps s (.act p a) s'
  | sched {p} (hr : (s.table p).state = .runnable) :
      Steps s (.sched p) (s.put p {s.table p with state := .running, chan := none})
  | killNone {pid} : Steps s (.kill pid) s
  | kill {pid q} : Steps s (.kill pid) (s.put q (killEntry (s.table q)))
  | wakeup {c} : Steps s (.wakeup c) {s with table := wakeup1 s.table (some (.other c))}

section
variable {s s' : State} {p : Slot}

lemma freeSlot_unused {c : Slot} (h : s.freeSlot = some c) : (s.table c).state = .unused := by
  simpa using firstSlot_some h

lemma waitScan_cases (hu : s.ctl p = .user ∨ s.ctl p = .waiting) (h : s.waitScan p = some s') : Acts s p .wait s' := by
  unfold waitScan at h
  split at h
  · next z hz =>
    have hz' : (s.table z).parent = some p ∧ (s.table z).state = .zombie := by simpa using firstSlot_some hz
    split at h
    · cases h
    · next d hd => cases h; exact .reap z d hu hz'.1 hz'.2 hd hz
  · next hn =>
    split_ifs at h with hk <;> cases h
    · exact .waitFail hu
    · refine .waitSleep hu (fun z hp hz => ?_) (by simpa using fun hk' => hk (.inr hk'))
      have := firstSlot_none hn z
      simp [hp,hz] at this

lemma joinScan_cases {w : Int32} (hu : s.ctl p = .user ∨ s.ctl p = .joining w)
    (h : s.joinScan p w = some s') : Acts s p (.join w) s' := by
  unfold joinScan at h
  split at h
  · next z hz =>
    have hz' : joinable s.table p w z = true ∧ (s.table z).state = .zombie := by simpa using firstSlot_some hz
    cases h
    exact .joinReap w z hu hz'.1 hz'.2
  · next hn =>
    split_ifs at h with hk <;> cases h
    · exact .joinFail w hu
    · refine .joinSleep w hu (fun z hj hz => ?_) (by simpa using fun hk' => hk (.inr hk'))
      have := firstSlot_none hn z
      simp [hj,hz] at this

lemma act_cases {a : Act} (h : s.act p a = some s') : Acts s p a s' := by
  cases a with
  | fork | clone =>
    simp only [act] at h
    split_ifs at h with hu
    split at h
    · cases h; exact .noSlot _ (by simp)
    · next c hc =>
      cases h
      constructor
      · exact hu
      · exact freeSlot_unused hc
      · exact hc
  | copy d =>
    simp only [act] at h
    split at h
    · next c hc =>
      split_ifs at h with hd
      cases h
      exact .copy c d hc hd
    · cases h
  | copyFail =>
    simp only [act] at h
    split at h
    · next c hc => cases h; exact .copyNone c hc
    · next c d hc => cases h; exact .copyFail c d hc
    · cases h
  | execBuild d =>
    simp only [act] at h
    split_ifs at h with hu
    cases h
    exact .execBuild d hu.1 hu.2
  | execCommit =>
    simp only [act] at h
    split at h
    · next d old hc ho => cases h; exact .execCommit d old hc ho
    · cases h
  | exit =>
    simp only [act] at h
    split_ifs at h with hu
    cases h
    exact .exit _ hu.1 hu.2 (.inl rfl)
  | threadExit =>
    simp only [act] at h
    split_ifs at h with hu ht hp <;> cases h
    · exact .threadExit hu ht
    · exact .exit _ hu hp (.inr rfl)
  | wait =>
    simp only [act] at h
    split_ifs at h with hu
    exact waitScan_cases hu h
  | join w =>
    simp only [act] at h
    split_ifs at h with hu
    exact joinScan_cases hu h
  | yield => cases h; exact .yield
  | fault =>
    simp only [act] at h
    split_ifs at h with hu
    cases h
    exact .fault hu
  | block c =>
    simp only [act] at h
    split_ifs at h with hb
    cases h
    exact .block c hb
  | _ =>
    simp only [act] at h
    split at h
    · cases h; constructor; assumption
    · cases h

lemma step_cases {l : Label} (h : s.step l = some s') : Steps s l s' := by
  cases l with
  | act p a =>
    simp only [step] at h
    split_ifs at h with hr
    exact .act hr (act_cases h)
  | sched p =>
    simp only [step] at h
    split_ifs at h with hr
    cases h
    exact .sched hr
  | kill pid =>
    simp only [step] at h
    split at h
    · cases h; exact .killNone
    · cases h; exact .kill
  | wakeup c => cases h; exact .wakeup

end

end Xv6Threads.Ptable
