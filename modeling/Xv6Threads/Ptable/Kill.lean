import Xv6Threads.Ptable.Base

/-! `kill` takes the first entry with the pid it is given, whatever the state of that entry. As long as it
is not given the pid of an entry that is free or still being set up, it does what it is for, and every process
starts with its flag clear. -/
namespace Xv6Threads.Ptable
open Function

/-- What `kill(pid)` returns, and the table after it. -/
def State.kill (s : State) (pid : Int32) : ℤ × State :=
  match firstSlot (fun q => (s.table q).pid = pid) with
  | none => (-1,s)
  | some q => (0,s.put q (killEntry (s.table q)))

lemma step_kill (s : State) (pid : Int32) : s.step (.kill pid) = some (s.kill pid).2 := by
  have hstep : s.step (.kill pid) = match firstSlot (fun q => (s.table q).pid = pid) with
      | none => some s
      | some q => some (s.put q (killEntry (s.table q))) := rfl
  rw [hstep]
  unfold State.kill
  cases firstSlot (fun q => (s.table q).pid = pid) <;> rfl

/-- `kill` is given the pid of no entry that is free or being set up. -/
def killsLive (s : State) : Label → Prop
  | .kill pid => ∀ q, (s.table q).pid = pid → (s.table q).state ≠ .unused ∧ (s.table q).state ≠ .embryo
  | _ => True

/-- An entry that has not been started is not marked as killed. -/
def Fresh (e : Proc) : Prop := e.state = .unused ∨ e.state = .embryo → e.killed = false

variable {e : Proc}

lemma fresh_put {t : Table} {c : Slot} (ht : ∀ q, Fresh (t q)) (he : Fresh e) (q : Slot) : Fresh (update t c e q) := by
  by_cases hq : q = c
  · rw [hq,update_self]
    exact he
  · rw [update_of_ne hq]
    exact ht q

lemma fresh_alive (h : e.state.alive = true) : Fresh e := by
  rintro (he | he) <;> rw [he] at h <;> cases h

lemma fresh_woken {t t' : Table} {p : Slot} (ht : ∀ q, Fresh (t q)) (hw : ∀ q, Woken p (t q) (t' q)) (q : Slot) :
    Fresh (t' q) := by
  intro hs
  rw [(hw q).killed]
  refine ht q ?_
  rcases (hw q).state with h | ⟨-,h⟩
  · rw [← h]
    exact hs
  · rw [h] at hs
    rcases hs with hs | hs <;> cases hs

lemma fresh_zombie : Fresh {e with state := .zombie} := by
  rintro (h | h) <;> cases h

lemma fresh_act {s s' : State} {p : Slot} {a : Act} (hB : Base s) (hF : ∀ q, Fresh (s.table q))
    (hr : (s.table p).state = .running) (h : Acts s p a s') (q : Slot) : Fresh (s'.table q) := by
  have halive : (s.table p).state.alive = true := by rw [hr]; rfl
  have hchild : ∀ c, (s.ctl p).child = some c → (s.table c).killed = false :=
    fun c hc => hF c (.inr (hB.child p c hc).1)
  cases h with
  | noSlot | copy | execBuild | execBad | execFree | waitFail | joinFail => exact hF q
  | fork c _ hc | clone c _ hc =>
    refine fresh_put hF (fun _ => ?_) q
    exact hF c (.inl hc)
  | forkFail c hc | cloneFail c hc | copyNone c hc | copyFail c _ hc | forkFill c _ hc | cloneFill c hc =>
    refine fresh_put hF (fun _ => ?_) q
    exact hchild c (by rw [hc]; rfl)
  | start | waitSleep | joinSleep | yield | block =>
    refine fresh_put hF (fresh_alive ?_) q
    rfl
  | execCommit | fault =>
    refine fresh_put hF (fresh_alive ?_) q
    exact halive
  | exit _ hu hp =>
    exact fresh_put (fresh_woken hF fun q => (wakeup1_woken _ _ p q).trans (reparents_woken p _ _ q)) fresh_zombie q
  | threadExit => exact fresh_put (fresh_woken hF fun q => wakeup1_woken _ _ p q) fresh_zombie q
  | reap | joinReap =>
    refine fresh_put hF (fun _ => ?_) q
    rfl

lemma fresh_step {s s' : State} {l : Label} (hB : Base s) (hF : ∀ q, Fresh (s.table q)) (hok : killsLive s l)
    (h : s.step l = some s') (q : Slot) : Fresh (s'.table q) := by
  cases l with
  | kill pid =>
    rw [step_kill] at h
    cases h
    unfold State.kill
    split
    · exact hF q
    · next r hr =>
      obtain ⟨hu,he⟩ := hok r (of_decide_eq_true (firstSlot_some hr))
      have hsim := similar_kill (s.table r)
      exact fresh_put hF (fun hs => (hs.elim (fun h => hu (hsim.unused.mp h)) fun h => he (hsim.embryo.mp h)).elim) q
  | act p a =>
    cases step_cases h with
    | act hr ha => exact fresh_act hB hF hr ha q
  | sched p =>
    cases step_cases h with
    | sched hr =>
      refine fresh_put hF (fresh_alive ?_) q
      rfl
  | wakeup c =>
    cases step_cases h with
    | wakeup => exact fresh_woken hF (fun q => wakeup1_woken _ _ initproc q) q

lemma fresh_initial (q : Slot) : Fresh (initial.table q) := by
  intro _
  by_cases hq : q = initproc <;> simp [initial,hq]

lemma reach_fresh {s : State} (h : machine.ReachWhile killsLive s) (q : Slot) : Fresh (s.table q) :=
  System.ReachWhile.invariant_on (J := Base) (I := fun s => ∀ q, Fresh (s.table q)) (fun _ => reach_base)
    (fun s (hs : s = initial) => hs ▸ fresh_initial) (fun _ _ _ hB hF hok hs => fresh_step hB hF hok hs) h q

/-- `kill` returns 0 for the pids of the entries in use and changes only one of them; it returns -1 for
other pids and changes nothing. A slot that `fork` or `clone` takes has not been killed. -/
theorem kill_affects_named {s : State} (h : machine.ReachWhile killsLive s) : (∀ pid, killsLive s (.kill pid) →
      ((s.kill pid).1 = 0 ↔ ∃ q, (s.table q).state ≠ .unused ∧ (s.table q).pid = pid) ∧
      ((s.kill pid).1 = 0 → ∃ q, (s.table q).state ≠ .unused ∧ (s.table q).pid = pid ∧
        (s.kill pid).2 = s.put q (killEntry (s.table q))) ∧
      ((s.kill pid).1 ≠ 0 → (s.kill pid).1 = -1 ∧ (s.kill pid).2 = s)) ∧
    ∀ c, s.freeSlot = some c → ((s.allocproc c).table c).killed = false := by
  refine ⟨fun pid hok => ?_,fun c hc => ?_⟩
  · unfold State.kill
    cases hf : firstSlot (fun q => (s.table q).pid = pid) with
    | none =>
      refine ⟨⟨nofun,fun ⟨q,_,hq⟩ => ?_⟩,nofun,fun _ => ⟨rfl,rfl⟩⟩
      have hn := firstSlot_none hf q
      exact absurd hq (of_decide_eq_false hn)
    | some q =>
      have hq : (s.table q).pid = pid := of_decide_eq_true (firstSlot_some hf)
      exact ⟨⟨fun _ => ⟨q,(hok q hq).1,hq⟩,fun _ => rfl⟩,fun _ => ⟨q,(hok q hq).1,hq,rfl⟩,fun h => absurd rfl h⟩
  · change (update s.table c _ c).killed = false
    rw [update_self]
    exact reach_fresh h c (.inl (freeSlot_unused hc))

/-- A child of the first process is killed while it runs. -/
theorem kill_child_affects_child : ∃ s, machine.ReachWhile killsLive s ∧ (s.table 1).state = .running ∧ (s.kill 2).1 = 0 ∧
    ∃ q, (s.table q).pid = 2 ∧ (s.kill 2).2 = s.put q (killEntry (s.table q)) := by
  have hchild : ∃ s, machine.ReachWhile killsLive s ∧ (s.table 1).state = .running ∧ (s.table 1).pid = 2 ∧
      ∀ q, (s.table q).pid = 2 → (s.table q).state ≠ .unused ∧ (s.table q).state ≠ .embryo :=
    System.reachWhile_of_exec (fun _ l => !l matches .kill _) (fun _ l h => by cases l <;> trivial)
      [.sched 0,.act 0 .fork,.act 0 (.copy 1),.act 0 .forkFill,.act 0 .start,.sched 1] _ rfl (by decide +kernel)
  obtain ⟨s,hs,hrun,hpid,hlive⟩ := hchild
  obtain ⟨hiff,hput,-⟩ := (kill_affects_named hs).1 2 hlive
  have h0 : (s.kill 2).1 = 0 := hiff.mpr ⟨1,by rw [hrun]; nofun,hpid⟩
  obtain ⟨q,-,hq,he⟩ := hput h0
  exact ⟨s,hs,hrun,h0,q,hq,he⟩

/-- `kill(0)` finds a free entry and returns 0; the process that gets the entry next is born killed. -/
theorem kill_zero_marks_free_entry :
    (initial.kill 0).1 = 0 ∧ (∀ q, (initial.table q).state ≠ .unused → (initial.table q).pid ≠ 0) ∧
    ∃ s c, machine.Reachable s ∧ s.ctl initproc = .starting c ∧ (s.table c).state = .embryo ∧ (s.table c).killed = true := by
  refine ⟨by decide +kernel,fun q hq => ?_,?_⟩
  · by_cases hi : q = initproc
    · rw [hi]
      decide
    · simp [initial,hi] at hq
  · have hrun : ∃ s, machine.Reachable s ∧ s.ctl initproc = .starting 1 ∧ (s.table 1).state = .embryo ∧
        (s.table 1).killed = true :=
      System.reachable_of_exec [.kill 0,.sched 0,.act 0 .fork,.act 0 (.copy 1),.act 0 .forkFill] _ (s := initial) rfl
        (by decide +kernel)
    obtain ⟨s,hs,hp⟩ := hrun
    exact ⟨s,1,hs,hp⟩

end Xv6Threads.Ptable
