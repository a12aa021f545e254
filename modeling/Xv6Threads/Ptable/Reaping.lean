import Xv6Threads.Ptable.Kinship

/-! Agreement of `exit` and `thread_exit` with `wait` and `join`: nobody sleeps in a call that has
something to reap or has been killed, and every reaped entry has died exactly once before. -/
namespace Xv6Threads.Ptable
open Function Option List Ptable State

/-- Entry `z` is one that the call in which `p` is would reap if it were a zombie. -/
def watches (t : Table) (p : Slot) : Ctl → Slot → Bool
  | .waiting,z => (t z).parent == some p
  | .joining w,z => joinable t p w z
  | _,_ => false

def Ctl.watching : Ctl → Bool
  | .waiting | .joining _ => true
  | _ => false

lemma watches_parent {t : Table} {p z : Slot} {c : Ctl} (h : watches t p c z = true) : (t z).parent = some p := by
  cases c <;> simp_all [watches,joinable]

lemma watches_congr {t t' : Table} {p z : Slot} {c : Ctl} (h1 : (t' z).parent = (t z).parent)
    (h2 : (t' z).isthread = (t z).isthread) (h3 : (t' z).pid = (t z).pid) : watches t' p c z = watches t p c z := by
  cases c <;> simp only [watches,joinable,h1,h2,h3]

/-- `p` may sleep on: it has not been killed, and there is nothing to reap. -/
structure Rests (t : Table) (p : Slot) (c : Ctl) : Prop where
  chan : (t p).chan = some (.proc p)
  killed : (t p).killed = false
  nothing : ∀ z, watches t p c z = true → (t z).state ≠ .zombie

def SleepAt (s : State) : Prop :=
  ∀ p, (s.table p).state = .sleeping → (s.ctl p).watching = true → Rests s.table p (s.ctl p)

section
variable {s s' : State}

lemma sleep_put {c : Slot} {e : Proc} (hS : SleepAt s) (ht : s'.table = update s.table c e)
    (hctl : ∀ q, q ≠ c → (s.table q).state = .sleeping → s'.ctl q = s.ctl q)
    (hz : e.state = .zombie → (s.table c).state = .zombie ∧ e.parent = (s.table c).parent ∧
      e.isthread = (s.table c).isthread ∧ e.pid = (s.table c).pid)
    (hs : e.state = .sleeping → (s'.ctl c).watching = true → Rests s'.table c (s'.ctl c)) : SleepAt s' := by
  intro q hq hw
  by_cases hqc : q = c
  · subst hqc
    exact hs (by rw [ht,update_self] at hq; exact hq) hw
  · have hqt : s'.table q = s.table q := by rw [ht,update_of_ne hqc]
    rw [hqt] at hq
    rw [hctl q hqc hq] at hw ⊢
    obtain ⟨h1,h2,h3⟩ := hS q hq hw
    refine ⟨by rw [hqt]; exact h1,by rw [hqt]; exact h2,fun z hz' hzs => ?_⟩
    by_cases hzc : z = c
    · subst hzc
      have hte : s'.table z = e := by rw [ht,update_self]
      rw [hte] at hzs
      obtain ⟨k1,k2,k3,k4⟩ := hz hzs
      rw [watches_congr (t := s.table) (by rw [hte,k2]) (by rw [hte,k3]) (by rw [hte,k4])] at hz'
      exact h3 z hz' k1
    · have hzt : s'.table z = s.table z := by rw [ht,update_of_ne hzc]
      rw [watches_congr (t := s.table) (by rw [hzt]) (by rw [hzt]) (by rw [hzt])] at hz'
      rw [hzt] at hzs
      exact h3 z hz' hzs

variable {p : Slot}

section
variable (hS : SleepAt s)
include hS

lemma sleep_goto (ht : s'.table = s.table)
    (hr : (s.table p).state = .running) (hctl : ∀ q, q ≠ p → s'.ctl q = s.ctl q) : SleepAt s' := by
  intro q hq hw
  rw [ht] at hq ⊢
  have hqp : q ≠ p := by rintro rfl; rw [hr] at hq; cases hq
  rw [hctl q hqp] at hw ⊢
  exact hS q hq hw

lemma sleep_die {t : Table} (hK : Kin s.table) (hw : ∀ q, Woken p (s.table q) (t q))
    (hpar : ∀ q, (t q).state = .sleeping → (s.table p).parent = some q → (s.table q).chan ≠ some (.proc q))
    (hinit : ∀ z, (s.table z).parent = some p → (s.table z).state = .zombie →
      (t z).parent = some initproc → (t initproc).state = .sleeping → (s.table initproc).chan ≠ some (.proc initproc)) :
    SleepAt (s.die p (update t p {t p with state := .zombie})) := by
  intro q hq hwq
  have hqp : q ≠ p := by rintro rfl; simp [die] at hq
  have htq : (s.die p (update t p {t p with state := .zombie})).table q = t q := by simp [die,hqp]
  rw [htq] at hq
  have hq' : (s.table q).state = .sleeping := (hw q).sleeping hq
  obtain ⟨h1,h2,h3⟩ := hS q hq' hwq
  refine ⟨by rw [htq,(hw q).chan]; exact h1,by rw [htq,(hw q).killed]; exact h2,fun z hz hzs => ?_⟩
  have hzp : (t z).parent = some q := by
    have := watches_parent hz
    by_cases hzp : z = p
    · subst hzp; simpa [die] using this
    · simpa [die,hzp] using this
  rcases (hw z).parent with hp | ⟨hp,hp'⟩
  · by_cases hzp' : z = p
    · subst hzp'
      exact hpar q hq (by rw [← hp]; exact hzp) h1
    · have htz : (s.die p (update t p {t p with state := .zombie})).table z = t z := by simp [die,hzp']
      rw [watches_congr (t := s.table) (by rw [htz,hp]) (by rw [htz,(hw z).isthread])
        (by rw [htz,(hw z).pid])] at hz
      rw [htz] at hzs
      exact h3 z hz ((hw z).zombie.mp hzs)
  · -- A child that has been passed on: `q` is init.
    have hzne : z ≠ p := by rintro rfl; exact hK.noself z hp
    have hqi : q = initproc := some.inj (hzp.symm.trans hp')
    subst hqi
    have hzs' : (t z).state = .zombie := by simpa [die,hzne] using hzs
    exact hinit z hp ((hw z).zombie.mp hzs') hp' hq h1

lemma sleep_work {p c : Slot} {e : Proc} {c' : Ctl}
    (ht : s'.table = update s.table c e) (hctl : s'.ctl = update s.ctl p c')
    (hr : (s.table p).state = .running) (hz : e.state ≠ .zombie) (hs : e.state ≠ .sleeping) : SleepAt s' := by
  refine sleep_put hS ht (fun q _ hq => ?_) (fun h => (hz h).elim) (fun h => (hs h).elim)
  have hqp : q ≠ p := by rintro rfl; rw [hr] at hq; cases hq
  rw [hctl,update_of_ne hqp]

lemma sleep_sleepOn {c : Ctl} (hn : ∀ z, watches s.table p c z = true → (s.table z).state ≠ .zombie)
    (hk : (s.table p).killed = false) : SleepAt ((s.sleepOn p (.proc p)).goto p c) := by
  refine sleep_put hS rfl (fun q hq _ => update_of_ne hq _ _) nofun (fun _ _ => ?_)
  have hp : ((s.sleepOn p (.proc p)).goto p c).table p =
      {s.table p with state := .sleeping, chan := some (.proc p)} := update_self ..
  have hc : ((s.sleepOn p (.proc p)).goto p c).ctl p = c := update_self ..
  rw [hc]
  refine ⟨by rw [hp],by rw [hp]; exact hk,fun z hz hzs => ?_⟩
  by_cases hzp : z = p
  · rw [hzp,hp] at hzs; cases hzs
  · have htz : ((s.sleepOn p (.proc p)).goto p c).table z = s.table z := update_of_ne hzp _ _
    rw [watches_congr (t := s.table) (by rw [htz]) (by rw [htz]) (by rw [htz])] at hz
    rw [htz] at hzs
    exact hn z hz hzs

lemma sleep_exit (hK : Kin s.table) : SleepAt (s.die p (exit p s.table)) := by
  refine sleep_die hS hK (fun q => (wakeup1_woken _ _ p q).trans (reparents_woken p _ _ q)) ?_ ?_
  · intro q hq hp
    have := wakeup1_chan _ _ q ((reparents_woken p _ _ q).sleeping hq)
    rwa [hp] at this
  · intro z hp hz _ hi
    have hw := wakeup1_woken s.table ((s.table p).parent.map .proc) p
    rw [← (hw initproc).chan]
    refine reparents_wake (finRange nproc) _ (mem_finRange z) ?_ ?_ initproc hi
    · rw [wakeup1_parent]; exact hp
    · exact (hw z).zombie.mpr hz

lemma sleep_threadExit (hK : Kin s.table) (hp : p ≠ initproc) : SleepAt (s.die p (threadExit p s.table)) := by
  refine sleep_die hS hK (fun q => wakeup1_woken _ _ p q) ?_ ?_
  · intro q hq hp
    have := wakeup1_chan _ _ q hq
    rwa [hp] at this
  · intro z hp' _ hi _
    rw [wakeup1_parent,hp'] at hi
    exact (hp (some.inj hi)).elim

lemma sleep_wakeup {c : Option Chan} : SleepAt {s with table := wakeup1 s.table c} := by
  have hw := wakeup1_woken s.table c initproc
  intro q hq hwq
  obtain ⟨h1,h2,h3⟩ := hS q ((hw q).sleeping hq) hwq
  refine ⟨(hw q).chan.trans h1,(hw q).killed.trans h2,fun z hz hzs => ?_⟩
  rw [watches_congr (wakeup1_parent s.table c z) (hw z).isthread (hw z).pid] at hz
  exact h3 z hz ((hw z).zombie.mp hzs)

end

end

lemma sleep_step {s s' : State} {l : Label} (hB : Base s) (hK : Kin s.table) (hS : SleepAt s)
    (h : Steps s l s') : SleepAt s' := by
  cases h with
  | act hr h =>
    next p _ =>
    have hself : ∀ c, update s.ctl p (s.ctl p) c = s.ctl c := by simp
    cases h with
    | noSlot => exact hS
    | copy | execBuild | execBad | execFree | waitFail | joinFail =>
      exact sleep_goto hS rfl hr (fun q hq => update_of_ne hq _ _)
    | fork | clone | forkFail | cloneFail | copyNone | copyFail | start | reap | joinReap =>
      exact sleep_work hS rfl rfl hr (fun h => by cases h) (fun h => by cases h)
    | forkFill c d hc =>
      have he := (hB.child p c (by rw [hc]; rfl)).1
      exact sleep_work hS rfl rfl hr (by rw [forkEntry,he]; exact fun h => by cases h) (by rw [forkEntry,he]; exact fun h => by cases h)
    | cloneFill c hc =>
      have he := (hB.child p c (by rw [hc]; rfl)).1
      exact sleep_work hS rfl rfl hr (by rw [cloneEntry,he]; exact fun h => by cases h) (by rw [cloneEntry,he]; exact fun h => by cases h)
    | execCommit => exact sleep_work hS rfl rfl hr (by rw [hr]; exact fun h => by cases h) (by rw [hr]; exact fun h => by cases h)
    | exit => exact sleep_exit hS hK
    | threadExit hu ht =>
      refine sleep_threadExit hS hK ?_
      rintro rfl
      rw [hB.init.2] at ht
      cases ht
    | waitSleep hu hn hk => exact sleep_sleepOn hS (fun z hz => hn z (watches_parent hz)) hk
    | joinSleep w hu hn hk => exact sleep_sleepOn hS hn hk
    | yield => exact sleep_put hS rfl (fun _ _ _ => rfl) (fun h => by cases h) (fun h => by cases h)
    | fault => exact sleep_put hS rfl (fun _ _ _ => rfl) (by rw [hr]; exact fun h => by cases h) (by rw [hr]; exact fun h => by cases h)
    | block c hb =>
      refine sleep_put hS rfl (fun _ _ _ => rfl) (fun h => by cases h) (fun _ hw => ?_)
      cases hc : s.ctl p <;> simp_all [sleepOn,put,Ctl.watching,Ctl.mayBlock]
  | sched => exact sleep_put hS rfl (fun _ _ _ => rfl) (fun h => by cases h) (fun h => by cases h)
  | killNone => exact hS
  | kill =>
    next pid q =>
    refine sleep_put hS rfl (fun _ _ _ => rfl) (fun hz => ?_) (fun hs => ?_)
    · by_cases h : (s.table q).state = .sleeping <;> simp_all [killEntry]
    · by_cases h : (s.table q).state = .sleeping <;> simp_all [killEntry]
  | wakeup => exact sleep_wakeup hS

/-- The pid with which entry `z` has died, if it has not been reaped since. -/
def pending (z : Slot) : List Event → Option Int32
  | [] => none
  | .zombie p pid :: h => if p = z then some pid else pending z h
  | .reaped q _ :: h => if q = z then none else pending z h
  | .freevm _ _ :: h => pending z h

/-- Only what is pending is reaped. -/
def Agrees : List Event → Prop
  | [] => True
  | .reaped z pid :: h => pending z h = some pid ∧ Agrees h
  | _ :: h => Agrees h

variable {z : Slot}

lemma pending_some {pid : Int32} {h : List Event} (hp : pending z h = some pid) :
    ∃ since before, h = since ++ .zombie z pid :: before ∧ ∀ e ∈ since, e.entry ≠ some z := by
  induction h with
  | nil => cases hp
  | cons e h ih =>
    have hskip : e.entry ≠ some z → pending z h = some pid → ∃ since before,
        e :: h = since ++ .zombie z pid :: before ∧ ∀ e ∈ since, e.entry ≠ some z := by
      intro he hp
      obtain ⟨a,b,rfl,ha⟩ := ih hp
      exact ⟨e :: a,b,rfl,forall_mem_cons.mpr ⟨he,ha⟩⟩
    cases e with
    | zombie p pid' =>
      simp only [pending] at hp
      split_ifs at hp with h1
      · cases hp
        exact ⟨[],h,by rw [h1]; rfl,by simp⟩
      · exact hskip (fun h => h1 (some.inj h)) hp
    | reaped q pid' =>
      simp only [pending] at hp
      split_ifs at hp with h1
      exact hskip (fun h => h1 (some.inj h)) hp
    | freevm d still => exact hskip nofun hp

lemma Agrees.reaped {later earlier : List Event} {pid : Int32}
    (h : Agrees (later ++ .reaped z pid :: earlier)) : pending z earlier = some pid := by
  induction later with
  | nil => exact h.1
  | cons e l ih =>
    cases e with
    | reaped => exact ih h.2
    | zombie | freevm => exact ih h

lemma Agrees.between {later mid earlier : List Event} {pid pid' : Int32}
    (h : Agrees (later ++ .reaped z pid :: (mid ++ .reaped z pid' :: earlier))) : .zombie z pid ∈ mid := by
  obtain ⟨since,before,hb,hs⟩ := pending_some h.reaped
  rcases append_eq_append_iff.mp hb with ⟨d,h1,h2⟩ | ⟨d,h1,h2⟩
  · cases d with
    | nil => cases h2
    | cons e d =>
      cases h2
      exact (hs (.reaped z pid') (by simp [h1]) rfl).elim
  · cases d with
    | nil => cases h2
    | cons e d =>
      cases h2
      simp [h1]

/-- Exactly the zombies are pending. -/
structure HistAt (s : State) : Prop where
  agrees : Agrees s.hist
  pending : ∀ z, pending z s.hist = if (s.table z).state = .zombie then some (s.table z).pid else none

section
variable {s s' : State}

lemma hist_keep (hH : HistAt s) (hh : Agrees s.hist → Agrees s'.hist)
    (hp : ∀ z, pending z s'.hist = pending z s.hist)
    (ht : ∀ z, (s'.table z).state = .zombie ↔ (s.table z).state = .zombie)
    (hpid : ∀ z, (s.table z).state = .zombie → (s'.table z).pid = (s.table z).pid) : HistAt s' := by
  refine ⟨hh hH.agrees,fun z => ?_⟩
  rw [hp,hH.pending]
  by_cases hz : (s.table z).state = .zombie
  · rw [if_pos hz,if_pos ((ht z).mpr hz),hpid z hz]
  · rw [if_neg hz,if_neg (fun h => hz ((ht z).mp h))]

lemma hist_put {c : Slot} {e : Proc} (hH : HistAt s) (ht : s'.table = update s.table c e)
    (hh : Agrees s.hist → Agrees s'.hist) (hp : ∀ z, pending z s'.hist = pending z s.hist)
    (he : e.state = .zombie ↔ (s.table c).state = .zombie)
    (hpid : (s.table c).state = .zombie → e.pid = (s.table c).pid) : HistAt s' := by
  refine hist_keep hH hh hp (fun z => ?_) (fun z hz => ?_)
  · by_cases hzc : z = c
    · subst hzc; rwa [ht,update_self]
    · rw [ht,update_of_ne hzc]
  · by_cases hzc : z = c
    · subst hzc; rw [ht,update_self]; exact hpid hz
    · rw [ht,update_of_ne hzc]

lemma hist_reap {z : Slot} {e : Proc} {h : List Event} (hH : HistAt s)
    (ht : s'.table = update s.table z e) (hh : s'.hist = .reaped z (s.table z).pid :: h)
    (ha : Agrees s.hist → Agrees h) (hp : ∀ q, pending q h = pending q s.hist)
    (hz : (s.table z).state = .zombie) (he : e.state ≠ .zombie) : HistAt s' := by
  refine ⟨?_,fun q => ?_⟩
  · rw [hh]
    refine ⟨?_,ha hH.agrees⟩
    rw [hp,hH.pending,if_pos hz]
  · rw [hh,pending,ht]
    by_cases hq : z = q
    · subst hq
      rw [if_pos rfl,update_self,if_neg he]
    · rw [if_neg hq,update_of_ne (Ne.symm hq),hp,hH.pending]

lemma hist_die {p : Slot} {t : Table} (hH : HistAt s) (ht : s'.table = update t p {t p with state := .zombie})
    (hh : s'.hist = .zombie p (s.table p).pid :: s.hist) (hw : ∀ q, Woken p (s.table q) (t q)) : HistAt s' := by
  refine ⟨by rw [hh]; exact hH.agrees,fun q => ?_⟩
  rw [hh,pending,ht]
  by_cases hq : p = q
  · subst hq
    rw [if_pos rfl,update_self,if_pos rfl,(hw p).pid]
  · rw [if_neg hq,update_of_ne (Ne.symm hq),hH.pending,(hw q).pid]
    simp only [(hw q).zombie]

end

lemma hist_step {s s' : State} {l : Label} (hB : Base s) (hH : HistAt s) (h : Steps s l s') : HistAt s' := by
  have hsame : ∀ {c : Slot} {e : Proc} {s' : State}, s'.table = update s.table c e →
      s'.hist = s.hist → e.state ≠ .zombie → (s.table c).state ≠ .zombie → HistAt s' := by
    intro c e s' ht hh he hc
    refine hist_put hH ht (fun h => by rwa [hh]) (fun z => by rw [hh]) ?_ (fun h => (hc h).elim)
    exact ⟨fun h => (he h).elim,fun h => (hc h).elim⟩
  cases h with
  | act hr h =>
    next p _ =>
    have hrz : (s.table p).state ≠ .zombie := by rw [hr]; nofun
    have hchild : ∀ c, (s.ctl p).child = some c → (s.table c).state ≠ .zombie := by
      intro c hc
      rw [(hB.child p c hc).1]
      nofun
    cases h with
    | noSlot => exact hH
    | copy | execBuild | execBad | execFree | waitFail | joinFail =>
      exact hist_keep hH id (fun _ => rfl) (fun _ => Iff.rfl) (fun _ _ => rfl)
    | fork c hu hc | clone c hu hc => exact hsame rfl rfl nofun (by rw [hc]; nofun)
    | forkFail c hc | cloneFail c hc | copyNone c hc | start c hc =>
      exact hsame rfl rfl nofun (hchild c (by rw [hc]; rfl))
    | copyFail c d hc =>
      have hcz := hchild c (by rw [hc]; rfl)
      exact hist_put hH rfl id (fun _ => rfl) ⟨nofun,fun h => (hcz h).elim⟩ (fun h => (hcz h).elim)
    | forkFill c d hc | cloneFill c hc =>
      have hcz := hchild c (by rw [hc]; rfl)
      exact hsame rfl rfl hcz hcz
    | execCommit | fault => exact hsame rfl rfl hrz hrz
    | exit => exact hist_die hH rfl rfl (fun q => (wakeup1_woken _ _ p q).trans (reparents_woken p _ _ q))
    | threadExit => exact hist_die hH rfl rfl (fun q => wakeup1_woken _ _ p q)
    | reap z d hu hp hz | joinReap w z hu hj hz =>
      exact hist_reap hH rfl rfl id (fun _ => rfl) hz nofun
    | waitSleep | joinSleep | yield | block => exact hsame rfl rfl nofun hrz
  | sched hr => exact hsame rfl rfl nofun (by rw [hr]; nofun)
  | killNone => exact hH
  | kill =>
    next pid q =>
    refine hist_put hH rfl id (fun _ => rfl) ?_ (fun _ => rfl)
    by_cases h : (s.table q).state = .sleeping <;> simp [killEntry,h]
  | wakeup =>
    next c =>
    have hw := wakeup1_woken s.table (some (.other c)) initproc
    exact hist_keep hH id (fun _ => rfl) (fun z => (hw z).zombie) (fun z _ => (hw z).pid)

/-- What holds in every state: sleepers in `wait` and `join` have nothing to do, and reaping is
paired with dying. -/
structure Reaps (s : State) : Prop where
  base : Base s
  kin : Kin s.table
  sleep : SleepAt s
  hist : HistAt s

lemma reaps_initial : Reaps initial := by
  refine ⟨base_initial,kin_initial,fun p hp => ?_,trivial,fun z => ?_⟩
  · by_cases h : p = initproc <;> simp [initial,h] at hp
  · by_cases h : z = initproc <;> simp [initial,h,pending]

lemma reach_reaps {s : State} (h : machine.Reachable s) : Reaps s :=
  System.Reachable.invariant (I := Reaps) (fun s (hs : s = initial) => hs ▸ reaps_initial)
    (fun _ _ _ hI hs => by
      have hs := step_cases hs
      exact ⟨base_step hI.base hs,kin_step hI.base hI.kin hs,sleep_step hI.base hI.kin hI.sleep hs,
        hist_step hI.base hI.hist hs⟩) h

/-- Whenever `ptable.lock` is free, nobody sleeps in `wait` or `join` while there is something for
it to reap or after having been killed. Every return of a pid reaps an entry that has died with
this pid and that nothing has happened to since; an entry reaped again has died again. -/
theorem exit_wait_agreement {s : State} (h : machine.Reachable s) :
    (∀ p, (s.table p).state = .sleeping → s.ctl p = .waiting →
      (s.table p).killed = false ∧ ∀ z, (s.table z).parent = some p → (s.table z).state ≠ .zombie) ∧
    (∀ p w, (s.table p).state = .sleeping → s.ctl p = .joining w →
      (s.table p).killed = false ∧ ∀ z, joinable s.table p w z = true → (s.table z).state ≠ .zombie) ∧
    (∀ later earlier z pid, s.hist = later ++ .reaped z pid :: earlier →
      ∃ since before, earlier = since ++ .zombie z pid :: before ∧ ∀ e ∈ since, e.entry ≠ some z) ∧
    (∀ later mid earlier z pid pid',
      s.hist = later ++ .reaped z pid :: (mid ++ .reaped z pid' :: earlier) → .zombie z pid ∈ mid) := by
  obtain ⟨-,-,hS,hH⟩ := reach_reaps h
  have ha := hH.agrees
  refine ⟨fun p hp hc => ?_,fun p w hp hc => ?_,fun later earlier z pid hh => ?_,
    fun later mid earlier z pid pid' hh => ?_⟩
  · obtain ⟨-,hk,hn⟩ := hS p hp (by rw [hc]; rfl)
    rw [hc] at hn
    exact ⟨hk,fun z hz => hn z (by simp [watches,hz])⟩
  · obtain ⟨-,hk,hn⟩ := hS p hp (by rw [hc]; rfl)
    rw [hc] at hn
    exact ⟨hk,hn⟩
  · rw [hh] at ha
    exact pending_some ha.reaped
  · rw [hh] at ha
    exact ha.between

/-- Init reaps its first child and sleeps in `wait` while the second one lives. -/
theorem exit_wait_agreement_two_children : ∃ s, machine.Reachable s ∧
    (s.table 0).state = .sleeping ∧ s.ctl 0 = .waiting ∧ (s.table 0).killed = false ∧
    s.hist = [.reaped 1 2,.freevm 1 [],.zombie 1 2] ∧
    ∃ since before, [.freevm 1 [],.zombie 1 2] = since ++ Event.zombie 1 2 :: before := by
  obtain ⟨s,hs,h1,h2,h3⟩ := System.reachable_of_exec (M := machine)
    [.sched 0,.act 0 .fork,.act 0 (.copy 1),.act 0 .forkFill,.act 0 .start,
     .act 0 .fork,.act 0 (.copy 2),.act 0 .forkFill,.act 0 .start,.sched 1,.act 1 .exit,.act 0 .wait,.act 0 .wait]
    (fun s => (s.table 0).state = .sleeping ∧ s.ctl 0 = .waiting ∧
      s.hist = [.reaped 1 2,.freevm 1 [],.zombie 1 2]) rfl (by decide +kernel)
  obtain ⟨hw,-,hr,-⟩ := exit_wait_agreement hs
  obtain ⟨since,before,hb,-⟩ := hr [] _ 1 2 h3
  exact ⟨s,hs,h1,h2,(hw 0 h1 h2).1,h3,since,before,hb⟩

end Xv6Threads.Ptable
