import Xv6Threads.Ptable.Steps

/-! Who is alive and which entries are under construction: the invariant that the other ones
about the process table rest on. -/
namespace Xv6Threads.Ptable
open Function State Ctl ProcState

/-- Sleeping, runnable or running. -/
def ProcState.alive : ProcState → Bool
  | .sleeping | .runnable | .running => true
  | _ => false

/-- The entry that a process in `fork` or `clone` is setting up. -/
def Ctl.child : Ctl → Option Slot
  | .forking c | .copying c _ | .cloning c | .starting c => some c
  | _ => none

/-- The entry has no address space yet. -/
def Ctl.filling : Ctl → Bool
  | .forking _ | .copying _ _ | .cloning _ => true
  | _ => false

structure Base (s : State) : Prop where
  alive : ∀ p, s.ctl p ≠ .user → (s.table p).state.alive = true
  child : ∀ p c, (s.ctl p).child = some c →
    (s.table c).state = .embryo ∧ (s.table c).ready = !(s.ctl p).filling
  uniq : ∀ p q c, (s.ctl p).child = some c → (s.ctl q).child = some c → p = q
  ready : ∀ q, (s.table q).state ≠ .unused → (s.table q).state ≠ .embryo → (s.table q).ready = true
  init : (s.table initproc).state.alive = true ∧ (s.table initproc).isthread = false

/-- Two entries in the same stage of life. -/
structure Similar (e e' : Proc) : Prop where
  alive : e'.state.alive = e.state.alive
  embryo : e'.state = .embryo ↔ e.state = .embryo
  unused : e'.state = .unused ↔ e.state = .unused
  ready : e'.ready = e.ready
  isthread : e'.isthread = e.isthread

lemma Similar.refl (e : Proc) : Similar e e := ⟨rfl,Iff.rfl,Iff.rfl,rfl,rfl⟩

lemma Similar.of_alive {e e' : Proc} (h : e.state.alive = true) (h' : e'.state.alive = true)
    (hr : e'.ready = e.ready) (ht : e'.isthread = e.isthread) : Similar e e' := by
  refine ⟨h'.trans h.symm,⟨fun he => ?_,fun he => ?_⟩,⟨fun he => ?_,fun he => ?_⟩,hr,ht⟩
  all_goals first | (rw [he] at h'; cases h') | (rw [he] at h; cases h)

variable {p : Slot}

lemma Woken.similar {e e' : Proc} (h : Woken p e e') : Similar e e' := by
  rcases h.state with hs | ⟨hs,hs'⟩
  · exact ⟨by rw [hs],by rw [hs],by rw [hs],h.ready,h.isthread⟩
  · exact .of_alive (by rw [hs]; rfl) (by rw [hs']; rfl) h.ready h.isthread

lemma similar_put {t : Table} {e : Proc} (h : Similar (t p) e) (q : Slot) : Similar (t q) (update t p e q) := by
  by_cases hq : q = p
  · subst hq; rwa [update_self]
  · rw [update_of_ne hq]; exact .refl _

section
variable {s s' : State} {p : Slot}

variable {k : Ctl}

lemma base_similar (hB : Base s) (ht : ∀ q, Similar (s.table q) (s'.table q))
    (hc : s'.ctl = update s.ctl p k) (hch : k.child = (s.ctl p).child)
    (hf : k.filling = (s.ctl p).filling) (ha : k ≠ .user → (s.table p).state.alive = true) : Base s' := by
  have hchild : ∀ q, (s'.ctl q).child = (s.ctl q).child ∧ (s'.ctl q).filling = (s.ctl q).filling := by
    intro q
    rw [hc]
    by_cases hq : q = p
    · subst hq; rw [update_self]; exact ⟨hch,hf⟩
    · rw [update_of_ne hq]; exact ⟨rfl,rfl⟩
  refine ⟨fun q hq => ?_,fun q c hq => ?_,fun q r c hq hr => ?_,fun q h1 h2 => ?_,?_⟩
  · rw [(ht q).alive]
    rw [hc] at hq
    by_cases hqp : q = p
    · subst hqp; rw [update_self] at hq; exact ha hq
    · rw [update_of_ne hqp] at hq; exact hB.alive q hq
  · rw [(hchild q).1] at hq
    obtain ⟨h1,h2⟩ := hB.child q c hq
    exact ⟨(ht c).embryo.mpr h1,by rw [(ht c).ready,(hchild q).2,h2]⟩
  · rw [(hchild q).1] at hq
    rw [(hchild r).1] at hr
    exact hB.uniq q r c hq hr
  · rw [(ht q).ready]
    exact hB.ready q (fun h => h1 ((ht q).unused.mpr h)) (fun h => h2 ((ht q).embryo.mpr h))
  · rw [(ht initproc).alive,(ht initproc).isthread]
    exact hB.init

lemma base_goto (hB : Base s) (ht : s'.table = s.table)
    (hc : s'.ctl = update s.ctl p k) (hch : k.child = (s.ctl p).child)
    (hf : k.filling = (s.ctl p).filling) (ha : k ≠ .user → (s.table p).state.alive = true) : Base s' :=
  base_similar hB (fun q => by rw [ht]; exact .refl _) hc hch hf ha

variable {e : Proc}

lemma base_own (hB : Base s) (ht : s'.table = update s.table p e)
    (hc : s'.ctl = update s.ctl p k) (hp : (s.table p).state.alive = true)
    (he : e.state.alive = true) (hr : e.ready = (s.table p).ready)
    (hth : e.isthread = (s.table p).isthread) (hch : k.child = (s.ctl p).child)
    (hf : k.filling = (s.ctl p).filling) : Base s' :=
  base_similar hB (fun q => by rw [ht]; exact similar_put (.of_alive hp he hr hth) q) hc hch hf
    (fun _ => hp)

variable {c : Slot}

section
variable (hB : Base s) (ht : s'.table = update s.table c e) (hctl : s'.ctl = update s.ctl p k)
include hB ht hctl

lemma base_entry
    (hci : c ≠ initproc) (hbusy : ∀ q, q ≠ p → s.ctl q ≠ .user → q ≠ c)
    (hp : k ≠ .user → p ≠ c ∧ (s.table p).state.alive = true) (hother : ∀ q, q ≠ p → (s.ctl q).child ≠ some c)
    (hch : ∀ d, k.child = some d → d = c ∧ e.state = .embryo ∧ e.ready = !k.filling)
    (he : e.state ≠ .unused → e.state ≠ .embryo → e.ready = true) : Base s' := by
  have hself : s'.ctl p = k := by rw [hctl,update_self]
  have hne : ∀ q, q ≠ p → s'.ctl q = s.ctl q := fun q hq => by rw [hctl,update_of_ne hq]
  have htc : s'.table c = e := by rw [ht,update_self]
  have htne : ∀ q, q ≠ c → s'.table q = s.table q := fun q hq => by rw [ht,update_of_ne hq]
  refine ⟨fun q hq => ?_,fun q d hq => ?_,fun q r d hq hr => ?_,fun q h1 h2 => ?_,?_⟩
  · by_cases hqp : q = p
    · subst hqp
      rw [hself] at hq
      obtain ⟨h1,h2⟩ := hp hq
      rwa [htne q h1]
    · rw [hne q hqp] at hq
      rw [htne q (hbusy q hqp hq)]
      exact hB.alive q hq
  · by_cases hqp : q = p
    · subst hqp
      rw [hself] at hq ⊢
      obtain ⟨rfl,h1,h2⟩ := hch d hq
      rw [htc]
      exact ⟨h1,h2⟩
    · rw [hne q hqp] at hq ⊢
      have hd : d ≠ c := by rintro rfl; exact hother q hqp hq
      rw [htne d hd]
      exact hB.child q d hq
  · by_cases hqp : q = p <;> by_cases hrp : r = p
    · rw [hqp,hrp]
    · rw [hqp,hself] at hq
      rw [hne r hrp] at hr
      obtain ⟨rfl,-⟩ := hch d hq
      exact (hother r hrp hr).elim
    · rw [hrp,hself] at hr
      rw [hne q hqp] at hq
      obtain ⟨rfl,-⟩ := hch d hr
      exact (hother q hqp hq).elim
    · rw [hne q hqp] at hq
      rw [hne r hrp] at hr
      exact hB.uniq q r d hq hr
  · by_cases hqc : q = c
    · rw [hqc,htc] at h1 h2 ⊢
      exact he h1 h2
    · rw [htne q hqc] at h1 h2 ⊢
      exact hB.ready q h1 h2
  · rw [htne initproc (Ne.symm hci)]
    exact hB.init

lemma base_work
    (hr : (s.table p).state.alive = true) (hc : (s.table c).state.alive = false) (hother : ∀ q, q ≠ p → (s.ctl q).child ≠ some c)
    (hch : ∀ d, k.child = some d → d = c ∧ e.state = .embryo ∧ e.ready = !k.filling)
    (he : e.state ≠ .unused → e.state ≠ .embryo → e.ready = true) : Base s' := by
  have hne : ∀ q, (s.table q).state.alive = true → q ≠ c := by
    rintro q hq rfl
    rw [hc] at hq
    cases hq
  exact base_entry hB ht hctl (Ne.symm (hne _ hB.init.1)) (fun q _ hq => hne q (hB.alive q hq))
    (fun _ => ⟨hne p hr,hr⟩) hother hch he

end

lemma child_other (hB : Base s) (hc : (s.ctl p).child = some c) (q : Slot) (hq : q ≠ p) :
    (s.ctl q).child ≠ some c := fun h => hq (hB.uniq q p c h hc)

lemma child_embryo (hB : Base s) (hc : (s.table c).state ≠ .embryo) (q : Slot) :
    (s.ctl q).child ≠ some c := fun h => hc (hB.child q c h).1

lemma base_die {t : Table} (hB : Base s) (hu : s.ctl p = .user) (hp : p ≠ initproc)
    (hr : (s.table p).state = .running) (hw : ∀ q, Woken p (s.table q) (t q)) :
    Base (s.die p (update t p {t p with state := .zombie})) := by
  have hB1 : Base {s with table := t} := base_similar (p := p) (k := s.ctl p) hB
    (fun q => (hw q).similar) (by simp) rfl rfl (fun h => (h hu).elim)
  refine base_entry (p := p) (k := s.ctl p) hB1 rfl (by simp [die]) hp ?_
    (fun h => (h hu).elim) ?_ ?_ ?_
  · rintro q hqp - rfl
    exact hqp rfl
  · intro q _ hq
    have := (hB.child q p hq).1
    rw [hr] at this
    cases this
  · intro d hd
    rw [hu] at hd
    cases hd
  · intro _ _
    have := hB.ready p (by rw [hr]; nofun) (by rw [hr]; nofun)
    rw [← (hw p).ready] at this
    exact this

end

lemma base_act {s s' : State} {a : Act} (hB : Base s) (hr : (s.table p).state = .running)
    (h : Acts s p a s') : Base s' := by
  have ha : (s.table p).state.alive = true := by rw [hr]; rfl
  cases h with
  | noSlot => exact hB
  | fork c hu hc | clone c hu hc =>
    exact base_work hB rfl rfl ha (by rw [hc]; rfl) (fun q _ => child_embryo hB (by rw [hc]; nofun) q)
      (fun d hd => by cases hd; exact ⟨rfl,rfl,rfl⟩) (fun _ h => (h rfl).elim)
  | forkFail c hc | cloneFail c hc | copyNone c hc | copyFail c d hc =>
    have hch : (s.ctl p).child = some c := by rw [hc]; rfl
    exact base_work hB rfl rfl ha (by rw [(hB.child p c hch).1]; rfl) (child_other hB hch) (fun _ hd => by cases hd)
      (fun h _ => (h rfl).elim)
  | forkFill c d hc | cloneFill c hc =>
    have hch : (s.ctl p).child = some c := by rw [hc]; rfl
    have he := (hB.child p c hch).1
    exact base_work hB rfl rfl ha (by rw [he]; rfl) (child_other hB hch)
      (fun d hd => by cases hd; exact ⟨rfl,he,rfl⟩) (fun _ _ => rfl)
  | start c hc =>
    have hch : (s.ctl p).child = some c := by rw [hc]; rfl
    obtain ⟨he,hrd⟩ := hB.child p c hch
    rw [hc] at hrd
    exact base_work hB rfl rfl ha (by rw [he]; rfl) (child_other hB hch) (fun _ hd => by cases hd)
      (fun _ _ => hrd)
  | copy c d hc hd | execBuild d hu hd | execBad d hc | execFree d hc =>
    exact base_goto (p := p) hB rfl rfl (by simp only [*]; rfl) (by simp only [*]; rfl) (fun _ => ha)
  | execCommit d old hc ho =>
    exact base_own hB rfl rfl ha ha rfl rfl (by rw [hc]; rfl) (by rw [hc]; rfl)
  | exit _ hu hp =>
    exact base_die hB hu hp hr (fun q => (wakeup1_woken _ _ p q).trans (reparents_woken p _ _ q))
  | threadExit hu ht =>
    refine base_die hB hu ?_ hr (fun q => wakeup1_woken _ _ p q)
    rintro rfl
    rw [hB.init.2] at ht
    cases ht
  | reap z d hu hp hz hd | joinReap w z hu hj hz =>
    exact base_work hB rfl rfl ha (by rw [hz]; rfl) (fun q _ => child_embryo hB (by rw [hz]; nofun) q)
      (fun _ hd => by cases hd) (fun h _ => (h rfl).elim)
  | waitFail hu | joinFail w hu =>
    exact base_goto (p := p) hB rfl rfl (by rcases hu with h | h <;> simp only [h,child])
      (by rcases hu with h | h <;> simp only [h,filling]) (fun _ => ha)
  | waitSleep hu | joinSleep w hu =>
    exact base_own hB rfl rfl ha rfl rfl rfl (by rcases hu with h | h <;> simp only [h,child])
      (by rcases hu with h | h <;> simp only [h,filling])
  | yield => exact base_own (k := s.ctl p) hB rfl (by simp [put]) ha rfl rfl rfl rfl rfl
  | fault => exact base_own (k := s.ctl p) hB rfl (by simp [put]) ha ha rfl rfl rfl rfl
  | block =>
    exact base_own (k := s.ctl p) hB rfl (by simp [put,sleepOn]) ha rfl rfl rfl rfl rfl

lemma similar_kill (e : Proc) : Similar e (killEntry e) := by
  by_cases hs : e.state = .sleeping
  · exact .of_alive (by rw [hs]; rfl) (by simp [killEntry,hs,alive]) rfl rfl
  · have : (killEntry e).state = e.state := by simp [killEntry,hs]
    exact ⟨by rw [this],by rw [this],by rw [this],rfl,rfl⟩

lemma base_step {s s' : State} {l : Label} (hB : Base s) (h : Steps s l s') : Base s' := by
  have hkeep : ∀ {t : Table}, (∀ q, Similar (s.table q) (t q)) → Base {s with table := t} :=
    fun ht => base_similar (p := initproc) (k := s.ctl initproc) hB ht (by simp) rfl rfl (fun _ => hB.init.1)
  cases h with
  | act hr h => exact base_act hB hr h
  | sched hr => exact hkeep (similar_put (.of_alive (by rw [hr]; rfl) rfl rfl rfl))
  | killNone => exact hB
  | kill => exact hkeep (similar_put (similar_kill _))
  | wakeup => exact hkeep (fun q => (wakeup1_woken _ _ initproc q).similar)

lemma base_initial : Base initial := by
  refine ⟨by simp [initial],by simp [initial,child],by simp [initial,child],fun q h1 _ => ?_,by
    simp [initial,alive]⟩
  by_cases hq : q = initproc <;> simp_all [initial]

lemma reach_base {ok : State → Label → Prop} {s : State} (h : machine.ReachWhile ok s) : Base s :=
  System.ReachWhile.invariant (I := Base) (fun s (hs : s = initial) => hs ▸ base_initial)
    (fun _ _ _ hB _ hs => base_step hB (step_cases hs)) h

end Xv6Threads.Ptable
