import Xv6Threads.Ptable.Base

/-! Who shares an address space. Threads have the page directory of their creator, and four calls
free one: `wait`, `exec` when it has committed, and `exec` and `fork` when they fail. -/
namespace Xv6Threads.Ptable
open Function

/-- `q` is in use and has been given page directory `d`. -/
structure Holds (t : Table) (q : Slot) (d : PgDir) : Prop where
  used : (t q).state ≠ .unused
  ready : (t q).ready = true
  pgdir : (t q).pgdir = some d

/-- `c` has just been taken and still has page directory `d` of the last user of the slot. -/
structure Leftover (t : Table) (c : Slot) (d : PgDir) : Prop where
  embryo : (t c).state = .embryo
  ready : (t c).ready = false
  pgdir : (t c).pgdir = some d

/-- The page directory that a call has in hand and that belongs to no entry. -/
def Ctl.dir : Ctl → Option PgDir
  | .copying _ d | .building d | .freeing d => some d
  | _ => none

structure Space (s : State) : Prop where
  own : ∀ {q}, (s.table q).state ≠ .unused → (s.table q).ready = true → ∃ d, Holds s.table q d
  alloc : ∀ {q d}, Holds s.table q d → s.alloc d = true
  group : ∀ {q r d}, Holds s.table q d → Holds s.table r d → (s.table q).tgid = (s.table r).tgid
  leftover : ∀ {c d}, Leftover s.table c d → s.alloc d = false
  work : ∀ {p d}, (s.ctl p).dir = some d → s.alloc d = true ∧ ∀ q, ¬Holds s.table q d
  uniq : ∀ {p q d}, (s.ctl p).dir = some d → (s.ctl q).dir = some d → p = q

/-- No other entry in use is a member of the thread group of `z`. -/
def SoleMember (t : Table) (z : Slot) : Prop :=
  ∀ q, (t q).state ≠ .unused → (t q).tgid = (t z).tgid → q = z

/-- `wait` reaps and `exec` replaces the last member of a thread group, and a slot that is being
set up never has a page directory that is in use. -/
def keepsSpaces (s : State) : Label → Prop
  | .act p .wait => ∀ z ∈ s.zombieChild p, SoleMember s.table z
  | .act p .execCommit => SoleMember s.table p
  | .act _ .fork | .act _ .clone => ∀ c ∈ s.freeSlot, ∀ d ∈ (s.table c).pgdir, s.alloc d = false
  | .act _ (.copy d) | .act _ (.execBuild d) => ∀ c, ¬Leftover s.table c d
  | _ => True

section
variable {s s' : State}

variable {d : PgDir}

lemma leftover_of_not_ready {q : Slot} (hB : Base s) (hu : (s.table q).state ≠ .unused)
    (hd : (s.table q).pgdir = some d) (hr : (s.table q).ready = false) : Leftover s.table q d := by
  refine ⟨?_,hr,hd⟩
  by_contra he
  rw [hB.ready q hu he] at hr
  cases hr

lemma sharers_nil {z : Option Slot} (hB : Base s) (hI : Space s) (ha : s.alloc d = true)
    (hn : ∀ q, Holds s.table q d → z = some q) : sharers s.table z d = [] := by
  rw [sharers_eq_nil]
  intro q hu hd
  cases hr : (s.table q).ready with
  | true => exact hn q ⟨hu,hr,hd⟩
  | false =>
    have := hI.leftover (leftover_of_not_ready hB hu hd hr)
    rw [ha] at this
    cases this

lemma space_shrink (hI : Space s) (ha : s'.alloc = s.alloc)
    (hk : ∀ q, (s'.table q).state ≠ .unused → (s'.table q).ready = true → (s.table q).state ≠ .unused ∧
      (s.table q).ready = true ∧ (s'.table q).pgdir = (s.table q).pgdir ∧ (s'.table q).tgid = (s.table q).tgid)
    (hl : ∀ c d, Leftover s'.table c d → s.alloc d = false)
    (hd : ∀ p d, (s'.ctl p).dir = some d → (s.ctl p).dir = some d) : Space s' := by
  have hh : ∀ q d, Holds s'.table q d → Holds s.table q d ∧ (s'.table q).tgid = (s.table q).tgid := by
    rintro q d ⟨h1,h2,h3⟩
    obtain ⟨k1,k2,k3,k4⟩ := hk q h1 h2
    exact ⟨⟨k1,k2,k3 ▸ h3⟩,k4⟩
  refine ⟨fun h1 h2 => ?_,fun hq => ?_,fun hq hr => ?_,fun hc => ?_,fun hp => ⟨?_,fun q hq => ?_⟩,fun hp hq => ?_⟩
  · obtain ⟨k1,k2,k3,-⟩ := hk _ h1 h2
    obtain ⟨d,hd⟩ := hI.own k1 k2
    exact ⟨d,h1,h2,k3 ▸ hd.pgdir⟩
  · rw [ha]; exact hI.alloc (hh _ _ hq).1
  · rw [(hh _ _ hq).2,(hh _ _ hr).2]; exact hI.group (hh _ _ hq).1 (hh _ _ hr).1
  · rw [ha]; exact hl _ _ hc
  · rw [ha]; exact (hI.work (hd _ _ hp)).1
  · exact (hI.work (hd _ _ hp)).2 q (hh _ _ hq).1
  · exact hI.uniq (hd _ _ hp) (hd _ _ hq)

variable {e : Proc}

lemma space_entry {c : Slot} (hI : Space s) (ht : s'.table = update s.table c e) (ha : s'.alloc = s.alloc)
    (he : e.state ≠ .unused → e.ready = true → (s.table c).state ≠ .unused ∧
      (s.table c).ready = true ∧ e.pgdir = (s.table c).pgdir ∧ e.tgid = (s.table c).tgid)
    (hl : ∀ d, e.state = .embryo → e.ready = false → e.pgdir = some d → s.alloc d = false)
    (hd : ∀ p d, (s'.ctl p).dir = some d → (s.ctl p).dir = some d) : Space s' := by
  refine space_shrink hI ha (fun q h1 h2 => ?_) (fun q d hq => ?_) hd
  · by_cases hqc : q = c
    · subst hqc
      have hte : s'.table q = e := by rw [ht,update_self]
      rw [hte] at h1 h2 ⊢
      exact he h1 h2
    · have hte : s'.table q = s.table q := by rw [ht,update_of_ne hqc]
      rw [hte] at h1 h2 ⊢
      exact ⟨h1,h2,rfl,rfl⟩
  · by_cases hqc : q = c
    · subst hqc
      have hte : s'.table q = e := by rw [ht,update_self]
      obtain ⟨h1,h2,h3⟩ := hq
      rw [hte] at h1 h2 h3
      exact hl d h1 h2 h3
    · have hte : s'.table q = s.table q := by rw [ht,update_of_ne hqc]
      exact hI.leftover ⟨hte ▸ hq.embryo,hte ▸ hq.ready,hte ▸ hq.pgdir⟩

variable {p : Slot} {t : Table}

lemma space_woken (hI : Space s) (hw : ∀ q, Woken p (s.table q) (t q)) : Space {s with table := t} := by
  refine space_shrink hI rfl (fun q h1 h2 => ⟨?_,?_,(hw q).pgdir,(hw q).tgid⟩) (fun q d hq => ?_) (fun _ _ h => h)
  · exact fun h => h1 ((hw q).similar.unused.mpr h)
  · rw [← (hw q).ready]; exact h2
  · refine hI.leftover (c := q) ⟨(hw q).similar.embryo.mp hq.embryo,?_,?_⟩
    · rw [← (hw q).ready]; exact hq.ready
    · rw [← (hw q).pgdir]; exact hq.pgdir

lemma space_die (hB : Base s) (hI : Space s) (hr : (s.table p).state = .running)
    (hw : ∀ q, Woken p (s.table q) (t q)) : Space (s.die p (update t p {t p with state := .zombie})) := by
  have hu : (s.table p).state ≠ .unused := by rw [hr]; nofun
  refine space_entry (space_woken hI hw) rfl rfl (fun _ _ => ?_) nofun (fun _ _ h => h)
  exact ⟨fun h => hu ((hw p).similar.unused.mp h), (hw p).ready.trans (hB.ready p hu (by rw [hr]; nofun)),rfl,rfl⟩

lemma space_freevm (hI : Space s) (ht : s'.table = s.table) (hc : s'.ctl = s.ctl)
    (ha : s'.alloc = update s.alloc d false) (hn : ∀ q, ¬Holds s.table q d)
    (hd : ∀ p, (s.ctl p).dir ≠ some d) : Space s' := by
  have hne : ∀ {x}, x ≠ d → s'.alloc x = s.alloc x := fun h => by rw [ha,update_of_ne h]
  refine ⟨?_,fun {q x} hq => ?_,?_,fun {c x} hl => ?_,fun {p x} hp => ?_,?_⟩
  · rw [ht]; exact hI.own
  · rw [ht] at hq
    rw [hne (by rintro rfl; exact hn q hq)]
    exact hI.alloc hq
  · rw [ht]; exact hI.group
  · rw [ht] at hl
    by_cases hx : x = d
    · rw [ha,hx,update_self]
    · rw [hne hx]; exact hI.leftover hl
  · rw [hc] at hp
    rw [hne (by rintro rfl; exact hd p hp),ht]
    exact hI.work hp
  · rw [hc]; exact hI.uniq

lemma space_alloc {c' : Ctl} (hI : Space s) (ht : s'.table = s.table)
    (hc : s'.ctl = update s.ctl p c') (ha : s'.alloc = update s.alloc d true)
    (hc' : c'.dir = some d) (hd : s.alloc d = false) (hl : ∀ c, ¬Leftover s.table c d) : Space s' := by
  have hkeep : ∀ {x}, s.alloc x = true → s'.alloc x = true := by
    intro x hx
    by_cases hxd : x = d
    · rw [ha,hxd,update_self]
    · rw [ha,update_of_ne hxd]; exact hx
  have hno : ∀ q, ¬Holds s.table q d := fun q hq => by
    have := hI.alloc hq
    rw [hd] at this
    cases this
  have hdir : ∀ {q x}, (s'.ctl q).dir = some x → (q = p ∧ x = d) ∨ (q ≠ p ∧ x ≠ d ∧ (s.ctl q).dir = some x) := by
    intro q x hq
    by_cases hqp : q = p
    · rw [hc,hqp,update_self,hc'] at hq
      exact .inl ⟨hqp,(Option.some.inj hq).symm⟩
    · rw [hc,update_of_ne hqp] at hq
      refine .inr ⟨hqp,?_,hq⟩
      rintro rfl
      have := (hI.work hq).1
      rw [hd] at this
      cases this
  refine ⟨?_,fun hq => ?_,?_,fun {c x} hl' => ?_,fun {q x} hq => ?_,fun {q r x} hq hr => ?_⟩
  · rw [ht]; exact hI.own
  · rw [ht] at hq; exact hkeep (hI.alloc hq)
  · rw [ht]; exact hI.group
  · rw [ht] at hl'
    rw [ha,update_of_ne (by rintro rfl; exact hl c hl')]
    exact hI.leftover hl'
  · rw [ht]
    rcases hdir hq with ⟨-,rfl⟩ | ⟨-,-,hq⟩
    · exact ⟨by rw [ha,update_self],hno⟩
    · exact ⟨hkeep (hI.work hq).1,(hI.work hq).2⟩
  · rcases hdir hq with ⟨rfl,rfl⟩ | ⟨-,h1,hq⟩ <;> rcases hdir hr with ⟨rfl,h2⟩ | ⟨-,h2,hr⟩
    · rfl
    · exact (h2 rfl).elim
    · exact (h1 h2).elim
    · exact hI.uniq hq hr

lemma space_give {p c : Slot} {c' : Ctl} (hI : Space s)
    (ht : s'.table = update s.table c e) (hc : s'.ctl = update s.ctl p c')
    (ha : s'.alloc = s.alloc) (hed : e.pgdir = some d) (her : e.ready = true) (hd : s.alloc d = true)
    (hg : ∀ q, q ≠ c → Holds s.table q d → (s.table q).tgid = e.tgid) (hdir : ∀ q, q ≠ p → (s.ctl q).dir ≠ some d)
    (hc' : ∀ x, c'.dir = some x → x ≠ d ∧ s.alloc x = true ∧ (∀ q, q ≠ c → ¬Holds s.table q x) ∧
      ∀ q, q ≠ p → (s.ctl q).dir ≠ some x) : Space s' := by
  have hself : s'.table c = e := by rw [ht,update_self]
  have hholds : ∀ {q x}, Holds s'.table q x → (q = c ∧ x = d) ∨
      (q ≠ c ∧ Holds s.table q x ∧ (s'.table q).tgid = (s.table q).tgid) := by
    rintro q x ⟨h1,h2,h3⟩
    by_cases hq : q = c
    · rw [hq,hself,hed] at h3
      exact .inl ⟨hq,(Option.some.inj h3).symm⟩
    · have : s'.table q = s.table q := by rw [ht,update_of_ne hq]
      rw [this] at h1 h2 h3
      exact .inr ⟨hq,⟨h1,h2,h3⟩,by rw [this]⟩
  have hdirs : ∀ {q x}, (s'.ctl q).dir = some x → (q = p ∧ c'.dir = some x) ∨ (q ≠ p ∧ (s.ctl q).dir = some x) := by
    intro q x hq
    by_cases hqp : q = p
    · rw [hc,hqp,update_self] at hq; exact .inl ⟨hqp,hq⟩
    · rw [hc,update_of_ne hqp] at hq; exact .inr ⟨hqp,hq⟩
  refine ⟨fun {q} h1 h2 => ?_,fun {q x} hq => ?_,fun {q r x} hq hr => ?_,fun {q x} hl => ?_,fun {q x} hq => ?_,
    fun {q r x} hq hr => ?_⟩
  · by_cases hq : q = c
    · exact ⟨d,h1,h2,by rw [hq,hself,hed]⟩
    · have hte : s'.table q = s.table q := by rw [ht,update_of_ne hq]
      obtain ⟨x,hx⟩ := hI.own (hte ▸ h1) (hte ▸ h2)
      exact ⟨x,h1,h2,by rw [hte,hx.pgdir]⟩
  · rw [ha]
    rcases hholds hq with ⟨-,rfl⟩ | ⟨-,hq,-⟩
    · exact hd
    · exact hI.alloc hq
  · rcases hholds hq with ⟨rfl,rfl⟩ | ⟨hqc,hq,hqt⟩ <;> rcases hholds hr with ⟨hrc,hrd⟩ | ⟨hrc,hr,hrt⟩
    · rw [hrc]
    · rw [hself,hrt,hg r hrc hr]
    · rw [hrd] at hq
      rw [hrc,hself,hqt,hg q hqc hq]
    · rw [hqt,hrt]; exact hI.group hq hr
  · rw [ha]
    have hqc : q ≠ c := by
      rintro rfl
      have := hl.ready
      rw [hself,her] at this
      cases this
    have : s'.table q = s.table q := by rw [ht,update_of_ne hqc]
    exact hI.leftover ⟨this ▸ hl.embryo,this ▸ hl.ready,this ▸ hl.pgdir⟩
  · rw [ha]
    rcases hdirs hq with ⟨rfl,hq⟩ | ⟨hqp,hq⟩
    · obtain ⟨h1,h2,h3,-⟩ := hc' x hq
      refine ⟨h2,fun r hr => ?_⟩
      rcases hholds hr with ⟨-,h⟩ | ⟨hrc,hr,-⟩
      · exact h1 h
      · exact h3 r hrc hr
    · refine ⟨(hI.work hq).1,fun r hr => ?_⟩
      rcases hholds hr with ⟨-,rfl⟩ | ⟨-,hr,-⟩
      · exact hdir q hqp hq
      · exact (hI.work hq).2 r hr
  · rcases hdirs hq with ⟨rfl,hq⟩ | ⟨hqp,hq⟩ <;> rcases hdirs hr with ⟨hrp,hr⟩ | ⟨hrp,hr⟩
    · exact hrp.symm
    · exact ((hc' x hq).2.2.2 r hrp hr).elim
    · exact ((hc' x hr).2.2.2 q (hrp ▸ hqp) hq).elim
    · exact hI.uniq hq hr

lemma space_drop {u : State} (hI : Space s) (hp : (s.ctl p).dir = some d)
    (hs : Space u) (hc : u.ctl = update s.ctl p .user)
    (hh : ∀ q, Holds u.table q d → Holds s.table q d) (ht : s'.table = u.table) (hc' : s'.ctl = u.ctl)
    (ha : s'.alloc = update u.alloc d false) : Space s' := by
  refine space_freevm hs ht hc' ha (fun q hq => (hI.work hp).2 q (hh q hq)) (fun q hq => ?_)
  rw [hc] at hq
  by_cases hqp : q = p
  · rw [hqp,update_self] at hq; cases hq
  · rw [update_of_ne hqp] at hq
    exact hqp (hI.uniq hq hp)

lemma holds_freed {c q : Slot} (he : e.state = .unused)
    (h : Holds (update t c e) q d) : q ≠ c ∧ Holds t q d := by
  obtain ⟨h1,h2,h3⟩ := h
  by_cases hq : q = c
  · subst hq
    rw [update_self] at h1
    exact (h1 he).elim
  · rw [update_of_ne hq] at h1 h2 h3
    exact ⟨hq,h1,h2,h3⟩

end

lemma dir_update {s : State} {p : Slot} {c' : Ctl} (hc : c'.dir = none) (q : Slot) (d : PgDir)
    (h : (update s.ctl p c' q).dir = some d) : (s.ctl q).dir = some d := by
  by_cases hq : q = p
  · rw [hq,update_self,hc] at h; cases h
  · rwa [update_of_ne hq] at h

variable {s s' : State}

lemma space_act {p : Slot} {a : Act} (hB : Base s) (hI : Space s)
    (hok : keepsSpaces s (.act p a)) (hr : (s.table p).state = .running) (h : Acts s p a s') : Space s' := by
  have hu : (s.table p).state ≠ .unused := by rw [hr]; nofun
  have hready : (s.table p).ready = true := hB.ready p hu (by rw [hr]; nofun)
  cases h with
  | noSlot => exact hI
  | fork c _ _ hf | clone c _ _ hf =>
    exact space_entry hI rfl rfl nofun (fun d _ _ hd => hok c hf d hd) (dir_update rfl)
  | forkFail c hc | cloneFail c hc | copyNone c hc =>
    exact space_entry hI rfl rfl (fun h => (h rfl).elim) nofun (dir_update rfl)
  | copy c d hc hd | execBuild d hu hd => exact space_alloc hI rfl rfl rfl rfl hd hok
  | copyFail c d hc =>
    have hp : (s.ctl p).dir = some d := by rw [hc]; rfl
    exact space_drop (u := (s.giveUpCopy c).goto p .user) hI hp
      (space_entry hI rfl rfl (fun h => (h rfl).elim) nofun (dir_update rfl)) rfl
      (fun q hq => (holds_freed rfl hq).2) rfl rfl rfl
  | forkFill c d hc =>
    have hp : (s.ctl p).dir = some d := by rw [hc]; rfl
    exact space_give hI rfl rfl rfl rfl rfl (hI.work hp).1 (fun q _ hq => ((hI.work hp).2 q hq).elim)
      (fun q hqp hq => hqp (hI.uniq hq hp)) nofun
  | cloneFill c hc =>
    obtain ⟨d,hd⟩ := hI.own hu hready
    exact space_give hI rfl rfl rfl hd.pgdir rfl (hI.alloc hd) (fun q _ hq => hI.group hq hd)
      (fun q _ hq => (hI.work hq).2 p hd) nofun
  | start c hc =>
    obtain ⟨he,hrd⟩ := hB.child p c (by rw [hc]; rfl)
    rw [hc] at hrd
    exact space_entry hI rfl rfl (fun _ _ => ⟨by rw [he]; nofun,hrd,rfl,rfl⟩) nofun (dir_update rfl)
  | execBad d hc | execFree d hc =>
    have hp : (s.ctl p).dir = some d := by rw [hc]; rfl
    exact space_drop (u := s.goto p .user) hI hp
      (space_shrink hI rfl (fun _ h1 h2 => ⟨h1,h2,rfl,rfl⟩) (fun _ _ h => hI.leftover h) (dir_update rfl)) rfl
      (fun _ h => h) rfl rfl rfl
  | execCommit d old hc ho =>
    have hp : (s.ctl p).dir = some d := by rw [hc]; rfl
    have hold : Holds s.table p old := ⟨hu,hready,ho⟩
    refine space_give hI rfl rfl rfl rfl hready (hI.work hp).1 (fun q _ hq => ((hI.work hp).2 q hq).elim)
      (fun q hqp hq => hqp (hI.uniq hq hp)) ?_
    intro x hx
    cases hx
    refine ⟨?_,hI.alloc hold,fun q hqp hq => hqp (hok q hq.used (hI.group hq hold)),fun q _ hq => ?_⟩
    · rintro rfl
      exact (hI.work hp).2 p hold
    · exact (hI.work hq).2 p hold
  | exit => exact space_die hB hI hr (fun q => (wakeup1_woken _ _ p q).trans (reparents_woken p _ _ q))
  | threadExit => exact space_die hB hI hr (fun q => wakeup1_woken _ _ p q)
  | reap z d _ _ hz hd hf =>
    have hzu : (s.table z).state ≠ .unused := by rw [hz]; nofun
    have hzd : Holds s.table z d := ⟨hzu,hB.ready z hzu (by rw [hz]; nofun),hd⟩
    have hs : Space ((s.put z (waitClear (s.table z))).goto p .user) :=
      space_entry hI rfl rfl (fun h => (h rfl).elim) nofun (dir_update rfl)
    refine space_freevm hs rfl rfl rfl (fun q hq => ?_) (fun q hq => ?_)
    · obtain ⟨hqz,hq⟩ := holds_freed rfl hq
      exact hqz (hok z hf q hq.used (hI.group hq hzd))
    · exact (hI.work (dir_update rfl q d hq)).2 z hzd
  | joinReap w z => exact space_entry hI rfl rfl (fun h => (h rfl).elim) nofun (dir_update rfl)
  | waitFail | joinFail =>
    exact space_shrink hI rfl (fun _ h1 h2 => ⟨h1,h2,rfl,rfl⟩) (fun _ _ h => hI.leftover h) (dir_update rfl)
  | waitSleep | joinSleep =>
    exact space_entry hI rfl rfl (fun _ _ => ⟨hu,hready,rfl,rfl⟩) nofun (dir_update rfl)
  | yield | block => exact space_entry hI rfl rfl (fun _ _ => ⟨hu,hready,rfl,rfl⟩) nofun (fun _ _ h => h)
  | fault =>
    exact space_entry hI rfl rfl (fun _ _ => ⟨hu,hready,rfl,rfl⟩) (by rw [hr]; nofun) (fun _ _ h => h)

variable {l : Label}

lemma space_step (hB : Base s) (hI : Space s) (hok : keepsSpaces s l)
    (h : Steps s l s') : Space s' := by
  cases h with
  | act hr h => exact space_act hB hI hok hr h
  | sched hr =>
    next p =>
    have hu : (s.table p).state ≠ .unused := by rw [hr]; nofun
    exact space_entry hI rfl rfl (fun _ h => ⟨hu,h,rfl,rfl⟩) nofun (fun _ _ h => h)
  | killNone => exact hI
  | kill =>
    next pid q =>
    have hs := similar_kill (s.table q)
    exact space_entry hI rfl rfl (fun h hr => ⟨fun h' => h (hs.unused.mpr h'),hr,rfl,rfl⟩)
      (fun d he hr hd => hI.leftover ⟨hs.embryo.mp he,hr,hd⟩) (fun _ _ h => h)
  | wakeup => exact space_woken hI (fun q => wakeup1_woken _ _ initproc q)

/-- Every directory that has been freed was nobody's at that time. -/
def FreeAt (h : List Event) : Prop := ∀ d still, .freevm d still ∈ h → still = []

lemma FreeAt.cons {h : List Event} {d : PgDir} {still : List Slot} (hF : FreeAt h) (hs : still = []) :
    FreeAt (.freevm d still :: h) := by
  intro d' still' hm
  rcases List.mem_cons.mp hm with he | hm
  · cases he; exact hs
  · exact hF d' still' hm

lemma FreeAt.other {h : List Event} {e : Event} (hF : FreeAt h) (he : e.entry ≠ none) : FreeAt (e :: h) := by
  intro d still hm
  rcases List.mem_cons.mp hm with rfl | hm
  · exact (he rfl).elim
  · exact hF d still hm

lemma free_step (hB : Base s) (hI : Space s) (hok : keepsSpaces s l)
    (hF : FreeAt s.hist) (h : Steps s l s') : FreeAt s'.hist := by
  cases h with
  | act hr h =>
    next p _ =>
    -- What a call has in hand is nobody's.
    have hdrop : ∀ d, (s.ctl p).dir = some d → sharers s.table none d = [] := fun d hd =>
      sharers_nil hB hI (hI.work hd).1 (fun q hq => ((hI.work hd).2 q hq).elim)
    cases h with
    | copyFail c d hc | execBad d hc | execFree d hc => exact hF.cons (hdrop d (by rw [hc]; rfl))
    | reap z d _ _ hz hd hf =>
      have hzu : (s.table z).state ≠ .unused := by rw [hz]; nofun
      have hzd : Holds s.table z d := ⟨hzu,hB.ready z hzu (by rw [hz]; nofun),hd⟩
      refine FreeAt.other (hF.cons (sharers_nil hB hI (hI.alloc hzd) (fun q hq => ?_))) nofun
      rw [hok z hf q hq.used (hI.group hq hzd)]
    | exit | threadExit | joinReap => exact hF.other nofun
    | _ => exact hF
  | _ => exact hF

/-- What holds in every state of a run that meets `keepsSpaces`. -/
structure Sharing (s : State) : Prop where
  base : Base s
  space : Space s
  free : FreeAt s.hist

lemma holds_initial {q : Slot} {d : PgDir} (h : Holds initial.table q d) : q = initproc ∧ d = 0 := by
  by_cases hq : q = initproc
  · have := h.pgdir
    simp [initial,hq] at this
    exact ⟨hq,this.symm⟩
  · have := h.used
    simp [initial,hq] at this

lemma space_initial : Space initial := by
  refine ⟨fun {q} h1 h2 => ?_,fun h => ?_,fun h h' => ?_,fun {c d} h => ?_,nofun,nofun⟩
  · by_cases hq : q = initproc
    · exact ⟨0,h1,h2,by simp [initial,hq]⟩
    · simp [initial,hq] at h1
  · rw [(holds_initial h).2]; rfl
  · rw [(holds_initial h).1,(holds_initial h').1]
  · have := h.embryo
    by_cases hc : c = initproc <;> simp [initial,hc] at this

lemma sharing_initial : Sharing initial := ⟨base_initial,space_initial,nofun⟩

lemma sharing_step (hI : Sharing s) (hok : keepsSpaces s l) (h : Steps s l s') : Sharing s' :=
  ⟨base_step hI.base h,space_step hI.base hI.space hok h,free_step hI.base hI.space hok hI.free h⟩

lemma reach_sharing {s : State} (h : machine.ReachWhile keepsSpaces s) : Sharing s :=
  System.ReachWhile.invariant (I := Sharing) (fun s (hs : s = initial) => hs ▸ sharing_initial)
    (fun _ _ _ hI hok hs => sharing_step hI hok (step_cases hs)) h

/-- In every run in which `wait` and `exec` free the address space of a thread group only with
its last member, and slots under construction have no directory in use, a page directory is
freed only when no other entry has it. -/
theorem freevm_unshared {s : State} (h : machine.ReachWhile keepsSpaces s) {d : PgDir} {still : List Slot}
    (he : .freevm d still ∈ s.hist) : still = [] :=
  (reach_sharing h).free d still he

instance (t : Table) (c : Slot) (d : PgDir) : Decidable (Leftover t c d) :=
  decidable_of_iff ((t c).state = .embryo ∧ (t c).ready = false ∧ (t c).pgdir = some d)
    ⟨fun h => ⟨h.1,h.2.1,h.2.2⟩,fun h => ⟨h.1,h.2,h.3⟩⟩

instance (t : Table) (z : Slot) : Decidable (SoleMember t z) := by
  unfold SoleMember
  infer_instance

instance (s : State) (l : Label) : Decidable (keepsSpaces s l) := by
  unfold keepsSpaces
  split <;> infer_instance

/-- A process joins its thread and exits, and init waits for it. -/
theorem freevm_unshared_after_join : ∃ s, machine.ReachWhile keepsSpaces s ∧
    ∃ still, .freevm 1 still ∈ s.hist ∧ still = [] := by
  obtain ⟨s,hs,hm⟩ := System.reachWhile_of_exec (M := machine) (fun s l => decide (keepsSpaces s l))
    (fun _ _ h => of_decide_eq_true h) [.sched 0,.act 0 .fork,.act 0 (.copy 1),.act 0 .forkFill,.act 0 .start,
       .sched 1,.act 1 .clone,.act 1 .cloneFill,.act 1 .start,
       .sched 2,.act 2 .threadExit,.act 1 (.join 3),.act 1 .exit,.act 0 .wait]
    (fun s => .freevm 1 [] ∈ s.hist) rfl (by decide +kernel)
  exact ⟨s,hs,[],hm,freevm_unshared hs hm⟩

/-- A process calls `wait` after its thread has ended: its own page directory is freed. -/
theorem wait_frees_callers_space : ∃ s, machine.Reachable s ∧ .freevm 1 [1] ∈ s.hist ∧
    (s.table 1).state = .running ∧ (s.table 1).pgdir = some 1 :=
  System.reachable_of_exec (M := machine) [.sched 0,.act 0 .fork,.act 0 (.copy 1),.act 0 .forkFill,.act 0 .start,
     .sched 1,.act 1 .clone,.act 1 .cloneFill,.act 1 .start,
     .sched 2,.act 2 .threadExit,.act 1 .wait] _ rfl
    (by decide +kernel)

end Xv6Threads.Ptable
