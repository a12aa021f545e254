import Xv6Threads.Vm.Machine

/-! The size of a process and the pages of its address space. The size is kept in every entry of
the process table, the pages only once for all threads that share them. -/
namespace Xv6Threads.Vm
open Function Option State Nat
open Ptable (Slot PgDir Holds Leftover keepsSpaces)

/-- `q` is in use, not a zombie, and has been given page directory `d`. -/
structure Held (t : Ptable.Table) (q : Slot) (d : PgDir) : Prop extends Holds t q d where
  living : (t q).state ≠ .zombie

/-- The call has a directory in hand that it is going to give to an entry. -/
def works : Ptable.Ctl → Bool
  | .copying _ _ | .building _ => true
  | _ => false

/-- What is left of state `s` when the process table goes to `t` by `l`. -/
def State.after (s : State) (l : Ptable.Label) (t : Ptable.State) : State :=
  {s with pt := t, sz := s.newSz l, dir := fun d => if t.alloc d then s.dir d else fun _ => none}

structure Sized (s : State) : Prop where
  panic : s.panic = none
  agree : ∀ {q r d}, Held s.pt.table q d → Held s.pt.table r d → s.sz q = s.sz r
  fills : ∀ {q d}, Held s.pt.table q d → s.sz q < kernBase ∧ Fills (s.dir d) (npages (s.sz q))
  copy : ∀ {p c d}, s.pt.ctl p = .copying c d → s.sz p < kernBase ∧ Fills (s.dir d) (npages (s.sz p))
  build : ∀ {p d}, s.pt.ctl p = .building d → s.img p < kernBase ∧ Fills (s.dir d) (npages (s.img p))

section
variable {t u : Ptable.Table} {c q : Slot} {e : Ptable.Proc} {d : PgDir}

lemma held_update (h : Held (update t c e) q d) :
    (q ≠ c ∧ Held t q d) ∨ (q = c ∧ e.state ≠ .unused ∧ e.state ≠ .zombie ∧ e.ready = true ∧ e.pgdir = some d) := by
  obtain ⟨⟨h1,h2,h3⟩,h4⟩ := h
  by_cases hq : q = c
  · subst hq
    rw [update_self] at h1 h2 h3 h4
    exact .inr ⟨rfl,h1,h4,h2,h3⟩
  · rw [update_of_ne hq] at h1 h2 h3 h4
    exact .inl ⟨hq,⟨h1,h2,h3⟩,h4⟩

lemma held_entry (he : e.state ≠ .unused → e.state ≠ .zombie → e.ready = true →
      (t c).state ≠ .unused ∧ (t c).state ≠ .zombie ∧ (t c).ready = true ∧ e.pgdir = (t c).pgdir)
    (q : Slot) (d : PgDir) (h : Held (update t c e) q d) : Held t q d := by
  rcases held_update h with ⟨-,h⟩ | ⟨rfl,h1,h2,h3,h4⟩
  · exact h
  · obtain ⟨k1,k2,k3,k4⟩ := he h1 h2 h3
    exact ⟨⟨k1,k3,k4 ▸ h4⟩,k2⟩

lemma held_woken {p : Slot} (hw : ∀ q, Ptable.Woken p (t q) (u q)) (q : Slot) (d : PgDir) (h : Held u q d) :
    Held t q d := ⟨⟨fun h' => h.used ((hw q).similar.unused.mpr h'),(hw q).ready ▸ h.ready,(hw q).pgdir ▸ h.pgdir⟩,
    fun h' => h.living ((hw q).zombie.mpr h')⟩

end

section
variable {s : State} {t : Ptable.State} {l : Ptable.Label}

lemma after_dir {d : PgDir} (h : t.alloc d = true) : (s.after l t).dir d = s.dir d := if_pos h

lemma sized_keep (hI : Sized s) (hS : Ptable.Space t) (hsz : s.newSz l = s.sz)
    (hh : ∀ q d, Held t.table q d → Held s.pt.table q d)
    (hc : ∀ p, works (t.ctl p) = true → t.ctl p = s.pt.ctl p) : Sized (s.after l t) := by
  have hz : (s.after l t).sz = s.sz := hsz
  refine ⟨hI.panic,fun hq hr => ?_,fun hq => ?_,fun {p c d} hp => ?_,fun {p d} hp => ?_⟩
  · rw [hz]
    exact hI.agree (hh _ _ hq) (hh _ _ hr)
  · rw [hz,after_dir (hS.alloc hq.toHolds)]
    exact hI.fills (hh _ _ hq)
  · have hp : t.ctl p = .copying c d := hp
    have hd : (t.ctl p).dir = some d := by rw [hp]; rfl
    rw [hz,after_dir (hS.work hd).1]
    exact hI.copy (by rw [← hc p (by rw [hp]; rfl),hp])
  · have hp : t.ctl p = .building d := hp
    have hd : (t.ctl p).dir = some d := by rw [hp]; rfl
    rw [after_dir (hS.work hd).1]
    exact hI.build (by rw [← hc p (by rw [hp]; rfl),hp])

lemma sized_give {c : Slot} {d : PgDir} {n : ℕ} (hI : Sized s) (hS : Ptable.Space t)
    (hsz : s.newSz l = update s.sz c n) (hn : n < kernBase) (hd : Fills (s.dir d) (npages n))
    (hh : ∀ q x, Held t.table q x → (q = c ∧ x = d) ∨ (q ≠ c ∧ Held s.pt.table q x))
    (hag : ∀ q, q ≠ c → Held s.pt.table q d → s.sz q = n)
    (hc : ∀ p, works (t.ctl p) = true → t.ctl p = s.pt.ctl p ∧ p ≠ c) : Sized (s.after l t) := by
  have hself : (s.after l t).sz c = n := (congrFun hsz c).trans (update_self ..)
  have hne : ∀ q, q ≠ c → (s.after l t).sz q = s.sz q := fun q hq =>
    (congrFun hsz q).trans (update_of_ne hq ..)
  refine ⟨hI.panic,fun {q r x} hq hr => ?_,fun {q x} hq => ?_,fun {p c' x} hp => ?_,fun {p x} hp => ?_⟩
  · rcases hh q x hq with ⟨rfl,rfl⟩ | ⟨hqc,hq'⟩ <;> rcases hh r x hr with ⟨rfl,hx⟩ | ⟨hrc,hr'⟩
    · rfl
    · rw [hself,hne r hrc,hag r hrc hr']
    · rw [hself,hne q hqc,hag q hqc (hx ▸ hq')]
    · rw [hne q hqc,hne r hrc]
      exact hI.agree hq' hr'
  · rw [after_dir (hS.alloc hq.toHolds)]
    rcases hh q x hq with ⟨rfl,rfl⟩ | ⟨hqc,hq'⟩
    · rw [hself]
      exact ⟨hn,hd⟩
    · rw [hne q hqc]
      exact hI.fills hq'
  · have hp : t.ctl p = .copying c' x := hp
    have hx : (t.ctl p).dir = some x := by rw [hp]; rfl
    obtain ⟨h1,h2⟩ := hc p (by rw [hp]; rfl)
    rw [hne p h2,after_dir (hS.work hx).1]
    exact hI.copy (by rw [← h1,hp])
  · have hp : t.ctl p = .building x := hp
    have hx : (t.ctl p).dir = some x := by rw [hp]; rfl
    obtain ⟨h1,-⟩ := hc p (by rw [hp]; rfl)
    rw [after_dir (hS.work hx).1]
    exact hI.build (by rw [← h1,hp])

end

variable {p : Slot}

lemma works_update {k : Slot → Ptable.Ctl} {x : Ptable.Ctl} (hx : works x = false) (q : Slot)
    (h : works (update k p x q) = true) : update k p x q = k q ∧ q ≠ p := by
  by_cases hq : q = p
  · rw [hq,update_self,hx] at h
    cases h
  · exact ⟨update_of_ne hq ..,hq⟩

variable {s s' : State}

/-- The steps of a process that begin no directory. -/
lemma sized_act {t : Ptable.State} {a : Ptable.Act} (hP : Ptable.Sharing s.pt)
    (hS : Ptable.Space t) (hI : Sized s) (hr : (s.pt.table p).state = .running)
    (ha : ∀ d, a ≠ .copy d ∧ a ≠ .execBuild d) (h : Ptable.Acts s.pt p a t) : Sized (s.after (.act p a) t) := by
  have hu : (s.pt.table p).state ≠ .unused := by rw [hr]; nofun
  have hready : (s.pt.table p).ready = true := hP.base.ready p hu (by rw [hr]; nofun)
  have hp : (s.pt.table p).state ≠ .unused ∧ (s.pt.table p).state ≠ .zombie ∧ (s.pt.table p).ready = true :=
    ⟨hu,by rw [hr]; nofun,hready⟩
  -- A process that works on a directory is alive, so it is nobody's new entry.
  have hwork : ∀ {c q}, (s.pt.ctl p).child = some c → works (s.pt.ctl q) = true → q ≠ c := by
    rintro c q hc hq rfl
    have hal := hP.base.alive q (by rintro h; rw [h] at hq; cases hq)
    rw [(hP.base.child p q hc).1] at hal
    cases hal
  cases h with
  | copy c d => exact ((ha d).1 rfl).elim
  | execBuild d => exact ((ha d).2 rfl).elim
  | noSlot _ ha =>
    rcases ha with rfl | rfl <;> exact sized_keep hI hS rfl (fun _ _ h => h) (fun _ _ => rfl)
  | fork c _ hc | clone c _ hc =>
    exact sized_keep hI hS rfl (held_entry (fun _ _ h => by cases h)) (fun q h => (works_update rfl q h).1)
  | forkFail c | cloneFail c | copyNone c | copyFail c d | reap z d | joinReap w z =>
    exact sized_keep hI hS rfl (held_entry (fun h => (h rfl).elim)) (fun q h => (works_update rfl q h).1)
  | forkFill c d hc =>
    have hch : (s.pt.ctl p).child = some c := by rw [hc]; rfl
    have hd : (s.pt.ctl p).dir = some d := by rw [hc]; rfl
    obtain ⟨hn,hf⟩ := hI.copy hc
    refine sized_give (c := c) hI hS ?_ hn hf (fun q x hq => ?_) (fun q _ hq => ?_) (fun q h => ?_)
    · simp only [newSz,hch]
    · rcases held_update hq with h | ⟨rfl,-,-,-,h⟩
      · exact .inr h
      · exact .inl ⟨rfl,(some.inj h).symm⟩
    · exact ((hP.space.work hd).2 q hq.toHolds).elim
    · obtain ⟨h1,-⟩ := works_update rfl q h
      exact ⟨h1,hwork hch (h1 ▸ h)⟩
  | cloneFill c hc =>
    have hch : (s.pt.ctl p).child = some c := by rw [hc]; rfl
    obtain ⟨d,hd⟩ := hP.space.own hu hready
    have hpd : Held s.pt.table p d := ⟨hd,hp.2.1⟩
    obtain ⟨hn,hf⟩ := hI.fills hpd
    refine sized_give (c := c) hI hS ?_ hn hf (fun q x hq => ?_) (fun q _ hq => hI.agree hq hpd) (fun q h => ?_)
    · simp only [newSz,hch]
    · rcases held_update hq with h | ⟨rfl,-,-,-,h⟩
      · exact .inr h
      · exact .inl ⟨rfl,some.inj (h.symm.trans hd.pgdir)⟩
    · obtain ⟨h1,-⟩ := works_update rfl q h
      exact ⟨h1,hwork hch (h1 ▸ h)⟩
  | execCommit d old hc ho =>
    have hd : (s.pt.ctl p).dir = some d := by rw [hc]; rfl
    obtain ⟨hn,hf⟩ := hI.build hc
    refine sized_give hI hS rfl hn hf (fun q x hq => ?_) (fun q _ hq => ?_) (works_update rfl)
    · rcases held_update hq with h | ⟨rfl,-,-,-,h⟩
      · exact .inr h
      · exact .inl ⟨rfl,(some.inj h).symm⟩
    · exact ((hP.space.work hd).2 q hq.toHolds).elim
  | start c hc =>
    obtain ⟨he,hrd⟩ := hP.base.child p c (by rw [hc]; rfl)
    rw [hc] at hrd
    exact sized_keep hI hS rfl (held_entry (fun _ _ _ => ⟨by rw [he]; nofun,by rw [he]; nofun,hrd,rfl⟩))
      (fun q h => (works_update rfl q h).1)
  | execBad d | execFree d | waitFail | joinFail =>
    exact sized_keep hI hS rfl (fun _ _ h => h) (fun q h => (works_update rfl q h).1)
  | exit _ _ _ ha =>
    have hk := held_woken (fun q => (Ptable.wakeup1_woken s.pt.table ((s.pt.table p).parent.map .proc) p q).trans
      (Ptable.reparents_woken p (List.finRange Ptable.nproc) _ q))
    rcases ha with rfl | rfl <;>
      exact sized_keep hI hS rfl (fun q d h => hk q d (held_entry (fun _ h => (h rfl).elim) q d h)) (fun _ _ => rfl)
  | threadExit =>
    have hk := held_woken (Ptable.wakeup1_woken s.pt.table ((s.pt.table p).parent.map .proc) p)
    exact sized_keep hI hS rfl (fun q d h => hk q d (held_entry (fun _ h => (h rfl).elim) q d h)) (fun _ _ => rfl)
  | waitSleep | joinSleep =>
    exact sized_keep hI hS rfl (held_entry (fun _ _ _ => ⟨hp.1,hp.2.1,hp.2.2,rfl⟩))
      (fun q h => (works_update rfl q h).1)
  | yield | block | fault =>
    exact sized_keep hI hS rfl (held_entry (fun _ _ _ => ⟨hp.1,hp.2.1,hp.2.2,rfl⟩)) (fun _ _ => rfl)

variable {l : Ptable.Label}

/-- The steps of the process table that begin no directory. -/
lemma sized_pt {t : Ptable.State} (hP : Ptable.Sharing s.pt)
    (hS : Ptable.Space t) (hI : Sized s) (hl : ∀ p d, l ≠ .act p (.copy d) ∧ l ≠ .act p (.execBuild d))
    (h : Ptable.Steps s.pt l t) : Sized (s.after l t) := by
  cases h with
  | act hr h =>
    next p a =>
    exact sized_act hP hS hI hr (fun d => ⟨fun h => (hl p d).1 (by rw [h]),fun h => (hl p d).2 (by rw [h])⟩) h
  | sched hr =>
    exact sized_keep hI hS rfl (held_entry (fun _ _ h => ⟨by rw [hr]; nofun,by rw [hr]; nofun,h,rfl⟩)) (fun _ _ => rfl)
  | killNone => exact sized_keep hI hS rfl (fun _ _ h => h) (fun _ _ => rfl)
  | kill =>
    next pid q =>
    have hs := Ptable.similar_kill (s.pt.table q)
    refine sized_keep hI hS rfl (held_entry (fun h1 h2 h3 => ⟨fun h => h1 (hs.unused.mpr h),fun h => h2 ?_,h3,rfl⟩))
      (fun _ _ => rfl)
    simp [Ptable.killEntry,h]
  | wakeup => exact sized_keep hI hS rfl (held_woken (Ptable.wakeup1_woken _ _ Ptable.initproc)) (fun _ _ => rfl)

lemma sized_work {k : Ptable.Ctl} (hP : Ptable.Sharing s.pt) (hI : Sized s)
    (hpanic : s'.panic = s.panic) (ht : s'.pt.table = s.pt.table) (hc : s'.pt.ctl = update s.pt.ctl p k)
    (hsz : s'.sz = s.sz) (himg : ∀ q, q ≠ p → s'.img q = s.img q)
    (hdir : ∀ x, s.pt.alloc x = true → s'.dir x = s.dir x)
    (hcopy : ∀ c x, k = .copying c x → s.sz p < kernBase ∧ Fills (s'.dir x) (npages (s.sz p)))
    (hbuild : ∀ x, k = .building x → s'.img p < kernBase ∧ Fills (s'.dir x) (npages (s'.img p))) : Sized s' := by
  refine ⟨by rw [hpanic]; exact hI.panic,fun hq hr => ?_,fun hq => ?_,fun {q c x} hq => ?_,fun {q x} hq => ?_⟩
  · rw [ht] at hq hr
    rw [hsz]
    exact hI.agree hq hr
  · rw [ht] at hq
    rw [hsz,hdir _ (hP.space.alloc hq.toHolds)]
    exact hI.fills hq
  · rw [hc] at hq
    rw [hsz]
    by_cases hqp : q = p
    · rw [hqp,update_self] at hq
      rw [hqp]
      exact hcopy c x hq
    · rw [update_of_ne hqp] at hq
      rw [hdir _ (hP.space.work (p := q) (by rw [hq]; rfl)).1]
      exact hI.copy hq
  · rw [hc] at hq
    by_cases hqp : q = p
    · rw [hqp,update_self] at hq
      rw [hqp]
      exact hbuild x hq
    · rw [update_of_ne hqp] at hq
      rw [himg q hqp,hdir _ (hP.space.work (p := q) (by rw [hq]; rfl)).1]
      exact hI.build hq

variable {D : Dir}

lemma growproc_spec {sz : ℕ} {n : Int32} (hs : sz < kernBase) (hD : Fills D (npages sz))
    (hn : n < 0 → (sz+n.toUInt32.toNat)%word ≠ 0) (h : Heap) :
    ∃ r E, growproc D sz n h = .ok (r,E) ∧ r.getD sz < kernBase ∧ Fills E (npages (r.getD sz)) := by
  unfold growproc
  by_cases hpos : 0 < n
  · obtain ⟨r,E,h',hr,hE⟩ := allocuvm_fills hs hD ((sz+n.toUInt32.toNat)%word) h
    simp only [if_pos hpos,hr,Except.map]
    rcases hE with ⟨rfl,hE⟩ | ⟨hmax,hlt,hE⟩
    · exact ⟨none,E,rfl,hs,hE⟩
    · by_cases hr0 : r = 0
      · exact ⟨none,E,by rw [if_pos hr0],hs,(show r = sz by omega) ▸ hE⟩
      · exact ⟨some r,E,by rw [if_neg hr0],hlt,hE⟩
  by_cases hneg : n < 0
  · obtain ⟨E,h',hr,hE⟩ := deallocuvm_fills (le_of_lt hs) hD ((sz+n.toUInt32.toNat)%word) h
    have hne := hn hneg
    simp only [if_neg hpos,if_pos hneg,hr,Except.map]
    by_cases hz : sz = 0
    · subst hz
      exact ⟨none,E,by rw [if_pos (by omega)],hs,by simpa using hE⟩
    · exact ⟨some (min sz ((sz+n.toUInt32.toNat)%word)),E,by rw [if_neg (by omega)],
        lt_of_le_of_lt (min_le_left ..) hs,hE⟩
  · simp only [if_neg hpos,if_neg hneg]
    exact ⟨some sz,D,rfl,hs,hD⟩

/-- No other entry that lives has the page directory of `p`. -/
def OnlyLiving (t : Ptable.Table) (p : Slot) : Prop :=
  ∀ q, (t q).state ≠ .unused → (t q).state ≠ .zombie → (t q).pgdir = (t p).pgdir → q = p

/-- The page directories are kept apart, and `sbrk` changes only the size of a process that shares
its address space with nobody, and not to zero. -/
def keepsSizes (s : State) : Label → Prop
  | .pt l => keepsSpaces s.pt l
  | .clone p _ => keepsSpaces s.pt (.act p .clone)
  | .copy p d _ => keepsSpaces s.pt (.act p (.copy d))
  | .exec p d _ _ => keepsSpaces s.pt (.act p (.execBuild d))
  | .sbrk p n _ => n = 0 ∨ (OnlyLiving s.pt.table p ∧ (n < 0 → (s.sz p+n.toUInt32.toNat)%word ≠ 0))

variable {d : PgDir}

lemma sized_sbrk {n : ℕ} (hP : Ptable.Sharing s.pt) (hI : Sized s)
    (hp : Held s.pt.table p d) (hu : s.pt.ctl p = .user) (hn : n < kernBase) (hD : Fills D (npages n))
    (honly : ∀ q, Held s.pt.table q d → q = p) : Sized {s with sz := update s.sz p n, dir := update s.dir d D} := by
  have hother : ∀ {q x}, Held s.pt.table q x → q ≠ p → x ≠ d := by
    rintro q x hq hne rfl
    exact hne (honly q hq)
  have hown : ∀ {x}, Held s.pt.table p x → x = d := fun h => some.inj (h.pgdir.symm.trans hp.pgdir)
  have hwork : ∀ {q x}, (s.pt.ctl q).dir = some x → x ≠ d := by
    rintro q x hq rfl
    exact (hP.space.work hq).2 p hp.toHolds
  have hctl : ∀ {q}, s.pt.ctl q ≠ .user → q ≠ p := by
    rintro q hq rfl
    exact hq hu
  refine ⟨hI.panic,fun {q r x} hq hr => ?_,fun {q x} hq => ?_,fun {q c x} hq => ?_,fun {q x} hq => ?_⟩
  · by_cases hqp : q = p
    · subst hqp
      cases hown hq
      rw [honly r hr]
    · have hrp : r ≠ p := by
        rintro rfl
        exact hother hq hqp (hown hr)
      change update s.sz p n q = update s.sz p n r
      rw [update_of_ne hqp,update_of_ne hrp]
      exact hI.agree hq hr
  · change update s.sz p n q < _ ∧ Fills (update s.dir d D x) (npages (update s.sz p n q))
    by_cases hqp : q = p
    · subst hqp
      cases hown hq
      rw [update_self,update_self]
      exact ⟨hn,hD⟩
    · rw [update_of_ne hqp,update_of_ne (hother hq hqp)]
      exact hI.fills hq
  · change update s.sz p n q < _ ∧ Fills (update s.dir d D x) (npages (update s.sz p n q))
    have hq : s.pt.ctl q = .copying c x := hq
    rw [update_of_ne (hctl (by rw [hq]; nofun)),update_of_ne (hwork (q := q) (by rw [hq]; rfl))]
    exact hI.copy hq
  · change _ ∧ Fills (update s.dir d D x) _
    have hq : s.pt.ctl q = .building x := hq
    rw [update_of_ne (hwork (q := q) (by rw [hq]; rfl))]
    exact hI.build hq

/-- What holds in every state of a run that meets `keepsSizes`. -/
structure Agreement (s : State) : Prop where
  sharing : Ptable.Sharing s.pt
  sized : Sized s

lemma ptStep_cases (h : s.ptStep l = some s') : ∃ t, Ptable.Steps s.pt l t ∧ s' = s.after l t := by
  obtain ⟨t,ht,rfl⟩ := map_eq_some_iff.mp h
  exact ⟨t,Ptable.step_cases ht,rfl⟩

lemma agreement_pt (hI : Agreement s) (hok : keepsSpaces s.pt l)
    (hl : ∀ p d, l ≠ .act p (.copy d) ∧ l ≠ .act p (.execBuild d)) (h : s.ptStep l = some s') : Agreement s' := by
  obtain ⟨t,ht,rfl⟩ := ptStep_cases h
  have hT := Ptable.sharing_step hI.sharing hok ht
  exact ⟨hT,sized_pt hI.sharing hT.space hI.sized hl ht⟩

lemma new_dir {d x : PgDir} (hd : s.pt.alloc d = false) (hx : s.pt.alloc x = true) :
    update (fun y => if update s.pt.alloc d true y then s.dir y else fun _ => none) d D x = s.dir x := by
  have hne : x ≠ d := by
    rintro rfl
    rw [hd] at hx
    cases hx
  rw [update_of_ne hne,update_of_ne hne,if_pos hx]

variable {h : Heap}

lemma agreement_copy (hI : Agreement s)
    (hok : keepsSizes s (.copy p d h)) (hs : s.step (.copy p d h) = some s') : Agreement s' := by
  rw [step,if_neg (by rw [hI.sized.panic]; nofun)] at hs
  split at hs
  · next c o hc ho =>
    have hal := hI.sharing.base.alive p (by rw [hc]; nofun)
    have hu : (s.pt.table p).state ≠ .unused := by rintro h; rw [h] at hal; cases hal
    have he : (s.pt.table p).state ≠ .embryo := by rintro h; rw [h] at hal; cases hal
    have hz : (s.pt.table p).state ≠ .zombie := by rintro h; rw [h] at hal; cases hal
    obtain ⟨hn,hf⟩ := hI.sized.fills ⟨⟨hu,hI.sharing.base.ready p hu he,ho⟩,hz⟩
    obtain ⟨r,h',hr,hx⟩ := copyuvm_spec (le_of_lt hn) hf h
    rw [hr] at hs
    cases r with
    | none => exact agreement_pt hI (l := .act p .copyFail) trivial (fun _ _ => ⟨nofun,nofun⟩) hs
    | some x =>
      obtain ⟨u,hu',rfl⟩ := map_eq_some_iff.mp hs
      obtain ⟨t,ht,rfl⟩ := ptStep_cases hu'
      refine ⟨Ptable.sharing_step hI.sharing (l := .act p (.copy d)) hok ht,?_⟩
      cases ht with
      | act hrun hact =>
        cases hact with
        | noSlot _ ha | exit _ _ _ ha => rcases ha with ha | ha <;> cases ha
        | copy c d hc hd =>
          refine sized_work hI.sharing hI.sized rfl rfl rfl rfl (fun _ _ => rfl) (fun x' hx' => ?_) (fun c x' h => ?_) nofun
          · exact new_dir hd hx'
          · cases h
            refine ⟨hn,?_⟩
            change Fills (update (after s _ _).dir d x.2 d) _
            rw [update_self]
            exact (hx x rfl).2.fills
  · cases hs

lemma agreement_exec {phs : List Proghdr} (hI : Agreement s)
    (hok : keepsSizes s (.exec p d phs h)) (hs : s.step (.exec p d phs h) = some s') : Agreement s' := by
  rw [step,if_neg (by rw [hI.sized.panic]; nofun)] at hs
  split_ifs at hs
  obtain ⟨r,h',hr,hx⟩ := execImage_spec phs h
  rw [hr] at hs
  cases r with
  | none => cases hs; exact hI
  | some x =>
    obtain ⟨u,hu',rfl⟩ := map_eq_some_iff.mp hs
    obtain ⟨t,ht,rfl⟩ := ptStep_cases hu'
    refine ⟨Ptable.sharing_step hI.sharing (l := .act p (.execBuild d)) hok ht,?_⟩
    cases ht with
    | act hrun hact =>
      cases hact with
      | noSlot _ ha | exit _ _ _ ha => rcases ha with ha | ha <;> cases ha
      | execBuild d hc hd =>
        refine sized_work hI.sharing hI.sized rfl rfl rfl rfl (fun q hq => update_of_ne hq ..)
          (fun x' hx' => ?_) nofun (fun x' h => ?_)
        · exact new_dir hd hx'
        · cases h
          change update s.img p x.1 p < _ ∧ Fills (update (after s _ _).dir d x.2 d)
            (npages (update s.img p x.1 p))
          rw [update_self,update_self]
          exact hx x rfl

lemma agreement_sbrk {n : Int32} (hI : Agreement s)
    (hok : keepsSizes s (.sbrk p n h)) (hs : s.step (.sbrk p n h) = some s') : Agreement s' := by
  rw [step,if_neg (by rw [hI.sized.panic]; nofun)] at hs
  split at hs
  · next d hd =>
    split_ifs at hs with hrun
    obtain ⟨hr,hu⟩ := hrun
    have hused : (s.pt.table p).state ≠ .unused := by rw [hr]; nofun
    have hp : Held s.pt.table p d := ⟨⟨hused,hI.sharing.base.ready p hused (by rw [hr]; nofun),hd⟩,by rw [hr]; nofun⟩
    obtain ⟨hn,hf⟩ := hI.sized.fills hp
    rcases hok with rfl | ⟨honly,hok⟩
    · have hgrow : growproc (s.dir d) (s.sz p) 0 h = .ok (some (s.sz p),s.dir d) := rfl
      rw [hgrow] at hs
      simp only [getD_some,update_eq_self] at hs
      cases hs
      exact hI
    · obtain ⟨r,E,hr,hlt,hE⟩ := growproc_spec hn hf hok h
      rw [hr] at hs
      cases hs
      exact ⟨hI.sharing,sized_sbrk hI.sharing hI.sized hp hu hlt hE (fun q hq =>
        honly q hq.used hq.living (hq.pgdir.trans hd.symm))⟩
  · cases hs

lemma agreement_step {l : Label} (hI : Agreement s) (hok : keepsSizes s l)
    (hs : s.step l = some s') : Agreement s' := by
  cases l with
  | copy p d h => exact agreement_copy hI hok hs
  | exec p d phs h => exact agreement_exec hI hok hs
  | sbrk p n h => exact agreement_sbrk hI hok hs
  | pt l =>
    rw [step,if_neg (by rw [hI.sized.panic]; nofun)] at hs
    split_ifs at hs with hl
    refine agreement_pt hI hok (fun p d => ⟨?_,?_⟩) hs <;> (rintro rfl; cases hl)
  | clone p stack =>
    rw [step,if_neg (by rw [hI.sized.panic]; nofun)] at hs
    split_ifs at hs
    · cases hs; exact hI
    · exact agreement_pt hI (l := .act p .clone) hok (fun _ _ => ⟨nofun,nofun⟩) hs

lemma agreement_initial (hD : Fills D 1) : Agreement (initial D) := by
  have hheld : ∀ {q d}, Held (initial D).pt.table q d → q = Ptable.initproc ∧ d = 0 :=
    fun h => Ptable.holds_initial h.toHolds
  refine ⟨Ptable.sharing_initial,rfl,fun hq hr => ?_,fun hq => ?_,nofun,nofun⟩
  · rw [(hheld hq).1,(hheld hr).1]
  · obtain ⟨rfl,rfl⟩ := hheld hq
    have hz : (initial D).sz Ptable.initproc = pgSize := rfl
    rw [hz]
    exact ⟨by decide,hD⟩

lemma reach_agreement (h : machine.ReachWhile keepsSizes s) : Agreement s :=
  System.ReachWhile.invariant (I := Agreement)
    (by
      rintro s ⟨h,D,hg,hD,rfl⟩
      exact agreement_initial (userinit_fills hg hD))
    (fun _ _ _ hI hok hs => agreement_step hI hok hs) h

/-- In every run in which `sbrk` changes only the size of a process that shares its address space
with nobody and never to zero, and page directories are not freed or reused under their users, all
entries that live and have one page directory have the same size, its user pages are those of that
size, and none of the panics on page tables happens. A slot that `fork` or `clone` has just taken
may still have the freed directory of its last user. -/
theorem sizes_agree {s : State} (h : machine.ReachWhile keepsSizes s) :
    s.panic = none ∧ ∀ q r d, (s.pt.table q).state ≠ .unused → (s.pt.table q).state ≠ .zombie →
      (s.pt.table r).state ≠ .unused → (s.pt.table r).state ≠ .zombie →
      (s.pt.table q).pgdir = some d → (s.pt.table r).pgdir = some d → (∀ c, ¬Leftover s.pt.table c d) →
      s.sz q = s.sz r ∧ ∀ v < 2^19, (ent (s.dir d) v).isSome = true ↔ 4096*v < pgRoundUp (s.sz q) := by
  have hA := reach_agreement h
  refine ⟨hA.sized.panic,fun q r d hq hq' hr hr' hqd hrd hl => ?_⟩
  -- What has the directory and is no leftover has been given it.
  have hheld : ∀ {x}, (s.pt.table x).state ≠ .unused → (s.pt.table x).state ≠ .zombie →
      (s.pt.table x).pgdir = some d → Held s.pt.table x d := by
    intro x hu hz hd
    cases hrd : (s.pt.table x).ready with
    | true => exact ⟨⟨hu,hrd,hd⟩,hz⟩
    | false => exact (hl x (Ptable.leftover_of_not_ready hA.sharing.base hu hd hrd)).elim
  obtain ⟨hlt,hf⟩ := hA.sized.fills (hheld hq hq' hqd)
  refine ⟨hA.sized.agree (hheld hq hq' hqd) (hheld hr hr' hrd),fun v hv => ?_⟩
  rw [hf.isSome_iff hv,pgRoundUp_page (Nat.le_of_lt hlt)]
  omega

/-- The result of `setupkvm`. -/
def kernelOf (h : Heap) : (ℕ × Dir) × Heap :=
  match setupkvm h with
  | .ok (some x,h) => (x,h)
  | _ => ((0,fun _ => none),h)

/-- The directory `K` of the kernel with one user page. -/
def onePage (K : Dir) (h : Heap) : Dir :=
  update K 0 (some ⟨h.supply 1,update (fun _ => none) 0 (some ⟨h.supply 0,⟨true,true⟩⟩)⟩)

lemma mappages_zero {K : Dir} (hK : K 0 = none) (mem : ℕ) (hg : h.Good) : ∃ h', mappages K 0 pgSize mem ⟨true,true⟩ h =
      .ok (true,update K 0 (some ⟨h.supply 0,update (fun _ => none) 0 (some ⟨mem,⟨true,true⟩⟩)⟩),h') := by
  have hlast : pgRoundDown ((0+pgSize-1)%word) = 0 := by decide
  obtain ⟨p,hp⟩ := exists_eq_succ_of_ne_zero (hg 0)
  refine ⟨⟨fun n => h.supply (n+1),h.freed⟩,?_⟩
  unfold mappages
  simp only [show pgRoundDown 0 = 0 by decide,hlast,rounds,mapBody,walkpgdir,show pdx 0 = 0 by decide,hK,kalloc,
    hp,setPte,show ptx 0 = 0 by decide,if_true,update_idem]

lemma userinit_eq (hg : h.Good) : userinit h = some (onePage (kernelOf h).1.2 (kernelOf h).2) := by
  obtain ⟨r,h1,hr,hgood,hx⟩ := setupkvm_spec h
  obtain ⟨hsome,hg1⟩ := hgood hg
  cases r with
  | none => cases hsome
  | some x =>
    have hK : kernelOf h = (x,h1) := by
      unfold kernelOf
      simp only [hr]
    obtain ⟨p,hp⟩ := exists_eq_succ_of_ne_zero (hg1 0)
    obtain ⟨h3,hm⟩ := mappages_zero ((hx x rfl).2 0 (by decide)) (p+1)
      (h := ⟨fun n => h1.supply (n+1),h1.freed⟩) (fun n => hg1 (n+1))
    rw [hK]
    unfold userinit
    simp only [hr,kalloc,hp,hm,onePage]

/-- What `kalloc` returns when a machine starts. -/
def bootHeap : Heap := ⟨fun n => 4096*(n+1),[]⟩

def bootDir : Dir := onePage (kernelOf bootHeap).1.2 (kernelOf bootHeap).2

lemma boot_init : machine.init (initial bootDir) :=
  have hg : bootHeap.Good := fun _ => mul_ne_zero (by decide) (succ_ne_zero _)
  ⟨bootHeap,bootDir,hg,userinit_eq hg,rfl⟩

instance (t : Ptable.Table) (p : Slot) : Decidable (OnlyLiving t p) := by
  unfold OnlyLiving
  infer_instance

instance (s : State) (l : Label) : Decidable (keepsSizes s l) := by
  unfold keepsSizes
  cases l <;> infer_instance

/-- The first process grows, and then creates a thread. -/
theorem sizes_agree_after_clone : ∃ s, machine.ReachWhile keepsSizes s ∧ s.panic = none ∧
    s.sz 0 = 8192 ∧ s.sz 1 = 8192 ∧ (s.pt.table 1).state = .running ∧
    ∀ v < 2^19, (ent (s.dir 0) v).isSome = true ↔ 4096*v < pgRoundUp (s.sz 1) := by
  obtain ⟨s,hs,h0,h1,hr,hd,hl⟩ := System.reachWhile_of_exec (M := machine) (fun s l => decide (keepsSizes s l))
    (fun _ _ h => of_decide_eq_true h) (s := initial bootDir)
    [.pt (.sched 0),.sbrk 0 4096 ⟨fun n => 4096*(n+1000),[]⟩,.clone 0 4096,.pt (.act 0 .cloneFill),
     .pt (.act 0 .start),.pt (.sched 1)]
    (fun s => s.sz 0 = 8192 ∧ s.sz 1 = 8192 ∧ (s.pt.table 1).state = .running ∧
      (s.pt.table 1).pgdir = some 0 ∧ ∀ c, ¬Leftover s.pt.table c 0)
    boot_init (by decide +kernel)
  have h := sizes_agree hs
  exact ⟨s,hs,h.1,h0,h1,hr,(h.2 1 1 0 (by rw [hr]; nofun) (by rw [hr]; nofun) (by rw [hr]; nofun)
    (by rw [hr]; nofun) hd hd hl).2⟩

/-- A thread calls `sbrk(4096)`: its creator has the same page directory but not the same size, and
when it calls `sbrk(4096)` as well, `mappages` panics. -/
theorem thread_sbrk_remap : (∃ s, machine.Reachable s ∧ s.panic = none ∧ (s.pt.table 0).state = .running ∧
      (s.pt.table 1).state = .running ∧ (s.pt.table 0).pgdir = some 0 ∧ (s.pt.table 1).pgdir = some 0 ∧
      s.sz 0 = 4096 ∧ s.sz 1 = 8192) ∧ ∃ s, machine.Reachable s ∧ s.panic = some .remap := by
  constructor
  · exact System.reachable_of_exec (M := machine)
      [.pt (.sched 0),.clone 0 0,.pt (.act 0 .cloneFill),.pt (.act 0 .start),.pt (.sched 1),
       .sbrk 1 4096 ⟨fun n => 4096*(n+1000),[]⟩]
      _
      boot_init (by decide +kernel)
  · exact System.reachable_of_exec (M := machine)
      [.pt (.sched 0),.clone 0 0,.pt (.act 0 .cloneFill),.pt (.act 0 .start),.pt (.sched 1),
       .sbrk 1 4096 ⟨fun n => 4096*(n+1000),[]⟩,.sbrk 0 4096 ⟨fun n => 4096*(n+2000),[]⟩]
      _ boot_init (by decide +kernel)

end Xv6Threads.Vm
