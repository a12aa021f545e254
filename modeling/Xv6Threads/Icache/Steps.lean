import Xv6Threads.Icache.Shared

/-! A step of a process makes true what its rules say, keeps the invariant of the table, and leaves what the other
processes know. -/
namespace Xv6Threads.Icache
open Function List Option Local

variable {P : Type} [DecidableEq P] [Fintype P] {s t : State P} {p q : P} {l : Local} {k : Slot}

/-- What a step of `p` with reply `r` comes to. -/
def Stepped (s : State P) (p : P) (l : Local) (i : Instr) (r : i.Reply) (t : State P) : Prop :=
  (∃ l', post i l r l' ∧ View t p l') ∧ Inv t ∧ ∀ q lq, q ≠ p → View s q lq → View t q lq

variable {i : Instr} {r : i.Reply}

omit [DecidableEq P] in
lemma stepped_same {l' : Local} (hi : Inv s) (hpost : post i l r l') (hv : View s p l') :
    Stepped s p l i r s := ⟨⟨l',hpost,hv⟩,hi,fun _ _ _ h => h⟩

omit [DecidableEq P] in
lemma stepped_put {e : Entry P} {h : Option Held} (hi : Inv s) (hv : View s p l)
    (hpost : post i l r (l.set k h)) (hk : l.held k ≠ none ∨ k ∈ l.own ∨ l.file = some k)
    (hmine : ∀ q, q ≠ p → (s.slot k).lock ≠ some q) (hinum : e.inum = (s.slot k).inum) (href : e.ref = (s.slot k).ref)
    (hlock : (h = none ∧ e.lock = none) ∨ (h ≠ none ∧ e.lock = some p))
    (hfresh : (h = some .fresh ∨ h = none) → e.valid = true → e.fields = dinode s.disk e.inum ∧ e.fields.type ≠ 0)
    (hknown : ∀ x y, h = some (.known x y) → e.valid = true ∧ e.fields = x ∧ (y.type ≠ 0 → dinode s.disk e.inum = y)) :
    Stepped s p l i r (s.put k e) := by
  refine ⟨⟨_,hpost,hv.set hk ?_ (fun h => hfresh (.inl h)) hknown⟩,hi.put hinum href fun hnone hval => ?_,
    fun q lq hq hvq => hvq.put (hmine q hq) ?_⟩
  · rcases hlock with ⟨h1,h2⟩ | ⟨h1,h2⟩
    · rw [h1,h2]
      exact ⟨nofun,fun h => absurd rfl h⟩
    · exact ⟨fun _ => h1,fun _ => h2⟩
  · rcases hlock with ⟨h1,-⟩ | ⟨-,h2⟩
    · exact hfresh (.inr h1) hval
    · rw [hnone] at h2
      cases h2
  · rcases hlock with ⟨-,h2⟩ | ⟨-,h2⟩ <;> rw [h2]
    · nofun
    · exact fun h => hq (some.inj h).symm

lemma stepped_ref {m : ℕ} {o : List Slot} (hi : Inv s) (hv : View s p l)
    (hpost : post i l r { l with own := o }) (hm : 0 < m → 0 < (s.slot k).ref)
    (hcount : ∀ j, (if j = k then m else (s.slot j).ref)+(s.held p).count j = (s.slot j).ref+o.count j)
    (ho : ∀ k, l.held k ≠ none → k ∈ l.own → k ∈ o) :
    Stepped s p l i r ((s.put k { s.slot k with ref := m }).hold p o) :=
  ⟨⟨_,hpost,(hv.put_ref m).hold_self ho⟩,hi.reref hm hcount,fun _ _ hq hvq => (hvq.put_ref m).hold_other hq⟩

section
omit [DecidableEq P] [Fintype P]

lemma View.locked (hv : View s p l) (hk : l.held k ≠ none) : (s.slot k).lock = some p ∧
    ∀ q, q ≠ p → (s.slot k).lock ≠ some q := by
  have := (hv.locks k).mpr hk
  exact ⟨this,fun q hq h => hq (some.inj (h.symm.trans this))⟩

lemma View.disk {D : Disk} (hv : View s q l) (h : ∀ k, l.held k ≠ none → (dinode s.disk (s.slot k).inum).type ≠ 0 →
      dinode D (s.slot k).inum = dinode s.disk (s.slot k).inum) : View { s with disk := D } q l :=
  hv.frame rfl rfl (fun _ _ => rfl) (fun _ => Iff.rfl) (fun _ _ => ⟨rfl,rfl,rfl⟩) h

lemma View.recycle {e : Entry P} (hv : View s q l) (hk : ∀ j, l.held j ≠ none → j ≠ k) (he : e.lock = (s.slot k).lock) :
    View (s.put k e) q l := by
  refine hv.frame rfl rfl (fun _ _ => rfl) (fun j => ?_) (fun j hj => ?_) (fun _ _ _ => rfl)
  · by_cases hj : j = k
    · rw [hj,slot_put_self,he]
    · rw [slot_put_ne hj]
  · rw [slot_put_ne (hk j hj)]
    exact ⟨rfl,rfl,rfl⟩

end

lemma Inv.recycle {i : ℕ} (hi : Inv s) (hk : (s.slot k).ref = 0)
    (hno : ∀ j, 0 < (s.slot j).ref → (s.slot j).inum ≠ i) :
    Inv ((s.put k { s.slot k with inum := i, ref := 1, valid := false }).hold p (k :: s.held p)) := by
  generalize he : ({ s.slot k with inum := i, ref := 1, valid := false } : Entry P) = e
  have hself : ((s.put k e).hold p (k :: s.held p)).slot k = e := slot_put_self
  have hother : ∀ j, j ≠ k → ((s.put k e).hold p (k :: s.held p)).slot j = s.slot j := fun j hj => slot_put_ne hj
  refine ⟨fun a b ha hb hab => ?_,fun j hj hlock hval => ?_,hi.noHoles,fun j => ?_⟩
  · by_cases hak : a = k <;> by_cases hbk : b = k
    · rw [hak,hbk]
    · rw [hak,hself,hother b hbk,← he] at hab
      rw [hother b hbk] at hb
      exact absurd hab.symm (hno b hb)
    · rw [hbk,hself,hother a hak,← he] at hab
      rw [hother a hak] at ha
      exact absurd hab (hno a ha)
    · rw [hother a hak] at ha hab
      rw [hother b hbk] at hb hab
      exact hi.one a b ha hb hab
  · by_cases hjk : j = k
    · rw [hjk,hself,← he] at hval
      cases hval
    · rw [hother j hjk] at hj hlock hval
      have := hi.clean j hj hlock hval
      rw [Clean,hother j hjk]
      exact this
  · have h1 := refs_hold (s := s.put k e) (p := p) (o := k :: s.held p) j
    have h2 := hi.count j
    change _+(s.held p).count j = refs s j+_ at h1
    rw [count_cons] at h1
    by_cases hjk : j = k
    · subst hjk
      have href : e.ref = 1 := by rw [← he]
      rw [hself,href]
      simp only [beq_self_eq_true,if_true] at h1
      omega
    · rw [hother j hjk]
      rw [if_neg (by simpa using Ne.symm hjk)] at h1
      omega

omit [DecidableEq P] [Fintype P] in
lemma count_cons_ref {o : List Slot} (j : Slot) :
    (if j = k then (s.slot k).ref+1 else (s.slot j).ref)+o.count j = (s.slot j).ref+(k :: o).count j := by
  rw [count_cons]
  by_cases hj : j = k
  · subst hj
    simp only [if_true,beq_self_eq_true]
    omega
  · rw [if_neg hj,if_neg (by simpa using Ne.symm hj)]
    omega

section
variable (hi : Inv s) (hv : View s p l)
include hi hv

lemma step_iget {i : ℕ} {r : Slot} (h : s.iget p i = some (r,t)) : Stepped s p l (.iget i) r t := by
  have hpost : post (.iget i) l r { l with own := r :: s.held p } := by
    change _ = _
    rw [hv.own]
  unfold State.iget at h
  split at h
  case h_1 k hk =>
    cases h
    obtain ⟨hpos,-⟩ : 0 < (s.slot r).ref ∧ (s.slot r).inum = i := by simpa using find?_some hk
    refine stepped_ref hi hv hpost (fun _ => hpos) count_cons_ref fun j _ hj => ?_
    rw [hv.own]
    exact mem_cons_of_mem r hj
  case h_2 hnone =>
    split at h
    case h_2 => cases h
    case h_1 k hk =>
      cases h
      have hfree : (s.slot r).ref = 0 := by simpa using find?_some hk
      have hno : ∀ j, 0 < (s.slot j).ref → (s.slot j).inum ≠ i := fun j hj hij => by
        have := find?_eq_none.mp hnone j (mem_finRange j)
        simp [hj,hij] at this
      have hne : ∀ {q lq}, View s q lq → ∀ j, lq.held j ≠ none → j ≠ r := fun hvq j hj hjr => by
        have := hvq.locked_pos hi hj
        rw [hjr] at this
        omega
      have hlock : ({ s.slot r with inum := i, ref := 1, valid := false } : Entry P).lock = (s.slot r).lock := rfl
      refine ⟨⟨_,hpost,(hv.recycle (hne hv) hlock).hold_self fun j _ hj => ?_⟩,hi.recycle hfree hno,
        fun q lq hq hvq => (hvq.recycle (hne hvq) hlock).hold_other hq⟩
      rw [hv.own]
      exact mem_cons_of_mem r hj

variable {r : Unit}

lemma step_idup (hk : k ∈ l.own) :
    Stepped s p l (.idup k) r ((s.put k { s.slot k with ref := (s.slot k).ref+1 }).hold p (k :: s.held p)) := by
  refine stepped_ref hi hv ?_ (fun _ => hv.ref_pos hi (.inl hk)) count_cons_ref fun j _ hj => ?_
  · change _ = _
    rw [hv.own]
  · rw [hv.own]
    exact mem_cons_of_mem k hj

lemma step_drop (hk : k ∈ l.own) (hnone : l.held k = none) :
    Stepped s p l (.drop k) r ((s.put k { s.slot k with ref := (s.slot k).ref-1 }).hold p ((s.held p).erase k)) := by
  have hpos := hv.ref_pos hi (.inl hk)
  refine stepped_ref hi hv ?_ (fun _ => hpos) (fun j => ?_) fun j hj hmem => ?_
  · change _ = _
    rw [hv.own]
  · rw [← hv.own] at hk
    have := count_pos_iff.mpr hk
    by_cases hj : j = k
    · subst hj
      rw [if_pos rfl,count_erase_self]
      omega
    · rw [if_neg hj,count_erase_of_ne hj]
  · rw [hv.own]
    refine (mem_erase_of_ne ?_).mpr hmem
    rintro rfl
    exact hj hnone

omit [DecidableEq P] in
lemma step_acquiresleep (hk : k ∈ l.own ∨ l.file = some k) (hfree : (s.slot k).lock = none) :
    Stepped s p l (.acquiresleep k) r (s.put k { s.slot k with lock := some p }) := by
  have hnone : l.held k = none := by
    by_contra hne
    have := (hv.locks k).mpr hne
    rw [hfree] at this
    cases this
  refine stepped_put hi hv ⟨hnone,rfl⟩ (.inr hk) (fun q _ h => ?_) rfl rfl (.inr ⟨nofun,rfl⟩) (fun _ hval => ?_) nofun
  · rw [hfree] at h
    cases h
  · exact hi.clean k (hv.ref_pos hi hk) hfree hval

omit [DecidableEq P] in
lemma step_releasesleep (hk : l.held k = some .fresh ∨ ∃ x, l.held k = some (.known x x) ∧ x.type ≠ 0) :
    Stepped s p l (.releasesleep k) r (s.put k { s.slot k with lock := none }) := by
  have hne : l.held k ≠ none := by
    rcases hk with h | ⟨x,h,-⟩ <;> rw [h] <;> nofun
  refine stepped_put hi hv rfl (.inl hne) (hv.locked hne).2 rfl rfl (.inl ⟨rfl,rfl⟩) (fun _ hval => ?_) nofun
  rcases hk with h | ⟨x,h,hx⟩
  · exact hv.fresh k h hval
  · obtain ⟨-,h1,h2⟩ := hv.known k x x h
    change (s.slot k).fields = dinode s.disk (s.slot k).inum ∧ (s.slot k).fields.type ≠ 0
    rw [h1,h2 hx]
    exact ⟨rfl,hx⟩

end

omit [DecidableEq P] [Fintype P] in
lemma put_same : s.put k (s.slot k) = s := by
  unfold State.put
  rw [update_eq_self]

section
variable (hi : Inv s) (hv : View s p l)
include hi hv

section
omit [DecidableEq P]

lemma stepped_valid (hk : l.held k = some .fresh) (hval : (s.slot k).valid = true)
    (hpost : ∀ x, Good x → post i l r (l.set k (some (.known x x)))) : Stepped s p l i r s := by
  have hne := ne_none hk
  obtain ⟨h1,h2⟩ := hv.fresh k hk hval
  have hgood : Good (s.slot k).fields := ⟨h2,by rw [h1]; exact hi.noHoles _⟩
  refine stepped_same hi (hpost _ hgood) ?_
  have := hv.set (e := s.slot k) (h := some (.known (s.slot k).fields (s.slot k).fields)) (.inl hne)
    ⟨nofun,fun _ => (hv.locked hne).1⟩ nofun fun x y h => ?_
  · rwa [put_same] at this
  · cases h
    exact ⟨hval,rfl,fun _ => h1.symm⟩

variable {r : Unit}

lemma step_load (hk : l.held k = some .fresh) (h : s.load k = some t) : Stepped s p l (.load k) r t := by
  have hne := ne_none hk
  unfold State.load at h
  split_ifs at h with hval htype
  · cases h
    exact stepped_valid hi hv hk hval fun x hx => ⟨x,hx,rfl⟩
  · cases h
    refine stepped_put hi hv ⟨_,⟨htype,hi.noHoles _⟩,rfl⟩ (.inl hne) (hv.locked hne).2 rfl rfl
      (.inr ⟨nofun,(hv.locked hne).1⟩) nofun fun x y h => ?_
    cases h
    exact ⟨rfl,rfl,fun _ => rfl⟩

variable {x y : Inode}

lemma step_write {e : Edit} (hk : l.held k = some (.known x y)) :
    Stepped s p l (.write k e) r (s.put k { s.slot k with fields := e.apply (s.slot k).fields }) := by
  have hne := ne_none hk
  obtain ⟨h1,h2,h3⟩ := hv.known k x y hk
  refine stepped_put hi hv ⟨x,y,hk,rfl⟩ (.inl hne) (hv.locked hne).2 rfl rfl (.inr ⟨nofun,(hv.locked hne).1⟩)
    nofun fun x' y' h => ?_
  cases h
  exact ⟨h1,by rw [h2],h3⟩

lemma step_invalidate (hk : l.held k = some (.known x y)) :
    Stepped s p l (.invalidate k) r (s.put k { s.slot k with valid := false }) := by
  have hne := ne_none hk
  exact stepped_put hi hv rfl (.inl hne) (hv.locked hne).2 rfl rfl (.inr ⟨nofun,(hv.locked hne).1⟩) nofun nofun

lemma step_iupdate (hk : l.held k = some (.known x y))
    (hx : NoHoles x) : Stepped s p l (.iupdate k) r (s.iupdate k) := by
  have hne := ne_none hk
  have hpos := hv.locked_pos hi hne
  obtain ⟨h1,h2,-⟩ := hv.known k x y hk
  have hother : ∀ j, j ≠ k → 0 < (s.slot j).ref → dinode (s.iupdate k).disk (s.slot j).inum = dinode s.disk (s.slot j).inum :=
    fun j hj hr => dinode_put_ne fun h => hj (hi.one j k hr hpos h)
  refine ⟨⟨_,⟨x,y,hk,rfl⟩,?_⟩,⟨hi.one,fun j hj hlock hval => ?_,fun i => ?_,hi.count⟩,fun q lq hq hvq => ?_⟩
  · refine ⟨hv.own,hv.file,hv.isOpen,fun j => ?_,fun j hj => ?_,fun j hj hval => ?_,fun j x' y' hj => ?_⟩
    · by_cases hjk : j = k
      · subst hjk
        rw [set_held]
        exact ⟨nofun,fun _ => (hv.locked hne).1⟩
      · rw [set_ne hjk]
        exact hv.locks j
    · by_cases hjk : j = k
      · subst hjk
        exact hv.pinned j hne
      · rw [set_ne hjk] at hj
        exact hv.pinned j hj
    · by_cases hjk : j = k
      · subst hjk
        rw [set_held] at hj
        cases hj
      · rw [set_ne hjk] at hj
        have hr := hv.locked_pos hi (ne_none hj)
        obtain ⟨h4,h5⟩ := hv.fresh j hj hval
        exact ⟨h4.trans (hother j hjk hr).symm,h5⟩
    · by_cases hjk : j = k
      · subst hjk
        rw [set_held] at hj
        cases hj
        refine ⟨h1,h2,fun _ => ?_⟩
        exact dinode_put_self.trans h2
      · rw [set_ne hjk] at hj
        have hr := hv.locked_pos hi (ne_none hj)
        obtain ⟨h4,h5,h6⟩ := hv.known j x' y' hj
        exact ⟨h4,h5,fun hy => (hother j hjk hr).trans (h6 hy)⟩
  · have hjk : j ≠ k := by
      rintro rfl
      have := hlock.symm.trans (hv.locked hne).1
      cases this
    obtain ⟨h4,h5⟩ := hi.clean j hj hlock hval
    exact ⟨h4.trans (hother j hjk hj).symm,h5⟩
  · by_cases hik : i = (s.slot k).inum
    · subst hik
      change NoHoles (dinode (putDinode _ _ _) _)
      rw [dinode_put_self,h2]
      exact hx
    · change NoHoles (dinode (putDinode _ _ _) _)
      rw [dinode_put_ne hik]
      exact hi.noHoles i
  · exact hvq.disk fun j hj _ => hother j (hvq.ne_of_lock rfl ((hv.locked hne).2 q hq) hj) (hvq.locked_pos hi hj)

lemma step_claim {i type : ℕ} {r : Bool} (hfree : (dinode s.disk i).type = 0) :
    Stepped s p l (.claim i type) r { s with disk := putDinode s.disk i (.blank type) } := by
  have hother : ∀ j, (dinode s.disk j).type ≠ 0 → dinode (putDinode s.disk i (.blank type)) j = dinode s.disk j :=
    fun j hj => dinode_put_ne fun h => hj (h ▸ hfree)
  refine ⟨⟨l,rfl,hv.disk fun j _ => hother _⟩,⟨hi.one,fun j hj hlock hval => ?_,fun j => ?_,hi.count⟩,
    fun q lq _ hvq => hvq.disk fun j _ => hother _⟩
  · obtain ⟨h1,h2⟩ := hi.clean j hj hlock hval
    exact ⟨h1.trans (hother _ (h1 ▸ h2)).symm,h2⟩
  · by_cases hji : j = i
    · rw [hji,dinode_put_self]
      exact fun bn hbn => by cases hbn
    · rw [dinode_put_ne hji]
      exact hi.noHoles j

end

end

section
variable {f : FileId} {o : Option Slot}

omit [DecidableEq P] [Fintype P] in
lemma View.refile (hv : View s q l) (hf : s.inuse q ≠ some f) : View { s with file := update s.file f o } q l := by
  refine hv.frame rfl rfl (fun g hg => ?_) (fun _ => Iff.rfl) (fun _ _ => ⟨rfl,rfl,rfl⟩) fun _ _ _ => rfl
  refine update_of_ne ?_ _ _
  rintro rfl
  exact hf hg

omit [DecidableEq P] in
lemma refs_file (j : Slot) : refs { s with file := update s.file f o } j+(if s.file f = some j then 1 else 0) =
    refs s j+(if o = some j then 1 else 0) := by
  have := total_update (fun (_ : FileId) (o : Option Slot) => if o = some j then 1 else 0) s.file f o
  unfold refs
  dsimp only at this ⊢
  omega

lemma Inv.refile {m : List Slot} (hi : Inv s)
    (hcount : ∀ j, (if o = some j then 1 else 0)+m.count j = (if s.file f = some j then 1 else 0)+(s.held p).count j) :
    Inv (({ s with file := update s.file f o } : State P).hold p m) := by
  refine ⟨hi.one,hi.clean,hi.noHoles,fun j => ?_⟩
  have h1 := refs_hold (s := { s with file := update s.file f o }) (p := p) (o := m) j
  have h2 := refs_file (s := s) (f := f) (o := o) j
  have h3 := hcount j
  have h4 : (s.slot j).ref = refs s j := hi.count j
  change (s.slot j).ref = _
  dsimp only at h1
  omega

lemma step_setIp {r : Unit} (hi : Inv s) (hv : View s p l) (hk : k ∈ l.own) (hnone : l.held k = none)
    (hf : s.file f = none) : Stepped s p l (.setIp f k) r
      (({ s with file := update s.file f (some k) } : State P).hold p ((s.held p).erase k)) := by
  have hidle : ∀ {q lq}, View s q lq → s.inuse q ≠ some f := fun hvq h => hvq.isOpen f h hf
  refine ⟨⟨{ l with own := (s.held p).erase k },?_,(hv.refile (hidle hv)).hold_self fun j hj hmem => ?_⟩,
    hi.refile fun j => ?_,fun q lq hq hvq => (hvq.refile (hidle hvq)).hold_other hq⟩
  · change _ = _
    rw [hv.own]
  · rw [hv.own]
    refine (mem_erase_of_ne ?_).mpr hmem
    rintro rfl
    exact hj hnone
  · rw [← hv.own] at hk
    have := count_pos_iff.mpr hk
    simp only [hf,reduceCtorEq,if_false,some.injEq]
    by_cases hj : j = k
    · subst hj
      rw [if_pos rfl,count_erase_self]
      omega
    · rw [if_neg (Ne.symm hj),count_erase_of_ne hj]

lemma step_fileclose {r : Option Slot} {c : ℕ} (hi : Inv s) (hv : View s p l)
    (h : handle p c (.fileclose f) s = some (r,t)) : Stepped s p l (.fileclose f) r t := by
  rw [handle] at h
  split_ifs at h with hc hbusy
  · cases h
    exact stepped_same hi (.inl ⟨rfl,rfl⟩) hv
  · cases hk : s.file f with
    | none =>
      rw [hk] at h
      cases h
      exact stepped_same hi (.inl ⟨rfl,rfl⟩) hv
    | some k =>
      rw [hk] at h
      cases h
      have hidle : ∀ q, s.inuse q ≠ some f := fun q h => hbusy ⟨q,h⟩
      refine ⟨⟨{ l with own := k :: s.held p },.inr ⟨k,rfl,?_⟩,(hv.refile (hidle p)).hold_self fun j hj hmem => ?_⟩,
        hi.refile fun j => ?_,fun q lq hq hvq => (hvq.refile (hidle q)).hold_other hq⟩
      · rw [hv.own]
      · rw [hv.own]
        exact mem_cons_of_mem k hmem
      · simp only [hk,count_cons,reduceCtorEq,if_false,some.injEq,beq_iff_eq]
        omega

omit [Fintype P] in
lemma View.inuse_other (hv : View s q l) (hq : q ≠ p) (u : Option FileId) :
    View { s with inuse := update s.inuse p u } q l :=
  hv.frame rfl (update_of_ne hq ..) (fun _ _ => rfl) (fun _ => Iff.rfl) (fun _ _ => ⟨rfl,rfl,rfl⟩)
    fun _ _ _ => rfl

lemma step_useFile {r : Option Slot} {c : ℕ} (hi : Inv s) (hv : View s p l) (hl : l.file = none)
    (h : handle p c (.useFile f) s = some (r,t)) : Stepped s p l (.useFile f) r t := by
  rw [handle] at h
  cases hk : s.file f with
  | none =>
    rw [hk] at h
    cases h
    exact stepped_same hi (.inl ⟨rfl,rfl⟩) hv
  | some k =>
    rw [hk] at h
    cases h
    refine ⟨⟨{ l with file := some k },.inr ⟨k,rfl,rfl⟩,?_⟩,⟨hi.one,hi.clean,hi.noHoles,hi.count⟩,
      fun q lq hq hvq => hvq.inuse_other hq _⟩
    refine ⟨hv.own,?_,fun g hg => ?_,hv.locks,fun j hj => ?_,hv.fresh,hv.known⟩
    · simp [hk]
    · simp only [update_self,some.injEq] at hg
      subst hg
      simp [hk]
    · refine .inl ((hv.pinned j hj).resolve_right ?_)
      rw [hl]
      nofun

lemma step_doneFile {r : Unit} (hi : Inv s) (hv : View s p l) (hl : ∀ k, l.file = some k → l.held k = none) :
    Stepped s p l .doneFile r { s with inuse := update s.inuse p none } := by
  refine ⟨⟨{ l with file := none },rfl,?_⟩,⟨hi.one,hi.clean,hi.noHoles,hi.count⟩,fun q lq hq hvq => hvq.inuse_other hq _⟩
  refine ⟨hv.own,?_,fun g hg => ?_,hv.locks,fun j hj => .inl ?_,hv.fresh,hv.known⟩
  · simp
  · simp at hg
  · exact (hv.pinned j hj).resolve_right fun h => hj (hl j h)

end

/-- Each instruction does what its rule says. -/
lemma handle_stepped {c : ℕ} (hi : Inv s) (hv : View s p l) (hpre : pre i l)
    (h : handle p c i s = some (r,t)) : Stepped s p l i r t := by
  cases i with
  | iget i => exact step_iget hi hv h
  | idup k =>
    cases h
    exact step_idup hi hv hpre
  | checkRef k =>
    obtain ⟨-,h⟩ := ite_none_left_eq_some.mp h
    cases h
    exact stepped_same hi rfl hv
  | acquiresleep k =>
    obtain ⟨hfree,h⟩ := ite_none_right_eq_some.mp h
    cases h
    exact step_acquiresleep hi hv hpre hfree
  | releasesleep k =>
    obtain ⟨-,h⟩ := ite_none_right_eq_some.mp h
    cases h
    exact step_releasesleep hi hv hpre
  | load k =>
    obtain ⟨t',ht,heq⟩ := map_eq_some_iff.mp h
    cases heq
    exact step_load hi hv hpre ht
  | fields k =>
    cases h
    obtain ⟨x,y,hk⟩ := hpre
    obtain ⟨-,rfl,-⟩ := hv.known k x y hk
    exact stepped_same hi ⟨⟨y,hk⟩,rfl⟩ hv
  | valid k =>
    cases h
    cases hval : (s.slot k).valid with
    | false => exact stepped_same hi (.inl ⟨rfl,rfl⟩) hv
    | true => exact stepped_valid hi hv hpre hval fun x hx => .inr ⟨rfl,x,hx,rfl⟩
  | ref k | choose =>
    cases h
    exact stepped_same hi rfl hv
  | write k e =>
    cases h
    obtain ⟨x,y,hk⟩ := hpre
    exact step_write hi hv hk
  | iupdate k =>
    cases h
    obtain ⟨x,y,hk,-,hx⟩ := hpre
    exact step_iupdate hi hv hk hx
  | invalidate k =>
    cases h
    obtain ⟨x,y,hk⟩ := hpre
    exact step_invalidate hi hv hk
  | drop k =>
    cases h
    exact step_drop hi hv hpre.1 hpre.2
  | claim i type =>
    rw [handle] at h
    split_ifs at h with hfree
    · cases h
      exact step_claim hi hv hfree
    · cases h
      exact stepped_same hi rfl hv
  | balloc =>
    obtain ⟨hc,h⟩ := ite_none_left_eq_some.mp h
    cases h
    exact stepped_same hi ⟨hc,rfl⟩ hv
  | useFile f => exact step_useFile hi hv hpre h
  | doneFile =>
    cases h
    exact step_doneFile hi hv hpre
  | setIp f k =>
    obtain ⟨hf,h⟩ := ite_none_right_eq_some.mp h
    cases h
    exact step_setIp hi hv hpre.1 hpre.2 hf
  | fileclose f => exact step_fileclose hi hv h
  | stop => cases h

end Xv6Threads.Icache
