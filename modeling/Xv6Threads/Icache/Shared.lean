import Xv6Threads.Foundations.Counting
import Xv6Threads.Icache.Local

/-! What all processes share: an entry that is in use, valid and not locked has the fields of its dinode. A step of one
process makes true what its rules say and leaves what the others know. -/
namespace Xv6Threads.Icache
open Function Local

section
variable {D : Disk} {i j : ℕ} {x : Inode}

lemma dinode_put_self : dinode (putDinode D i x) i = x := by simp [dinode,putDinode]

lemma dinode_put_ne (h : j ≠ i) : dinode (putDinode D i x) j = dinode D j := by
  unfold dinode putDinode
  by_cases hb : iblock j = iblock i
  · have hp : place j ≠ place i := fun hp => by
      have := congrArg Fin.val hp
      simp only [place,iblock] at this hb
      omega
    rw [hb,update_self,update_of_ne hp]
  · rw [update_of_ne hb]

end

variable {P : Type} [DecidableEq P] [Fintype P]

/-- The fields of an entry are those of its dinode. -/
def Clean (s : State P) (k : Slot) : Prop :=
  (s.slot k).fields = dinode s.disk (s.slot k).inum ∧ (s.slot k).fields.type ≠ 0

/-- The references to an entry: those of open files and those of processes. -/
def refs (s : State P) (k : Slot) : ℕ :=
  total (fun _ o => if o = some k then 1 else 0) s.file+total (fun _ l => l.count k) s.held

structure Inv (s : State P) : Prop where
  one : ∀ j k, 0 < (s.slot j).ref → 0 < (s.slot k).ref → (s.slot j).inum = (s.slot k).inum → j = k
  clean : ∀ k, 0 < (s.slot k).ref → (s.slot k).lock = none → (s.slot k).valid = true → Clean s k
  noHoles : ∀ i, NoHoles (dinode s.disk i)
  count : ∀ k, (s.slot k).ref = refs s k

/-- What `p` knows is true. -/
structure View (s : State P) (p : P) (l : Local) : Prop where
  own : s.held p = l.own
  file : l.file = (s.inuse p).bind s.file
  isOpen : ∀ f, s.inuse p = some f → s.file f ≠ none
  locks : ∀ k, (s.slot k).lock = some p ↔ l.held k ≠ none
  pinned : ∀ k, l.held k ≠ none → k ∈ l.own ∨ l.file = some k
  fresh : ∀ k, l.held k = some .fresh → (s.slot k).valid = true → Clean s k
  known : ∀ k x y, l.held k = some (.known x y) → (s.slot k).valid = true ∧ (s.slot k).fields = x ∧
    (y.type ≠ 0 → dinode s.disk (s.slot k).inum = y)

variable {s t : State P} {p q : P} {l : Local} {k : Slot}

omit [DecidableEq P] in
lemma View.ref_pos (hv : View s p l) (hi : Inv s) (hk : k ∈ l.own ∨ l.file = some k) : 0 < (s.slot k).ref := by
  rw [hi.count,refs]
  rcases hk with hk | hk
  · have := weight_le_total (fun (_ : P) (l : List Slot) => l.count k) s.held p
    rw [← hv.own] at hk
    have := List.count_pos_iff.mpr hk
    omega
  · rw [hv.file] at hk
    obtain ⟨f,-,hf⟩ := Option.bind_eq_some_iff.mp hk
    have := weight_le_total (fun (_ : FileId) (o : Option Slot) => if o = some k then 1 else 0) s.file f
    rw [if_pos hf] at this
    omega

omit [DecidableEq P] in
lemma View.locked_pos (hv : View s p l) (hi : Inv s) (hk : l.held k ≠ none) : 0 < (s.slot k).ref :=
  hv.ref_pos hi (hv.pinned k hk)

omit [DecidableEq P] [Fintype P] in
lemma View.frame (hv : View s q l) (hheld : t.held q = s.held q) (huse : t.inuse q = s.inuse q)
    (hfile : ∀ f, s.inuse q = some f → t.file f = s.file f)
    (hlock : ∀ k, (t.slot k).lock = some q ↔ (s.slot k).lock = some q)
    (hslot : ∀ k, l.held k ≠ none → (t.slot k).inum = (s.slot k).inum ∧ (t.slot k).valid = (s.slot k).valid ∧
      (t.slot k).fields = (s.slot k).fields)
    (hdisk : ∀ k, l.held k ≠ none → (dinode s.disk (s.slot k).inum).type ≠ 0 →
      dinode t.disk (s.slot k).inum = dinode s.disk (s.slot k).inum) : View t q l where
  own := hheld.trans hv.own
  file := by
    rw [hv.file,huse]
    cases hq : s.inuse q with
    | none => rfl
    | some f => exact (hfile f hq).symm
  isOpen f hf := by
    rw [huse] at hf
    rw [hfile f hf]
    exact hv.isOpen f hf
  locks k := (hlock k).trans (hv.locks k)
  pinned := hv.pinned
  fresh k hk hval := by
    have hne := ne_none hk
    obtain ⟨h1,h2,h3⟩ := hslot k hne
    obtain ⟨h4,h5⟩ := hv.fresh k hk (h2 ▸ hval)
    rw [h4] at h5
    rw [Clean,h1,h3,hdisk k hne h5,h4]
    exact ⟨rfl,h5⟩
  known k x y hk := by
    have hne := ne_none hk
    obtain ⟨h1,h2,h3⟩ := hslot k hne
    obtain ⟨h4,h5,h6⟩ := hv.known k x y hk
    refine ⟨h2.trans h4,h3.trans h5,fun hy => ?_⟩
    have h7 := h6 hy
    rw [h1,hdisk k hne (by rwa [h7]),h7]

section
variable {e : Entry P}

omit [DecidableEq P] [Fintype P] in
lemma slot_put_self : (s.put k e).slot k = e := update_self ..

omit [DecidableEq P] [Fintype P] in
lemma slot_put_ne {j : Slot} (h : j ≠ k) : (s.put k e).slot j = s.slot j := update_of_ne h ..

omit [DecidableEq P] in
lemma Inv.put (hi : Inv s) (hinum : e.inum = (s.slot k).inum) (href : e.ref = (s.slot k).ref)
    (hclean : e.lock = none → e.valid = true → e.fields = dinode s.disk e.inum ∧ e.fields.type ≠ 0) : Inv (s.put k e) := by
  have hsame : ∀ j, ((s.put k e).slot j).inum = (s.slot j).inum ∧ ((s.put k e).slot j).ref = (s.slot j).ref := fun j => by
    by_cases hj : j = k
    · rw [hj,slot_put_self]
      exact ⟨hinum,href⟩
    · rw [slot_put_ne hj]
      exact ⟨rfl,rfl⟩
  refine ⟨fun a b ha hb hab => ?_,fun j hj hlock hval => ?_,hi.noHoles,fun j => ?_⟩
  · rw [(hsame a).2] at ha
    rw [(hsame b).2] at hb
    rw [(hsame a).1,(hsame b).1] at hab
    exact hi.one a b ha hb hab
  · by_cases hjk : j = k
    · subst hjk
      rw [slot_put_self] at hlock hval
      rw [Clean,slot_put_self]
      exact hclean hlock hval
    · rw [slot_put_ne hjk] at hj hlock hval
      have := hi.clean j hj hlock hval
      rw [Clean,slot_put_ne hjk]
      exact this
  · rw [(hsame j).2]
    exact hi.count j

section
omit [DecidableEq P] [Fintype P]

lemma View.ne_of_lock (hv : View s q l) {o : Option P} (hk : (s.slot k).lock = o) (ho : o ≠ some q) {j : Slot}
    (hj : l.held j ≠ none) : j ≠ k := by
  rintro rfl
  exact ho (hk.symm.trans ((hv.locks j).mpr hj))

lemma View.put (hv : View s q l) (hl : (s.slot k).lock ≠ some q) (he : e.lock ≠ some q) : View (s.put k e) q l := by
  refine hv.frame rfl rfl (fun _ _ => rfl) (fun j => ?_) (fun j hj => ?_) (fun _ _ _ => rfl)
  · by_cases hj : j = k
    · subst hj
      rw [slot_put_self]
      exact ⟨fun h => absurd h he,fun h => absurd h hl⟩
    · rw [slot_put_ne hj]
  · rw [slot_put_ne (hv.ne_of_lock rfl hl hj)]
    exact ⟨rfl,rfl,rfl⟩

lemma slot_reref (r : ℕ) (j : Slot) : ((s.put k { s.slot k with ref := r }).slot j).lock = (s.slot j).lock ∧
    ((s.put k { s.slot k with ref := r }).slot j).inum = (s.slot j).inum ∧
    ((s.put k { s.slot k with ref := r }).slot j).valid = (s.slot j).valid ∧
    ((s.put k { s.slot k with ref := r }).slot j).fields = (s.slot j).fields := by
  by_cases hj : j = k
  · rw [hj,slot_put_self]
    exact ⟨rfl,rfl,rfl,rfl⟩
  · rw [slot_put_ne hj]
    exact ⟨rfl,rfl,rfl,rfl⟩

lemma View.put_ref (hv : View s q l) (r : ℕ) : View (s.put k { s.slot k with ref := r }) q l :=
  hv.frame rfl rfl (fun _ _ => rfl) (fun j => by rw [(slot_reref r j).1]) (fun j _ => (slot_reref r j).2) (fun _ _ _ => rfl)

lemma View.set (hv : View s p l) {h : Option Held} (hk : l.held k ≠ none ∨ k ∈ l.own ∨ l.file = some k)
    (hlock : e.lock = some p ↔ h ≠ none) (hfresh : h = some .fresh → e.valid = true →
      e.fields = dinode s.disk e.inum ∧ e.fields.type ≠ 0)
    (hknown : ∀ x y, h = some (.known x y) → e.valid = true ∧ e.fields = x ∧ (y.type ≠ 0 → dinode s.disk e.inum = y)) :
    View (s.put k e) p (l.set k h) where
  own := hv.own
  file := hv.file
  isOpen := hv.isOpen
  locks j := by
    by_cases hj : j = k
    · subst hj
      rw [slot_put_self,set_held]
      exact hlock
    · rw [slot_put_ne hj,set_ne hj]
      exact hv.locks j
  pinned j hj := by
    by_cases hjk : j = k
    · subst hjk
      exact hk.elim (hv.pinned j) id
    · rw [set_ne hjk] at hj
      exact hv.pinned j hj
  fresh j hj hval := by
    by_cases hjk : j = k
    · subst hjk
      rw [set_held] at hj
      rw [slot_put_self] at hval
      rw [Clean,slot_put_self]
      exact hfresh hj hval
    · rw [set_ne hjk] at hj
      rw [slot_put_ne hjk] at hval
      have := hv.fresh j hj hval
      rw [Clean,slot_put_ne hjk]
      exact this
  known j x y hj := by
    by_cases hjk : j = k
    · subst hjk
      rw [set_held] at hj
      rw [slot_put_self]
      exact hknown x y hj
    · rw [set_ne hjk] at hj
      rw [slot_put_ne hjk]
      exact hv.known j x y hj

end

end

section
variable {o : List Slot}

lemma refs_hold (j : Slot) : refs (s.hold p o) j+(s.held p).count j = refs s j+o.count j := by
  have := total_update (fun (_ : P) (l : List Slot) => l.count j) s.held p o
  unfold refs
  rw [show (s.hold p o).file = s.file from rfl,show (s.hold p o).held = update s.held p o from rfl]
  omega

lemma Inv.reref (hi : Inv s) {r : ℕ} (hr : 0 < r → 0 < (s.slot k).ref)
    (hcount : ∀ j, (if j = k then r else (s.slot j).ref)+(s.held p).count j = (s.slot j).ref+o.count j) :
    Inv ((s.put k { s.slot k with ref := r }).hold p o) := by
  have href : ∀ j, ((s.put k { s.slot k with ref := r }).slot j).ref = if j = k then r else (s.slot j).ref := fun j => by
    split_ifs with hj
    · rw [hj,slot_put_self]
    · rw [slot_put_ne hj]
  have hpos : ∀ j, 0 < ((s.put k { s.slot k with ref := r }).slot j).ref → 0 < (s.slot j).ref := fun j hj => by
    rw [href j] at hj
    split_ifs at hj with hjk
    · rw [hjk]
      exact hr hj
    · exact hj
  refine ⟨fun a b ha hb hab => ?_,fun j hj hlock hval => ?_,hi.noHoles,fun j => ?_⟩
  · exact hi.one a b (hpos a ha) (hpos b hb) ((slot_reref r a).2.1.symm.trans (hab.trans (slot_reref r b).2.1))
  · obtain ⟨h1,h2,h3,h4⟩ := slot_reref (s := s) (k := k) r j
    obtain ⟨h5,h6⟩ := hi.clean j (hpos j hj) (h1.symm.trans hlock) (h3.symm.trans hval)
    rw [← h2,← h4] at h5
    rw [← h4] at h6
    exact ⟨h5,h6⟩
  · have h1 := refs_hold (s := s.put k { s.slot k with ref := r }) (p := p) (o := o) j
    have h2 := hcount j
    have h3 := hi.count j
    rw [← href j] at h2
    change _+(s.held p).count j = refs s j+_ at h1
    change ((s.put k { s.slot k with ref := r }).slot j).ref = _
    omega

omit [Fintype P] in
lemma View.hold_other (hv : View s q l) (hq : q ≠ p) : View (s.hold p o) q l :=
  hv.frame (update_of_ne hq ..) rfl (fun _ _ => rfl) (fun _ => Iff.rfl) (fun _ _ => ⟨rfl,rfl,rfl⟩) fun _ _ _ => rfl

omit [Fintype P] in
lemma View.hold_self (hv : View s p l) (ho : ∀ k, l.held k ≠ none → k ∈ l.own → k ∈ o) :
    View (s.hold p o) p { l with own := o } where
  own := update_self ..
  file := hv.file
  isOpen := hv.isOpen
  locks := hv.locks
  pinned k hk := (hv.pinned k hk).imp_left (ho k hk)
  fresh := hv.fresh
  known := hv.known

end

end Xv6Threads.Icache
