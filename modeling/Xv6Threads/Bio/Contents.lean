import Xv6Threads.Bio.Uses

/-! Who holds the lock of a buffer, the requests to the disk, and the data: a buffer that is valid has
what was last installed, and the disk has it where no buffer is dirty. -/
namespace Xv6Threads.Bio
open Function List Option Buf Pc
variable {U V : Type}

/-- The owner of a lock is the use that holds it. -/
def Owned (s : State U V) : Prop := ∀ u b, (s.buf b).owner = some u ↔ (s.pc u).locked = some b

section
variable {s t : State U V} {b : Slot}

lemma Owned.eq (h : Owned s) {u v : U} (hu : (s.pc u).locked = some b) (hv : (s.pc v).locked = some b) : v = u :=
  some.inj (((h v b).mpr hv).symm.trans ((h u b).mpr hu))

lemma owned_same (h : Owned s) (hl : ∀ v, (t.pc v).locked = (s.pc v).locked) (ho : ∀ c, (t.buf c).owner = (s.buf c).owner) :
    Owned t := by
  intro u b
  rw [hl u,ho b]
  exact h u b

variable [DecidableEq U]

lemma owned_lock {u : U} (h : Owned s) (hu : s.pc u = .locking b) (ho : (s.buf b).owner = none) :
    Owned ((s.put b {s.buf b with owner := some u}).goto u (.check b)) := by
  intro v c
  change (update s.buf b _ c).owner = some v ↔ (update s.pc u (.check b) v).locked = some c
  have hnone : (s.pc u).locked = none := by
    rw [hu]
    rfl
  by_cases hc : c = b
  · subst hc
    rw [update_self]
    by_cases hv : v = u
    · rw [hv,update_self]
      exact ⟨fun _ => rfl,fun _ => rfl⟩
    · rw [update_of_ne hv,← h v c,ho]
      exact ⟨fun he => absurd (some.inj he).symm hv,nofun⟩
  · rw [update_of_ne hc]
    by_cases hv : v = u
    · rw [hv,update_self,h u c,hnone]
      exact ⟨nofun,fun he => absurd (some.inj he).symm hc⟩
    · rw [update_of_ne hv]
      exact h v c

lemma owned_unlock {u : U} (h : Owned s) (hu : (s.pc u).locked = some b) :
    Owned ((s.put b {s.buf b with owner := none}).goto u (.releasing b)) := by
  intro v c
  change (update s.buf b _ c).owner = some v ↔ (update s.pc u (.releasing b) v).locked = some c
  by_cases hv : v = u
  · subst hv
    rw [update_self]
    refine ⟨fun he => ?_,nofun⟩
    by_cases hc : c = b
    · rw [hc,update_self] at he
      cases he
    · rw [update_of_ne hc,h v c,hu] at he
      exact absurd (some.inj he).symm hc
  · rw [update_of_ne hv]
    by_cases hc : c = b
    · subst hc
      rw [update_self]
      exact ⟨nofun,fun he => absurd (h.eq hu he) hv⟩
    · rw [update_of_ne hc]
      exact h v c

lemma owned_step {l : Label U V} (h : Owned s) (hm : Moves s l t) : Owned t := by
  cases hm with
  | hit u dev blockno b hu hk | recycle u dev blockno b hu hnone href hd | change u b m v hu | logWrite u b m hu =>
    exact owned_same h (update_pc locked (hu ▸ rfl)) (update_field owner rfl)
  | lock u b hu ho => exact owned_lock h hu ho
  | found u b hv hu =>
    refine owned_same h (update_pc locked ?_) fun _ => rfl
    rcases hu with hu | ⟨hu | hu,_⟩ <;> rw [hu] <;> rfl
  | read u b t hu hv ht =>
    obtain rfl := iderw_spec ht
    exact owned_same h (update_pc locked (hu ▸ rfl)) fun _ => rfl
  | bwrite u b m t hu ht =>
    obtain rfl := iderw_spec ht
    exact owned_same h (update_pc locked (hu ▸ rfl)) (update_field owner rfl)
  | unlock u b hu => exact owned_unlock h (by rw [hu]; rfl)
  | release u b hu =>
    refine owned_same h (fun v => ?_) fun c => ?_
    · change (update (release s b).pc u .idle v).locked = _
      rw [release_pc]
      exact update_pc locked (hu ▸ rfl) v
    · change ((release s b).buf c).owner = _
      rw [release_buf]
      refine update_field owner ?_ c
      rfl
  | intr t ht =>
    rcases ideintr_spec ht with rfl | ⟨b,q,_,rfl⟩
    · exact h
    · exact owned_same h (fun _ => rfl) (update_field owner rfl)

lemma reach_owned {ok : State U V → Label U V → Prop} (h : (cache U V).ReachWhile ok s) : Owned s := by
  refine h.invariant (I := Owned) (fun s hs u b => ?_) fun s l t hs _ ht => owned_step hs (step_moves ht)
  rw [(hs.buf b).2.2.2.2.2,hs.pc u]
  exact ⟨nofun,nofun⟩

end

/-- The flags, and the requests in the queue with those who wait for them. -/
structure Flow (s : State U V) : Prop where
  valid : ∀ b, (s.buf b).dirty = true → (s.buf b).valid = true
  held : ∀ u b m, s.pc u = .holding b m → (s.buf b).valid = true
  nodup : s.queue.Nodup
  mem : ∀ b ∈ s.queue, ∃ u, (s.pc u = .reading b ∧ (s.buf b).valid = false) ∨ (s.pc u = .writing b ∧ (s.buf b).dirty = true)

section
variable {s t : State U V}

variable {b : Slot}

lemma Flow.waiting (h : Flow s) (hb : b ∈ s.queue) : ∃ u, (s.pc u).locked = some b ∧ ∀ m, s.pc u ≠ .holding b m := by
  obtain ⟨u,⟨hu,_⟩ | ⟨hu,_⟩⟩ := h.mem b hb
  · exact ⟨u,by rw [hu]; rfl,fun m => by rw [hu]; nofun⟩
  · exact ⟨u,by rw [hu]; rfl,fun m => by rw [hu]; nofun⟩

lemma Flow.notMem (h : Flow s) (ho : Owned s) {u : U} (hu : (s.pc u).locked = some b)
    (hr : s.pc u ≠ .reading b) (hw : s.pc u ≠ .writing b) : b ∉ s.queue := by
  intro hb
  obtain ⟨v,⟨hv,_⟩ | ⟨hv,_⟩⟩ := h.mem b hb
  · exact hr (ho.eq hu (by rw [hv]; rfl) ▸ hv)
  · exact hw (ho.eq hu (by rw [hv]; rfl) ▸ hv)

variable [DecidableEq U]

lemma flow_goto {u : U} {x : Pc} (h : Flow s) (hpc : t.pc = update s.pc u x) (hq : t.queue = s.queue)
    (hv : ∀ c, (t.buf c).valid = (s.buf c).valid) (hd : ∀ c, (t.buf c).dirty = (s.buf c).dirty)
    (hx : ∀ b m, x = .holding b m → (s.buf b).valid = true) (hr : ∀ b, s.pc u = .reading b → (s.buf b).valid = true)
    (hw : ∀ b, s.pc u = .writing b → (s.buf b).dirty = false) : Flow t := by
  refine ⟨fun b hb => ?_,fun v b m hb => ?_,by rw [hq]; exact h.nodup,fun b hb => ?_⟩
  · rw [hd b] at hb
    rw [hv b]
    exact h.valid b hb
  · rw [hv b]
    rw [hpc] at hb
    by_cases hvu : v = u
    · rw [hvu,update_self] at hb
      exact hx b m hb
    · rw [update_of_ne hvu] at hb
      exact h.held v b m hb
  · rw [hq] at hb
    obtain ⟨v,hm⟩ := h.mem b hb
    refine ⟨v,?_⟩
    have hvu : v ≠ u := by
      rintro rfl
      rcases hm with ⟨hp,hf⟩ | ⟨hp,hf⟩
      · rw [hr b hp] at hf
        cases hf
      · rw [hw b hp] at hf
        cases hf
    rw [hpc,update_of_ne hvu,hv b,hd b]
    exact hm

omit [DecidableEq U] in
lemma flow_put {x : Buf U V} (h : Flow s) (hb : b ∉ s.queue) (hx : x.dirty = true → x.valid = true)
    (hheld : ∀ u m, s.pc u = .holding b m → x.valid = true) : Flow (s.put b x) := by
  refine ⟨fun c hc => ?_,fun u c m hu => ?_,h.nodup,fun c hc => ?_⟩
  · change (update s.buf b x c).valid = true
    change (update s.buf b x c).dirty = true at hc
    by_cases hcb : c = b
    · rw [hcb,update_self] at hc ⊢
      exact hx hc
    · rw [update_of_ne hcb] at hc ⊢
      exact h.valid c hc
  · change (update s.buf b x c).valid = true
    by_cases hcb : c = b
    · rw [hcb,update_self]
      exact hheld u m (hcb ▸ hu)
    · rw [update_of_ne hcb]
      exact h.held u c m hu
  · obtain ⟨u,hm⟩ := h.mem c hc
    refine ⟨u,?_⟩
    change (_ ∧ (update s.buf b x c).valid = false) ∨ (_ ∧ (update s.buf b x c).dirty = true)
    have hcb : c ≠ b := fun hcb => hb (hcb ▸ hc)
    rw [update_of_ne hcb]
    exact hm

variable {D : ℕ → ℕ → V}

lemma flow_enqueue {u : U} {x : Pc} (h : Flow s) (hb : b ∉ s.queue)
    (hr : ∀ c, s.pc u ≠ .reading c) (hw : ∀ c, s.pc u ≠ .writing c)
    (hx : (x = .reading b ∧ (s.buf b).valid = false) ∨ (x = .writing b ∧ (s.buf b).dirty = true)) :
    Flow ({s with queue := s.queue++[b], disk := D}.goto u x) := by
  refine ⟨h.valid,fun v c m hv => ?_,?_,fun c hc => ?_⟩
  · change update s.pc u x v = _ at hv
    by_cases hvu : v = u
    · rw [hvu,update_self] at hv
      rcases hx with ⟨rfl,_⟩ | ⟨rfl,_⟩ <;> cases hv
    · rw [update_of_ne hvu] at hv
      exact h.held v c m hv
  · exact nodup_append_comm.mp (nodup_cons.mpr ⟨hb,h.nodup⟩)
  · change ∃ v, (update s.pc u x v = _ ∧ _) ∨ (update s.pc u x v = _ ∧ _)
    rcases mem_append.mp hc with hc | hc
    · obtain ⟨v,hm⟩ := h.mem c hc
      refine ⟨v,?_⟩
      have hvu : v ≠ u := by
        rintro rfl
        rcases hm with ⟨hp,_⟩ | ⟨hp,_⟩
        · exact hr c hp
        · exact hw c hp
      rw [update_of_ne hvu]
      exact hm
    · obtain rfl := mem_singleton.mp hc
      refine ⟨u,?_⟩
      rw [update_self]
      exact hx

omit [DecidableEq U] in
lemma flow_served {q : List Slot} (h : Flow s) (hq : s.queue = b :: q) : Flow {served s b q with disk := D} := by
  have hnodup := h.nodup
  rw [hq] at hnodup
  obtain ⟨hb,hq'⟩ := nodup_cons.mp hnodup
  refine ⟨fun c hc => ?_,fun u c m hu => ?_,hq',fun c hc => ?_⟩
  · change (update s.buf b _ c).valid = true
    change (update s.buf b _ c).dirty = true at hc
    by_cases hcb : c = b
    · rw [hcb,update_self]
    · rw [update_of_ne hcb] at hc ⊢
      exact h.valid c hc
  · change (update s.buf b _ c).valid = true
    by_cases hcb : c = b
    · rw [hcb,update_self]
    · rw [update_of_ne hcb]
      exact h.held u c m hu
  · obtain ⟨u,hm⟩ := h.mem c (by rw [hq]; exact mem_cons_of_mem _ hc)
    refine ⟨u,?_⟩
    change (_ ∧ (update s.buf b _ c).valid = false) ∨ (_ ∧ (update s.buf b _ c).dirty = true)
    have hcb : c ≠ b := fun hcb => hb (hcb ▸ hc)
    rw [update_of_ne hcb]
    exact hm

variable {devs : ℕ → Prop}

lemma flow_step [Fintype U] {l : Label U V} (h : Flow s) (ho : Owned s) (hc : Counted devs s)
    (hm : Moves s l t) : Flow t := by
  cases hm with
  | hit u dev blockno b hu hk | lock u b hu ho' | unlock u b hu =>
    exact flow_goto h rfl rfl (update_field valid rfl) (update_field dirty rfl) nofun (by rw [hu]; nofun)
      (by rw [hu]; nofun)
  | recycle u dev blockno b hu hnone href hd =>
    have hb : b ∉ s.queue := by
      intro hb
      obtain ⟨v,⟨hv,_⟩ | ⟨hv,_⟩⟩ := h.mem b hb
      · exact hc.unused href v (by rw [hv]; rfl)
      · exact hc.unused href v (by rw [hv]; rfl)
    refine flow_goto (flow_put h hb (x := {s.buf b with
      dev := dev, blockno := blockno, valid := false, dirty := false, refcnt := 1}) nofun fun v m hv => ?_) rfl rfl (fun _ => rfl)
      (fun _ => rfl) nofun (fun c hc' => ?_) fun c hc' => ?_
    · exact absurd (by rw [hv]; rfl) (hc.unused href v)
    · cases hu.symm.trans hc'
    · cases hu.symm.trans hc'
  | found u b hv hu =>
    refine flow_goto h rfl rfl (fun _ => rfl) (fun _ => rfl) (fun c m hx => ?_) (fun c hc' => ?_) fun c hc' => ?_
    · cases hx
      exact hv
    · rcases hu with hu | ⟨hu | hu,hd⟩ <;> rw [hu] at hc' <;> cases hc'
      exact hv
    · rcases hu with hu | ⟨hu | hu,hd⟩ <;> rw [hu] at hc' <;> cases hc'
      exact hd
  | read u b t hu hv ht =>
    obtain rfl := iderw_spec ht
    have hb : b ∉ s.queue := h.notMem ho (by rw [hu]; rfl) (by rw [hu]; nofun) (by rw [hu]; nofun)
    exact flow_enqueue h hb (by rw [hu]; nofun) (by rw [hu]; nofun) (Or.inl ⟨rfl,hv⟩)
  | change u b m v hu =>
    refine flow_goto h rfl rfl (update_field valid rfl) (update_field dirty rfl) (fun c m' hx => ?_)
      (by rw [hu]; nofun) (by rw [hu]; nofun)
    cases hx
    exact h.held u b m hu
  | logWrite u b m hu =>
    have hb : b ∉ s.queue := h.notMem ho (by rw [hu]; rfl) (by rw [hu]; nofun) (by rw [hu]; nofun)
    have hv := h.held u b m hu
    refine flow_goto (flow_put h hb (x := {s.buf b with dirty := true}) (fun _ => hv) fun _ _ _ => hv) rfl rfl (fun _ => rfl)
      (fun _ => rfl) (fun c m' hx => ?_) (fun c hc' => ?_) fun c hc' => ?_
    · cases hx
      exact (congrArg valid (update_self b _ s.buf)).trans hv
    · cases hu.symm.trans hc'
    · cases hu.symm.trans hc'
  | bwrite u b m t hu ht =>
    obtain rfl := iderw_spec ht
    have hb : b ∉ s.queue := h.notMem ho (by rw [hu]; rfl) (by rw [hu]; nofun) (by rw [hu]; nofun)
    have hv := h.held u b m hu
    have h' : Flow ((s.put b {s.buf b with dirty := true}).install b) := by
      obtain ⟨h1,h2,h3,h4⟩ := flow_put h hb (x := {s.buf b with dirty := true}) (fun _ => hv) fun _ _ _ => hv
      exact ⟨h1,h2,h3,h4⟩
    refine flow_enqueue h' hb (fun c hc' => ?_) (fun c hc' => ?_) (Or.inr ⟨rfl,?_⟩)
    · cases hu.symm.trans hc'
    · cases hu.symm.trans hc'
    · exact congrArg dirty (update_self b _ s.buf)
  | release u b hu =>
    refine flow_goto (x := .idle) h ?_ ?_ (fun c => ?_) (fun c => ?_) nofun (by rw [hu]; nofun) (by rw [hu]; nofun)
    · unfold State.goto
      rw [release_pc]
    · unfold release State.goto
      dsimp only
      split <;> rfl
    · change ((release s b).buf c).valid = _
      rw [release_buf]
      refine update_field valid ?_ c
      rfl
    · change ((release s b).buf c).dirty = _
      rw [release_buf]
      refine update_field dirty ?_ c
      rfl
  | intr t ht =>
    rcases ideintr_spec ht with rfl | ⟨b,q,hq,rfl⟩
    · exact h
    · exact flow_served h hq

lemma reach_flow [Fintype U] (h : (cache U V).ReachWhile (asks devs) s) : Flow s := by
  refine h.invariant_on (J := fun s => Owned s ∧ Counted devs s) (I := Flow) (fun s hs => ⟨reach_owned hs,reach_counted hs⟩)
    (fun s hs => ?_) fun s l t hJ hs _ ht => flow_step hs hJ.1 hJ.2 (step_moves ht)
  refine ⟨fun b hb => ?_,fun u b m hu => ?_,by rw [hs.queue]; exact nodup_nil,by rw [hs.queue]; nofun⟩
  · rw [(hs.buf b).2.2.2.2.1] at hb
    cases hb
  · rw [hs.pc u] at hu
    cases hu

end

end Xv6Threads.Bio
