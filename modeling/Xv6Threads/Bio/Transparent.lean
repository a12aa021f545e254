import Xv6Threads.Bio.Contents

/-! The buffer cache is transparent: `bread` returns what was last installed for its block. -/
namespace Xv6Threads.Bio
open Function List Prod Buf State Bio
variable {U V : Type}

/-- Where the data last installed is: in a valid buffer that nobody is changing, and on the disk if no
buffer is dirty. The first request of the queue has been sent. -/
structure Current (devs : ℕ → Prop) (s : State U V) : Prop where
  disk : ∀ k, devs k.1 → (∀ b, (s.buf b).key = k → (s.buf b).dirty = false) → s.disk (k.1%2) k.2 = s.installed k
  data : ∀ b, devs (s.buf b).dev → (s.buf b).valid = true → (∀ u, s.pc u ≠ .holding b true) →
    (s.buf b).data = s.installed (s.buf b).key
  sent : ∀ b q, s.queue = b :: q → (s.buf b).dirty = true → s.disk ((s.buf b).dev%2) (s.buf b).blockno = (s.buf b).data
  written : ∀ b, (s.buf b).dirty = true → (s.written (s.buf b).key).isSome = true

section
variable {devs : ℕ → Prop} {s t : State U V}

/-- The buffers keep their data, flags and blocks. -/
structure SameData (s t : State U V) : Prop where
  key : ∀ c, (t.buf c).key = (s.buf c).key
  valid : ∀ c, (t.buf c).valid = (s.buf c).valid
  dirty : ∀ c, (t.buf c).dirty = (s.buf c).dirty
  data : ∀ c, (t.buf c).data = (s.buf c).data
  queue : t.queue = s.queue
  disk : t.disk = s.disk
  written : t.written = s.written

lemma SameData.installed (h : SameData s t) : t.installed = s.installed := by
  unfold State.installed
  rw [h.disk,h.written]

lemma current_same (h : Current devs s) (hsame : SameData s t) (hpc : ∀ u b, s.pc u = .holding b true → t.pc u = .holding b true) :
    Current devs t := by
  have hdev : ∀ b, (t.buf b).dev = (s.buf b).dev := fun b => congrArg fst (hsame.key b)
  have hblockno : ∀ b, (t.buf b).blockno = (s.buf b).blockno := fun b => congrArg snd (hsame.key b)
  refine ⟨fun k hk hd => ?_,fun b hb hv hno => ?_,fun b q hq hd => ?_,fun b hd => ?_⟩
  · rw [hsame.disk,hsame.installed]
    refine h.disk k hk fun b hb => ?_
    rw [← hsame.dirty b]
    exact hd b (by rw [hsame.key b]; exact hb)
  · rw [hdev b] at hb
    rw [hsame.valid b] at hv
    rw [hsame.data b,hsame.installed,hsame.key b]
    exact h.data b hb hv fun u hu => hno u (hpc u b hu)
  · rw [hsame.queue] at hq
    rw [hsame.dirty b] at hd
    rw [hsame.disk,hdev b,hblockno b,hsame.data b]
    exact h.sent b q hq hd
  · rw [hsame.dirty b] at hd
    rw [hsame.written,hsame.key b]
    exact h.written b hd

variable {b : Slot}

section
variable (hinj : ∀ d e, devs d → devs e → d%2 = e%2 → d = e) (hb : devs (s.buf b).dev)
include hinj hb

lemma sent_other {k : ℕ × ℕ} (hk : devs k.1) (hclean : (s.buf b).key = k → (s.buf b).dirty = false) :
    sent s b (k.1%2) k.2 = s.disk (k.1%2) k.2 := by
  unfold sent
  split
  · next hdirty =>
    by_cases hdev : k.1%2 = (s.buf b).dev%2
    · rw [hdev,update_self]
      by_cases hno : k.2 = (s.buf b).blockno
      · have hkey : (s.buf b).key = k := Prod.ext (hinj _ _ hb hk hdev.symm) hno.symm
        rw [hclean hkey] at hdirty
        cases hdirty
      · rw [update_of_ne hno]
    · rw [update_of_ne hdev]
  · rfl

lemma current_start {q : List Slot}
    (hdisk : ∀ k, devs k.1 → (∀ b, (s.buf b).key = k → (s.buf b).dirty = false) → s.disk (k.1%2) k.2 = s.installed k)
    (hdata : ∀ b, devs (s.buf b).dev → (s.buf b).valid = true → (∀ u, s.pc u ≠ .holding b true) →
      (s.buf b).data = s.installed (s.buf b).key)
    (hwritten : ∀ b, (s.buf b).dirty = true → (s.written (s.buf b).key).isSome = true) :
    Current devs {s with queue := b :: q, disk := sent s b} := by
  have hinst : ∀ k, devs k.1 → installed {s with queue := b :: q, disk := sent s b} k = s.installed k := by
    intro k hk
    change (s.written k).getD (sent s b (k.1%2) k.2) = (s.written k).getD (s.disk (k.1%2) k.2)
    cases hw : s.written k with
    | some v => rfl
    | none =>
      refine sent_other hinj hb hk fun hkey => Bool.eq_false_iff.mpr fun hd => ?_
      have := hwritten b hd
      rw [hkey,hw] at this
      cases this
  refine ⟨fun k hk hd => ?_,fun c hc hv hno => ?_,fun c q' hc hd => ?_,hwritten⟩
  · rw [hinst k hk,← hdisk k hk hd]
    exact sent_other hinj hb hk (hd b)
  · rw [hinst _ hc]
    exact hdata c hc hv hno
  · cases hc
    change (s.buf b).dirty = true at hd
    change sent s b ((s.buf b).dev%2) (s.buf b).blockno = (s.buf b).data
    unfold sent
    rw [if_pos hd,update_self,update_self]

lemma current_enqueue (h : Current devs s) :
    Current devs {s with queue := s.queue++[b], disk := if s.queue = [] then sent s b else s.disk} := by
  cases hq : s.queue with
  | nil =>
    rw [if_pos rfl]
    exact current_start hinj hb h.disk h.data h.written
  | cons c q =>
    rw [if_neg (cons_ne_nil _ _)]
    refine ⟨h.disk,h.data,fun d q' hd hdirty => ?_,h.written⟩
    cases hd
    exact h.sent c q hq hdirty

end

variable [DecidableEq U]

lemma current_install {u : U} {m : Bool} {x : Pc} (h0 : ¬devs 0) (h : Current devs s)
    (huniq : ∀ b c, (s.buf b).key = (s.buf c).key → (s.buf b).dev ≠ 0 → b = c) (hu : s.pc u = .holding b m)
    (hq : b ∉ s.queue) : Current devs (((s.put b {s.buf b with dirty := true}).install b).goto u x) := by
  have hbuf : ∀ c, c ≠ b → (((s.put b {s.buf b with dirty := true}).install b).goto u x).buf c = s.buf c :=
    fun c hc => update_of_ne hc ..
  have hself : (((s.put b {s.buf b with dirty := true}).install b).goto u x).buf b = {s.buf b with dirty := true} :=
    update_self ..
  have hwritten : (((s.put b {s.buf b with dirty := true}).install b).goto u x).written =
      update s.written (s.buf b).key (some (s.buf b).data) := by
    change update s.written (update s.buf b _ b).key (some (update s.buf b _ b).data) = _
    rw [update_self]
    rfl
  have hinst : ∀ k, k ≠ (s.buf b).key → (((s.put b {s.buf b with dirty := true}).install b).goto u x).installed k =
      s.installed k := by
    intro k hk
    unfold installed
    rw [hwritten,update_of_ne hk]
    rfl
  refine ⟨fun k hk hd => ?_,fun c hc hv hno => ?_,fun c q hcq hd => ?_,fun c hd => ?_⟩
  · have hkey : k ≠ (s.buf b).key := by
      rintro rfl
      have := hd b (by rw [hself]; rfl)
      rw [hself] at this
      cases this
    rw [hinst k hkey]
    refine h.disk k hk fun c hc => ?_
    have hcb : c ≠ b := fun hcb => hkey (by rw [← hc,hcb])
    rw [← hbuf c hcb]
    exact hd c (by rw [hbuf c hcb]; exact hc)
  · by_cases hcb : c = b
    · subst hcb
      unfold installed
      rw [hself,hwritten]
      change (s.buf c).data = (update s.written (s.buf c).key (some (s.buf c).data) (s.buf c).key).getD _
      rw [update_self,Option.getD_some]
    · rw [hbuf c hcb] at hc hv ⊢
      have hkey : (s.buf c).key ≠ (s.buf b).key := fun hk => hcb (huniq c b hk fun he => h0 (he ▸ hc))
      rw [hinst _ hkey]
      refine h.data c hc hv fun v hv' => ?_
      by_cases hvu : v = u
      · subst hvu
        rw [hu] at hv'
        cases hv'
        exact hcb rfl
      · exact hno v ((update_of_ne hvu ..).trans hv')
  · have hcb : c ≠ b := by
      rintro rfl
      have : s.queue = c :: q := hcq
      exact hq (by rw [this]; exact mem_cons_self)
    rw [hbuf c hcb] at hd ⊢
    exact h.sent c q hcq hd
  · rw [hwritten]
    by_cases hkey : (s.buf c).key = (s.buf b).key
    · have hkey' : ((((s.put b {s.buf b with dirty := true}).install b).goto u x).buf c).key = (s.buf c).key := by
        refine update_field key ?_ c
        rfl
      rw [hkey',hkey,update_self]
      rfl
    · have hcb : c ≠ b := fun hcb => hkey (by rw [hcb])
      rw [hbuf c hcb] at hd ⊢
      rw [update_of_ne hkey]
      exact h.written c hd

lemma current_recycle {u : U} {x : Buf U V} {W : U → ℕ × ℕ} (h : Current devs s) (hu : s.pc u = .idle)
    (hd : (s.buf b).dirty = false) (hv : x.valid = false) (hx : x.dirty = false) :
    Current devs {(s.put b x).goto u (.locking b) with want := W} := by
  have hbuf : ∀ c, c ≠ b → (s.put b x).buf c = s.buf c := fun c hc => update_of_ne hc ..
  have hself : (s.put b x).buf b = x := update_self ..
  refine ⟨fun k hk hclean => ?_,fun c hc hvc hno => ?_,fun c q hq hdc => ?_,fun c hdc => ?_⟩
  · refine h.disk k hk fun c hc => ?_
    by_cases hcb : c = b
    · rw [hcb]
      exact hd
    · rw [← hbuf c hcb]
      exact hclean c (by rw [← hc,← hbuf c hcb]; rfl)
  · by_cases hcb : c = b
    · subst hcb
      change ((s.put c x).buf c).valid = true at hvc
      rw [hself,hv] at hvc
      cases hvc
    · change ((s.put b x).buf c).data = s.installed ((s.put b x).buf c).key
      change devs ((s.put b x).buf c).dev at hc
      change ((s.put b x).buf c).valid = true at hvc
      rw [hbuf c hcb] at hc hvc ⊢
      refine h.data c hc hvc fun v hv' => hno v ?_
      have hvu : v ≠ u := by
        rintro rfl
        cases hu.symm.trans hv'
      exact (update_of_ne hvu ..).trans hv'
  · change ((s.put b x).buf c).dirty = true at hdc
    change s.disk (((s.put b x).buf c).dev%2) ((s.put b x).buf c).blockno = ((s.put b x).buf c).data
    have hcb : c ≠ b := by
      rintro rfl
      rw [hself,hx] at hdc
      cases hdc
    rw [hbuf c hcb] at hdc ⊢
    exact h.sent c q hq hdc
  · change ((s.put b x).buf c).dirty = true at hdc
    change (s.written ((s.put b x).buf c).key).isSome = true
    have hcb : c ≠ b := by
      rintro rfl
      rw [hself,hx] at hdc
      cases hdc
    rw [hbuf c hcb] at hdc ⊢
    exact h.written c hdc

lemma current_change {u : U} {m : Bool} {v : V} (h : Current devs s) (hu : s.pc u = .holding b m)
    (hq : b ∉ s.queue) : Current devs ((s.put b {s.buf b with data := v}).goto u (.holding b true)) := by
  have hbuf : ∀ c, c ≠ b → (s.put b {s.buf b with data := v}).buf c = s.buf c := fun c hc => update_of_ne hc ..
  have hkey : ∀ c, ((s.put b {s.buf b with data := v}).buf c).key = (s.buf c).key := update_field key rfl
  have hdirty : ∀ c, ((s.put b {s.buf b with data := v}).buf c).dirty = (s.buf c).dirty := update_field dirty rfl
  refine ⟨fun k hk hclean => ?_,fun c hc hvc hno => ?_,fun c q hcq hdc => ?_,fun c hdc => ?_⟩
  · refine h.disk k hk fun c hc => ?_
    rw [← hdirty c]
    exact hclean c ((hkey c).trans hc)
  · have hcb : c ≠ b := by
      rintro rfl
      exact hno u (update_self ..)
    change ((s.put b {s.buf b with data := v}).buf c).data = s.installed ((s.put b {s.buf b with data := v}).buf c).key
    change devs ((s.put b {s.buf b with data := v}).buf c).dev at hc
    change ((s.put b {s.buf b with data := v}).buf c).valid = true at hvc
    rw [hbuf c hcb] at hc hvc ⊢
    refine h.data c hc hvc fun w hw => ?_
    by_cases hwu : w = u
    · rw [hwu,hu] at hw
      cases hw
      exact hcb rfl
    · exact hno w ((update_of_ne hwu ..).trans hw)
  · have hcb : c ≠ b := by
      rintro rfl
      have : s.queue = c :: q := hcq
      exact hq (by rw [this]; exact mem_cons_self)
    change ((s.put b {s.buf b with data := v}).buf c).dirty = true at hdc
    change s.disk (((s.put b {s.buf b with data := v}).buf c).dev%2) ((s.put b {s.buf b with data := v}).buf c).blockno =
      ((s.put b {s.buf b with data := v}).buf c).data
    rw [hbuf c hcb] at hdc ⊢
    exact h.sent c q hcq hdc
  · have hdc' := (hdirty c).symm.trans hdc
    have := h.written c hdc'
    rw [← hkey c] at this
    exact this

omit [DecidableEq U] in
lemma current_served {q : List Slot} (h0 : ¬devs 0) (hinj : ∀ d e, devs d → devs e → d%2 = e%2 → d = e)
    (h : Current devs s) (huniq : ∀ b c, (s.buf b).key = (s.buf c).key → (s.buf b).dev ≠ 0 → b = c)
    (hvalid : (s.buf b).dirty = true → (s.buf b).valid = true) (hq : s.queue = b :: q) (hb : devs (s.buf b).dev)
    (hno : ∀ u, s.pc u ≠ .holding b true) (hnext : ∀ c ∈ q, devs (s.buf c).dev) :
    Current devs {served s b q with disk := q.head?.elim s.disk (sent (served s b q))} := by
  have hbuf : ∀ c, c ≠ b → (served s b q).buf c = s.buf c := fun c hc => update_of_ne hc ..
  have hkey : ∀ c, ((served s b q).buf c).key = (s.buf c).key := update_field key rfl
  have hdev0 : (s.buf b).dev ≠ 0 := fun he => h0 (he ▸ hb)
  -- the buffer and the disk have what was installed
  have hboth : s.disk ((s.buf b).dev%2) (s.buf b).blockno = s.installed (s.buf b).key ∧
      ((served s b q).buf b).data = s.installed (s.buf b).key := by
    have hself : ((served s b q).buf b).data =
        if (s.buf b).dirty then (s.buf b).data else s.disk ((s.buf b).dev%2) (s.buf b).blockno := by
      unfold served put
      dsimp only
      rw [update_self]
    rw [hself]
    cases hd : (s.buf b).dirty with
    | true =>
      have hdata := h.data b hb (hvalid hd) hno
      exact ⟨(h.sent b q hq hd).trans hdata,hdata⟩
    | false =>
      have hdisk := h.disk (s.buf b).key hb fun c hc => by rw [← huniq b c hc.symm hdev0]; exact hd
      exact ⟨hdisk,hdisk⟩
  have hdisk : ∀ k, devs k.1 → (∀ c, ((served s b q).buf c).key = k → ((served s b q).buf c).dirty = false) →
      (served s b q).disk (k.1%2) k.2 = (served s b q).installed k := by
    intro k hk hd
    by_cases hkb : k = (s.buf b).key
    · rw [hkb]
      exact hboth.1
    · refine h.disk k hk fun c hc => ?_
      have hcb : c ≠ b := fun hcb => hkb (by rw [← hc,hcb])
      rw [← hbuf c hcb]
      exact hd c (by rw [hkey c]; exact hc)
  have hdata : ∀ c, devs ((served s b q).buf c).dev → ((served s b q).buf c).valid = true →
      (∀ u, (served s b q).pc u ≠ .holding c true) → ((served s b q).buf c).data = (served s b q).installed ((served s b q).buf c).key := by
    intro c hc hv hno'
    rw [hkey c]
    by_cases hcb : c = b
    · rw [hcb]
      exact hboth.2
    · rw [hbuf c hcb] at hc hv ⊢
      exact h.data c hc hv hno'
  have hwritten : ∀ c, ((served s b q).buf c).dirty = true → ((served s b q).written ((served s b q).buf c).key).isSome = true := by
    intro c hd
    have hcb : c ≠ b := by
      rintro rfl
      unfold served put at hd
      dsimp only at hd
      rw [update_self] at hd
      cases hd
    rw [hbuf c hcb] at hd ⊢
    exact h.written c hd
  cases q with
  | nil => exact ⟨hdisk,hdata,nofun,hwritten⟩
  | cons c q =>
    have hdevc : ((served s b (c :: q)).buf c).dev = (s.buf c).dev := congrArg fst (hkey c)
    exact current_start hinj (by rw [hdevc]; exact hnext c mem_cons_self) hdisk hdata hwritten

end

section
variable {devs : ℕ → Prop} {s t : State U V} {l : Label U V}

lemma used_dev [Fintype U] (hc : Counted devs s) {u : U} {b : Slot} (hu : (s.pc u).slot = some b) : devs (s.buf b).dev := by
  obtain ⟨hk,hd⟩ := hc.asked u b hu
  rw [show (s.buf b).dev = (s.want u).1 from congrArg fst hk]
  exact hd

lemma queued_dev [Fintype U] (hc : Counted devs s) (hf : Flow s) {b : Slot} (hb : b ∈ s.queue) : devs (s.buf b).dev := by
  obtain ⟨u,⟨hu,_⟩ | ⟨hu,_⟩⟩ := hf.mem b hb
  · exact used_dev hc (u := u) (by rw [hu]; rfl)
  · exact used_dev hc (u := u) (by rw [hu]; rfl)

lemma goto_holding [DecidableEq U] {u : U} {x : Pc} (hu : ∀ b, s.pc u ≠ .holding b true) (hpc : t.pc = update s.pc u x) :
    ∀ v b, s.pc v = .holding b true → t.pc v = .holding b true := by
  intro v b hv
  have hvu : v ≠ u := by
    rintro rfl
    exact hu b hv
  rw [hpc,update_of_ne hvu]
  exact hv

variable [DecidableEq U] [Fintype U] (h0 : ¬devs 0) (hinj : ∀ d e, devs d → devs e → d%2 = e%2 → d = e)
include h0 hinj

lemma current_step (hc : Counted devs s)
    (ho : Owned s) (hf : Flow s) (h : Current devs s) (hm : Moves s l t) : Current devs t := by
  cases hm with
  | hit u dev blockno b hu hk | lock u b hu ho' | unlock u b hu =>
    exact current_same h ⟨update_field key rfl,update_field valid rfl,update_field dirty rfl,
      update_field data rfl,rfl,rfl,rfl⟩ (goto_holding (u := u) (by rw [hu]; nofun) rfl)
  | recycle u dev blockno b hu hnone href hd =>
    exact current_recycle h hu hd rfl rfl
  | found u b hv hu =>
    refine current_same h ⟨fun _ => rfl,fun _ => rfl,fun _ => rfl,fun _ => rfl,rfl,rfl,rfl⟩ (goto_holding (u := u) (fun c => ?_) rfl)
    rcases hu with hu | ⟨hu | hu,_⟩ <;> rw [hu] <;> nofun
  | read u b t hu hv ht =>
    obtain rfl := iderw_spec ht
    have hb := used_dev hc (u := u) (b := b) (by rw [hu]; rfl)
    refine current_same (current_enqueue hinj hb h) ⟨fun _ => rfl,fun _ => rfl,fun _ => rfl,fun _ => rfl,rfl,rfl,rfl⟩
      (goto_holding (u := u) (fun c hc' => ?_) rfl)
    cases hu.symm.trans hc'
  | change u b m v hu =>
    exact current_change h hu (hf.notMem ho (by rw [hu]; rfl) (by rw [hu]; nofun) (by rw [hu]; nofun))
  | logWrite u b m hu =>
    have hlocked : (s.pc u).locked = some b := by rw [hu]; rfl
    exact current_install h0 h hc.uniq hu (hf.notMem ho hlocked (by rw [hu]; nofun) (by rw [hu]; nofun))
  | bwrite u b m t hu ht =>
    obtain rfl := iderw_spec ht
    have hlocked : (s.pc u).locked = some b := by rw [hu]; rfl
    have hb := used_dev hc (u := u) (b := b) (by rw [hu]; rfl)
    have hcur := current_install (x := .writing b) h0 h hc.uniq hu (hf.notMem ho hlocked (by rw [hu]; nofun) (by rw [hu]; nofun))
    refine current_enqueue hinj ?_ hcur
    have hdev : ((((s.put b {s.buf b with dirty := true}).install b).goto u (.writing b)).buf b).dev = (s.buf b).dev := by
      refine update_field dev ?_ b
      rfl
    rw [hdev]
    exact hb
  | release u b hu =>
    have hbuf : ((release s b).goto u .idle).buf = update s.buf b {s.buf b with refcnt := (s.buf b).refcnt-1} :=
      release_buf s b
    refine current_same h ⟨?_,?_,?_,?_,?_,?_,?_⟩ (goto_holding (u := u) (x := .idle) (by rw [hu]; nofun) ?_)
    · rw [hbuf]
      exact update_field key rfl
    · rw [hbuf]
      exact update_field valid rfl
    · rw [hbuf]
      exact update_field dirty rfl
    · rw [hbuf]
      exact update_field data rfl
    all_goals
      unfold release goto
      dsimp only
      split <;> rfl
  | intr t ht =>
    rcases ideintr_spec ht with rfl | ⟨b,q,hq,rfl⟩
    · exact h
    · have hb : b ∈ s.queue := by rw [hq]; exact mem_cons_self
      obtain ⟨u,hu,hnot⟩ := hf.waiting hb
      refine current_served h0 hinj h hc.uniq (hf.valid b) hq (queued_dev hc hf hb) (fun v hv => ?_) fun c hcq => ?_
      · obtain rfl := ho.eq hu (v := v) (by rw [hv]; rfl)
        exact hnot true hv
      · exact queued_dev hc hf (by rw [hq]; exact mem_cons_of_mem _ hcq)

lemma reach_current
    (h : (cache U V).ReachWhile (asks devs) s) : Current devs s := by
  refine h.invariant_on (J := fun s => Counted devs s ∧ Owned s ∧ Flow s) (I := Current devs)
    (fun s hs => ⟨reach_counted hs,reach_owned hs,reach_flow hs⟩) (fun s hs => ?_)
    fun s l t hJ hs _ ht => current_step h0 hinj hJ.1 hJ.2.1 hJ.2.2 hs (step_moves ht)
  refine ⟨fun k _ _ => ?_,fun b _ hv _ => ?_,fun b q hq _ => ?_,fun b hd => ?_⟩
  · unfold installed
    rw [hs.written k]
    rfl
  · rw [(hs.buf b).2.2.2.1] at hv
    cases hv
  · rw [hs.queue] at hq
    cases hq
  · rw [(hs.buf b).2.2.2.2.1] at hd
    cases hd

end

/-- What the interface of the cache promises about the buffers. -/
structure Sound [Fintype U] (s : State U V) : Prop where
  one : ∀ b c, (s.buf b).key = (s.buf c).key → (s.buf b).dev ≠ 0 → b = c
  count : ∀ b, (s.buf b).refcnt = (Finset.univ.filter (fun u => (s.pc u).slot = some b)).card
  ring : ∃ order, s.links.IsRing order ∧ order.Perm (List.finRange nbuf)

/-- `bread` returns the block that was asked for, with what was installed last. -/
def Transparent (s : State U V) : Prop :=
  ∀ u b, s.pc u = .holding b false → (s.buf b).key = s.want u ∧ (s.buf b).data = s.installed (s.want u)

/-- In every state the cache is sound, and only a buffer that is neither in use nor dirty is recycled. It is transparent
on devices that are different disks. -/
theorem buffer_cache_transparent [DecidableEq U] [Fintype U] {devs : ℕ → Prop} (h0 : ¬devs 0)
    {s : State U V} (h : (cache U V).ReachWhile (asks devs) s) :
    Sound s ∧ (∀ l t, step s l = some t → ∀ b, (t.buf b).key ≠ (s.buf b).key →
      (s.buf b).refcnt = 0 ∧ (s.buf b).dirty = false) ∧
    ((∀ d e, devs d → devs e → d%2 = e%2 → d = e) → Transparent s) := by
  have hc := reach_counted h
  refine ⟨⟨hc.uniq,fun b => ?_,?_⟩,fun l t ht b hk => ?_,fun hinj u b hu => ?_⟩
  · rw [hc.count b,Finset.card_filter]
    rfl
  · obtain ⟨order,hr,hall⟩ := reach_ringed h
    refine ⟨order,hr,(perm_ext_iff_of_nodup hr.nodup (nodup_finRange _)).mpr fun b => ?_⟩
    exact ⟨fun _ => mem_finRange b,fun _ => hall b⟩
  · have hm : Moves s l t := step_moves ht
    cases hm.kind with
    | get c x _ _ _ _ hbuf hkey _ _ hold =>
      by_cases hbc : b = c
      · subst hbc
        rcases hold with hold | ⟨hr,hd,_⟩
        · rw [hbuf,update_self,hkey,hold] at hk
          exact absurd rfl hk
        · exact ⟨hr,hd⟩
      · rw [hbuf,update_of_ne hbc] at hk
        exact absurd rfl hk
    | put hu htt =>
      subst htt
      refine absurd ?_ hk
      change ((release s _).buf b).key = _
      rw [release_buf]
      refine update_field Buf.key ?_ b
      rfl
    | kept hkept => exact absurd (hkept.key b) hk
  · have hslot : (s.pc u).slot = some b := by rw [hu]; rfl
    have hkey := (hc.asked u b hslot).1
    have hv := (reach_flow h).held u b false hu
    refine ⟨hkey,?_⟩
    rw [← hkey]
    refine (reach_current h0 hinj h).data b (used_dev hc hslot) hv fun v hv' => ?_
    have := (reach_owned h).eq (u := u) (v := v) (b := b) (by rw [hu]; rfl) (by rw [hv']; rfl)
    rw [this,hu] at hv'
    cases hv'

/-- The state after `binit`, on empty disks. -/
def boot (U : Type) : State U ℕ :=
  ⟨fun _ => ⟨0,0,0,false,false,0,none⟩,binit,[],fun _ _ => 0,fun _ => .idle,fun _ => (0,0),fun _ => none⟩

lemma boot_boot (U : Type) : Boot (boot U) := ⟨fun _ => ⟨rfl,rfl,rfl,rfl,rfl,rfl⟩,rfl,rfl,fun _ => rfl,fun _ => rfl⟩

/-- `bread` of a block that has no buffer. -/
def load (dev blockno : ℕ) : List (Label Unit ℕ) :=
  [.use () (.bread dev blockno),.use () .go,.use () .go,.intr,.use () .go]

/-- `brelse` -/
def drop : List (Label Unit ℕ) := [.use () .brelse,.use () .go]

/-- Every block is asked for on one of the devices `ds`. -/
def asksOn (ds : List ℕ) (_ : State Unit ℕ) : Label Unit ℕ → Bool
  | .use _ (.bread dev _) => ds.contains dev
  | _ => true

lemma asks_of_asksOn {devs : ℕ → Prop} {ds : List ℕ} (h : ∀ d ∈ ds, devs d) (s : State Unit ℕ) (l : Label Unit ℕ)
    (hl : asksOn ds s l = true) : asks devs s l := by
  cases l with
  | intr => trivial
  | use u a =>
    cases a with
    | bread dev blockno => exact h dev (contains_iff_mem.mp hl)
    | _ => trivial

/-- The use has block 5 of device 1 with the data 7. -/
def reread (s : State Unit ℕ) : Bool :=
  match s.pc () with
  | .holding b false => (s.buf b).data = 7 ∧ s.want () = (1,5)
  | _ => false

/-- The use has block 5 of device 3 with the data 0; it was never written, and the disk has 7. -/
def stale (s : State Unit ℕ) : Bool :=
  match s.pc () with
  | .holding b false => (s.buf b).data = 0 ∧ s.want () = (3,5) ∧ s.written (3,5) = none ∧ s.disk 1 5 = 7
  | _ => false

/-- A block is read, changed and given to `log_write`, and read again. -/
theorem buffer_cache_transparent_log_write : ∃ s : State Unit ℕ, reread s = true ∧ Sound s ∧ Transparent s := by
  have hrun : ∃ s, (cache Unit ℕ).ReachWhile (asks (· = 1)) s ∧ reread s = true :=
    System.reachWhile_of_exec (asksOn [1]) (asks_of_asksOn (by decide))
      (flatten [load 1 5,[.use () (.change 7),.use () .logWrite],drop,[.use () (.bread 1 5),.use () .go,.use () .go]]) _
      (boot_boot Unit) (by decide +kernel)
  obtain ⟨s,hs,hp⟩ := hrun
  obtain ⟨hsound,-,hread⟩ := buffer_cache_transparent (by decide) hs
  exact ⟨s,hp,hsound,hread fun d e hd he _ => hd.trans he.symm⟩

/-- The devices 1 and 3 are the same disk: block 5 of device 3 is in the cache, and what `bwrite` puts there
through device 1 is not seen. -/
theorem aliased_device_is_stale : ∃ s : State Unit ℕ, (cache Unit ℕ).ReachWhile (asks (· ≠ 0)) s ∧ ¬Transparent s := by
  have hrun : ∃ s, (cache Unit ℕ).ReachWhile (asks (· ≠ 0)) s ∧ stale s = true :=
    System.reachWhile_of_exec (asksOn [1,3]) (asks_of_asksOn (by decide))
      (flatten [load 3 5,drop,load 1 5,[.use () (.change 7),.use () .bwrite,.intr,.use () .go],drop,
        [.use () (.bread 3 5),.use () .go,.use () .go]]) _ (boot_boot Unit) (by decide +kernel)
  obtain ⟨s,hs,hp⟩ := hrun
  refine ⟨s,hs,fun ht => ?_⟩
  unfold stale at hp
  split at hp
  · next b hb =>
    obtain ⟨hdata,hwant,hnone,hdisk⟩ := of_decide_eq_true hp
    have hread := (ht () b hb).2
    unfold State.installed at hread
    rw [hdata,hwant,hnone] at hread
    exact absurd (hread.trans hdisk) (by decide)
  · cases hp

end Xv6Threads.Bio
