import Xv6Threads.Bio.Steps

/-! The list of buffers stays a ring of all of them, the reference counts are exact, and no block has
two buffers. -/
namespace Xv6Threads.Bio
open Function List Option Prod
variable {U V : Type}

/-- Blocks are asked for on the devices `devs`. -/
def asks (devs : ℕ → Prop) (_ : State U V) : Label U V → Prop
  | .use _ (.bread dev _) => devs dev
  | _ => True

lemma foldl_insert {l : Links Slot} {order c : List Slot} (h : l.IsRing order) (hc : c.Nodup) (hd : List.Disjoint c order) :
    (c.foldl Links.insert l).IsRing (c.reverse++order) := by
  induction c generalizing l order with
  | nil => exact h
  | cons x c ih =>
    have hx : x ∉ order := fun hm => hd mem_cons_self hm
    obtain ⟨hxc,hc'⟩ := nodup_cons.mp hc
    rw [foldl_cons,reverse_cons,append_assoc]
    refine ih (h.insert hx) hc' fun y hy hm => ?_
    rcases mem_cons.mp hm with rfl | hm
    · exact hxc hy
    · exact hd (mem_cons_of_mem _ hy) hm

/-- The list of all buffers. -/
def Ringed (s : State U V) : Prop := ∃ order, s.links.IsRing order ∧ ∀ b, b ∈ order

lemma ringed_binit : ∃ order, binit.IsRing order ∧ ∀ b : Slot, b ∈ order := by
  refine ⟨_,foldl_insert Links.isRing_empty (nodup_finRange _) (disjoint_nil_right _),fun b => ?_⟩
  exact mem_append_left _ (mem_reverse.mpr (mem_finRange b))

lemma ringed_move {l : Links Slot} {order : List Slot} (h : l.IsRing order) (hall : ∀ b, b ∈ order) (b : Slot) :
    ∃ order', ((l.remove b).insert b).IsRing order' ∧ ∀ c, c ∈ order' := by
  obtain ⟨xs,ys,rfl⟩ := append_of_mem (hall b)
  have hb : b ∉ xs++ys := (nodup_cons.mp (nodup_middle.mp h.nodup)).1
  refine ⟨b :: (xs++ys),h.remove.insert hb,fun c => ?_⟩
  have := hall c
  rw [mem_append,mem_cons] at this
  rw [mem_cons,mem_append]
  tauto

lemma ringed_step [DecidableEq U] {s t : State U V} {l : Label U V} (hs : Ringed s) (h : Kind s t l) : Ringed t := by
  cases h with
  | get b x hu hpc hwant hlinks =>
    unfold Ringed
    rw [hlinks]
    exact hs
  | put hu ht =>
    subst ht
    obtain ⟨order,hr,hall⟩ := hs
    unfold release State.goto Ringed
    dsimp only
    split
    · exact ringed_move hr hall _
    · exact ⟨order,hr,hall⟩
  | kept h =>
    unfold Ringed
    rw [h.links]
    exact hs

lemma reach_ringed [DecidableEq U] {ok : State U V → Label U V → Prop} {s : State U V} (h : (cache U V).ReachWhile ok s) : Ringed s := by
  refine h.invariant (fun s hs => ?_) fun s l t hs _ ht => ?_
  · unfold Ringed
    rw [hs.links]
    exact ringed_binit
  · have hm : Moves s l t := step_moves ht
    exact ringed_step hs hm.kind

lemma Ringed.not_cached {s : State U V} (h : Ringed s) {p : Slot → Bool}
    (hnone : Links.scan s.links.next p nbuf (s.links.next none) = some none) (b : Slot) : p b = false := by
  obtain ⟨order,hr,hall⟩ := h
  have hlen : order.length ≤ nbuf := by simpa using hr.nodup.length_le_card
  rw [hr.scan_next hlen] at hnone
  have := List.find?_eq_none.mp (some.inj hnone) b (hall b)
  exact Bool.eq_false_iff.mpr this

/-- Does a use have the buffer `b`? -/
def uses (b : Slot) (pc : Pc) : ℕ := if pc.slot = some b then 1 else 0

section
variable [Fintype U]

structure Counted (devs : ℕ → Prop) (s : State U V) : Prop where
  count : ∀ b, (s.buf b).refcnt = total (fun _ => uses b) s.pc
  asked : ∀ u b, (s.pc u).slot = some b → (s.buf b).key = s.want u ∧ devs (s.want u).1
  uniq : ∀ b c, (s.buf b).key = (s.buf c).key → (s.buf b).dev ≠ 0 → b = c
  dev : ∀ b, (s.buf b).dev ≠ 0 → devs (s.buf b).dev

variable {devs : ℕ → Prop} {s t : State U V} {l : Label U V} {b : Slot}

lemma Counted.unused (h : Counted devs s) (hr : (s.buf b).refcnt = 0) (u : U) : (s.pc u).slot ≠ some b := by
  intro hu
  have := weight_eq_zero_of_total ((h.count b).symm.trans hr) u
  unfold uses at this
  rw [if_pos hu] at this
  cases this

lemma counted_kept (hs : Counted devs s) (h : Kept s t) : Counted devs t := by
  have hdev : ∀ b, (t.buf b).dev = (s.buf b).dev := fun b => congrArg fst (h.key b)
  refine ⟨fun b => ?_,fun u b hu => ?_,fun b c hk hd => ?_,fun b hd => ?_⟩
  · rw [h.refcnt b,hs.count b]
    refine total_congr fun u => ?_
    unfold uses
    rw [h.slot u]
  · rw [h.slot u] at hu
    rw [h.key b,h.want]
    exact hs.asked u b hu
  · rw [h.key b,h.key c] at hk
    rw [hdev b] at hd
    exact hs.uniq b c hk hd
  · rw [hdev b] at hd ⊢
    exact hs.dev b hd

lemma counted_put [DecidableEq U] {u : U} (hs : Counted devs s) (hu : s.pc u = .releasing b) :
    Counted devs ((release s b).goto u .idle) := by
  have hslot : (s.pc u).slot = some b := by
    rw [hu]
    rfl
  have hbuf : ∀ c, (((release s b).goto u .idle).buf c).key = (s.buf c).key := by
    intro c
    change ((release s b).buf c).key = _
    rw [release_buf]
    refine update_field Buf.key ?_ c
    rfl
  have hdev : ∀ c, (((release s b).goto u .idle).buf c).dev = (s.buf c).dev := fun c => congrArg fst (hbuf c)
  have hpc : ((release s b).goto u .idle).pc = update s.pc u .idle := by
    unfold State.goto
    rw [release_pc]
  refine ⟨fun c => ?_,fun v c hv => ?_,fun c d hk hd => ?_,fun c hd => ?_⟩
  · have htotal := total_update (fun _ => uses c) s.pc u .idle
    have hcount := hs.count c
    rw [hpc]
    change ((release s b).buf c).refcnt = _
    rw [release_buf]
    by_cases hc : c = b
    · subst hc
      rw [update_self]
      dsimp only
      have h1 : uses c (s.pc u) = 1 := if_pos hslot
      have h0 : uses c .idle = 0 := if_neg nofun
      rw [h1,h0] at htotal
      omega
    · rw [update_of_ne hc]
      have h1 : uses c (s.pc u) = 0 := if_neg fun he => hc (some.inj (he.symm.trans hslot))
      have h0 : uses c .idle = 0 := if_neg nofun
      rw [h1,h0] at htotal
      omega
  · rw [hpc] at hv
    by_cases hvu : v = u
    · rw [hvu,update_self] at hv
      cases hv
    · rw [update_of_ne hvu] at hv
      rw [hbuf c]
      change _ = (release s b).want v ∧ devs ((release s b).want v).1
      rw [release_want]
      exact hs.asked v c hv
  · rw [hbuf c,hbuf d] at hk
    rw [hdev c] at hd
    exact hs.uniq c d hk hd
  · rw [hdev c] at hd ⊢
    exact hs.dev c hd

lemma counted_get [DecidableEq U] {u : U} {dev blockno : ℕ} {x : Buf U V} (hs : Counted devs s) (hok : devs dev)
    (hu : s.pc u = .idle) (hpc : t.pc = update s.pc u (.locking b))
    (hwant : t.want = update s.want u (dev,blockno)) (hbuf : t.buf = update s.buf b x)
    (hkey : x.key = (dev,blockno)) (href : x.refcnt = (s.buf b).refcnt+1)
    (hold : (s.buf b).key = (dev,blockno) ∨ ((s.buf b).refcnt = 0 ∧ ∀ c, (s.buf c).key ≠ (dev,blockno))) :
    Counted devs t := by
  have hself : t.buf b = x := by rw [hbuf,update_self]
  have hother : ∀ c, c ≠ b → t.buf c = s.buf c := fun c hc => by rw [hbuf,update_of_ne hc]
  have hidle : (s.pc u).slot = none := by
    rw [hu]
    rfl
  -- no other buffer is that of the block
  have honly : ∀ c, c ≠ b → (s.buf c).key = (dev,blockno) → dev ≠ 0 → False := by
    intro c hc hk hd
    rcases hold with hold | ⟨_,hnone⟩
    · exact hc (hs.uniq c b (hk.trans hold.symm) (by rw [show (s.buf c).dev = dev from congrArg fst hk]; exact hd))
    · exact hnone c hk
  have hxdev : x.dev = dev := congrArg fst hkey
  refine ⟨fun c => ?_,fun v c hv => ?_,fun c d hk hd => ?_,fun c hd => ?_⟩
  · have htotal := total_update (fun _ => uses c) s.pc u (.locking b)
    have hcount := hs.count c
    have h0 : uses c (s.pc u) = 0 := if_neg (by rw [hidle]; nofun)
    rw [hpc]
    by_cases hc : c = b
    · subst hc
      have h1 : uses c (.locking c) = 1 := if_pos rfl
      rw [h0,h1] at htotal
      rw [hself,href]
      omega
    · have h1 : uses c (.locking b) = 0 := if_neg fun he => hc (some.inj he).symm
      rw [h0,h1] at htotal
      rw [hother c hc]
      omega
  · rw [hpc] at hv
    rw [hwant]
    by_cases hvu : v = u
    · subst hvu
      rw [update_self] at hv ⊢
      obtain rfl : b = c := some.inj hv
      rw [hself]
      exact ⟨hkey,hok⟩
    · rw [update_of_ne hvu] at hv ⊢
      by_cases hc : c = b
      · subst hc
        rcases hold with hold | ⟨hr,_⟩
        · rw [hself,hkey,← hold]
          exact hs.asked v c hv
        · exact absurd hv (hs.unused hr v)
      · rw [hother c hc]
        exact hs.asked v c hv
  · by_cases hc : c = b
    · by_cases hd' : d = b
      · rw [hc,hd']
      · rw [hc,hself,hother d hd',hkey] at hk
        rw [hc,hself,hxdev] at hd
        exact (honly d hd' hk.symm hd).elim
    · by_cases hd' : d = b
      · rw [hd',hself,hother c hc,hkey] at hk
        rw [hother c hc] at hd
        exact (honly c hc hk (by rw [← show (s.buf c).dev = dev from congrArg fst hk]; exact hd)).elim
      · rw [hother c hc,hother d hd'] at hk
        rw [hother c hc] at hd
        exact hs.uniq c d hk hd
  · by_cases hc : c = b
    · rw [hc,hself,hxdev]
      exact hok
    · rw [hother c hc] at hd ⊢
      exact hs.dev c hd

lemma reach_counted [DecidableEq U] (h : (cache U V).ReachWhile (asks devs) s) : Counted devs s := by
  refine h.invariant_on (J := Ringed) (fun s hs => reach_ringed hs) (fun s hs => ?_) fun s l t hr hc hok ht => ?_
  · refine ⟨fun b => ?_,fun u b hu => ?_,fun b c _ hd => absurd (hs.buf b).1 hd,fun b hd => absurd (hs.buf b).1 hd⟩
    · rw [(hs.buf b).2.2.1]
      refine (total_eq_zero fun u => ?_).symm
      rw [hs.pc u]
      exact if_neg nofun
    · rw [hs.pc u] at hu
      cases hu
  · have hm : Moves s l t := step_moves ht
    cases hm.kind with
    | get b x hu hpc hwant hlinks hbuf hkey howner href hold =>
      refine counted_get hc hok hu hpc hwant hbuf hkey href ?_
      rcases hold with hold | ⟨hr0,_,hnone⟩
      · exact Or.inl hold
      · refine Or.inr ⟨hr0,fun c hk => ?_⟩
        have := of_decide_eq_false (hr.not_cached hnone c)
        exact this ⟨congrArg fst hk,congrArg snd hk⟩
    | put hu htt =>
      subst htt
      exact counted_put hc hu
    | kept h => exact counted_kept hc h

end

end Xv6Threads.Bio
