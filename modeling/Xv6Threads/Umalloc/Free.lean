import Xv6Threads.Foundations.Chain
import Xv6Threads.Umalloc.Model

/-! The invariant of the heap, and `free`, which keeps it. How often an address lies in a block is counted: splitting
and joining blocks leaves the count as it is, and it is one in the memory from `sbrk` and zero elsewhere. -/
namespace Xv6Threads.Umalloc
open Function List

/-- How many of the blocks at `as` have the address `x`. -/
def cover (size : ℕ → ℕ) (as : List ℕ) (x : ℕ) : ℕ := as.countP fun a => a ≤ x ∧ x < a+8*size a

/-- How many pieces of memory have the address `x`. -/
def owned (segs : List (ℕ × ℕ)) (x : ℕ) : ℕ := segs.countP fun s => s.1 ≤ x ∧ x < s.1+s.2

section
variable {size size' : ℕ → ℕ} {as bs : List ℕ} {a b x : ℕ}

lemma cover_append : cover size (as++bs) x = cover size as x+cover size bs x := countP_append

lemma cover_cons : cover size (a :: as) x = cover size as x+if a ≤ x ∧ x < a+8*size a then 1 else 0 := by
  simp [cover,countP_cons]

lemma cover_congr (h : ∀ a ∈ as, size' a = size a) : cover size' as x = cover size as x := by
  refine countP_congr fun a ha => ?_
  rw [h a ha]

lemma cover_pos (ha : a ∈ as) (h1 : a ≤ x) (h2 : x < a+8*size a) : 0 < cover size as x :=
  countP_pos_iff.mpr ⟨a,ha,by simpa using ⟨h1,h2⟩⟩

lemma apart_of_cover (h : ∀ x, cover size (as++bs) x ≤ 1) (ha : a ∈ as) (hb : b ∈ bs) (hsa : 1 ≤ size a)
    (hsb : 1 ≤ size b) : a+8*size a ≤ b ∨ b+8*size b ≤ a := by
  by_contra hno
  have h1 : 0 < cover size as (max a b) := cover_pos ha (by omega) (by omega)
  have h2 : 0 < cover size bs (max a b) := cover_pos hb (by omega) (by omega)
  have := h (max a b)
  rw [cover_append] at this
  omega

end

/-- The list of the free blocks `l` after `base`, and the other blocks `live`. -/
structure Ring (base : ℕ) (h : Heap) (l live : List ℕ) : Prop where
  links : Chain h.ptr (base :: l++[base])
  gaps : (base :: l).Pairwise fun a b => a+8*h.size a < b
  base_size : h.size base = 0
  pos : ∀ a ∈ l++live, 1 ≤ h.size a
  freep : h.freep ∈ base :: l
  tile : ∀ x, cover h.size (l++live) x = owned h.segs x
  once : ∀ x, owned h.segs x ≤ 1
  within : ∀ x, 0 < owned h.segs x → base+8 ≤ x ∧ x < h.brk
  room : base+8 ≤ h.brk ∧ h.brk < 2^31

namespace Ring
variable {base : ℕ} {h : Heap} {l live : List ℕ} {a b bp : ℕ}

section
variable (hr : Ring base h l live)
include hr

lemma cover_le (x : ℕ) : cover h.size (l++live) x ≤ 1 := by
  rw [hr.tile]
  exact hr.once x

lemma bounds (ha : a ∈ l++live) : base+8 ≤ a ∧ a+8*h.size a ≤ h.brk := by
  have hpos := hr.pos a ha
  have h1 : 0 < cover h.size (l++live) a := cover_pos ha (by omega) (by omega)
  have h2 : 0 < cover h.size (l++live) (a+8*h.size a-1) := cover_pos ha (by omega) (by omega)
  rw [hr.tile] at h1 h2
  have := hr.within _ h1
  have := hr.within _ h2
  omega

lemma apart (ha : a ∈ l) (hb : b ∈ live) : a+8*h.size a ≤ b ∨ b+8*h.size b ≤ a :=
  apart_of_cover hr.cover_le ha hb (hr.pos a (mem_append_left live ha)) (hr.pos b (mem_append_right l hb))

lemma live_not_mem (hb : b ∈ live) : b ∉ base :: l := by
  intro hmem
  rcases mem_cons.mp hmem with rfl | hmem
  · have := (hr.bounds (mem_append_right l hb)).1
    omega
  · have := hr.apart hmem hb
    have := hr.pos b (mem_append_right l hb)
    omega

lemma sorted : (base :: l).Pairwise (· < ·) := hr.gaps.imp fun hab => by omega

lemma nodup : (base :: l).Nodup := hr.sorted.imp fun hab => Nat.ne_of_lt hab

lemma length_le : l.length ≤ h.brk := by
  have hsub : l ⊆ range h.brk := by
    intro a ha
    have := hr.bounds (mem_append_left live ha)
    have := hr.pos a (mem_append_left live ha)
    exact mem_range.mpr (by omega)
  simpa using (subperm_of_subset (nodup_cons.mp hr.nodup).2 hsub).length_le

end

end Ring

variable {l : List ℕ}

lemma split_sorted {b : ℕ} (hl : l.Pairwise (· < ·)) (hb : b ∉ l) :
    ∃ l1 l2, l = l1++l2 ∧ (∀ a ∈ l1, a < b) ∧ ∀ a ∈ l2, b < a := by
  induction l with
  | nil => exact ⟨[],[],rfl,nofun,nofun⟩
  | cons a l ih =>
    obtain ⟨ha,hl⟩ := pairwise_cons.mp hl
    rw [mem_cons,not_or] at hb
    rcases Nat.lt_or_gt_of_ne hb.1 with hlt | hgt
    · refine ⟨[],a :: l,rfl,nofun,fun c hc => ?_⟩
      rcases mem_cons.mp hc with rfl | hc
      · exact hlt
      · exact Nat.lt_trans hlt (ha c hc)
    · obtain ⟨l1,l2,rfl,h1,h2⟩ := ih hl hb.2
      refine ⟨a :: l1,l2,rfl,fun c hc => ?_,h2⟩
      rcases mem_cons.mp hc with rfl | hc
      · exact hgt
      · exact h1 c hc

/-- The place of `bp` in the list: after `p` and before `l2`. -/
structure Place (base : ℕ) (l : List ℕ) (bp : ℕ) (c : List ℕ) (p : ℕ) (l2 : List ℕ) : Prop where
  split : base :: l = c++p :: l2
  before : ∀ a ∈ c++[p], a < bp
  after : ∀ a ∈ l2, bp < a

lemma Ring.place {base bp : ℕ} {h : Heap} {l live : List ℕ} (hr : Ring base h l (bp :: live)) :
    ∃ c p l2, Place base l bp c p l2 := by
  have hbp := hr.live_not_mem mem_cons_self
  have hbase := (hr.bounds (mem_append_right l mem_cons_self)).1
  obtain ⟨hb,hl⟩ := pairwise_cons.mp hr.sorted
  obtain ⟨l1,l2,rfl,h1,h2⟩ := split_sorted hl (fun hmem => hbp (mem_cons_of_mem base hmem))
  have hc := dropLast_append_getLast (cons_ne_nil base l1)
  refine ⟨(base :: l1).dropLast,(base :: l1).getLast (cons_ne_nil base l1),l2,?_,?_,h2⟩
  · rw [← singleton_append (l := l2),← append_assoc,hc]
    rfl
  · rw [hc]
    intro a ha
    rcases mem_cons.mp ha with rfl | ha
    · omega
    · exact h1 a ha

section
variable {base bp p : ℕ} {h : Heap} {l live c l2 : List ℕ}

/-- Where the loop of `free` stops. -/
def Stop (h : Heap) (bp p : ℕ) : Prop := (bp > p ∧ bp < h.ptr p) ∨ (p ≥ h.ptr p ∧ (bp > p ∨ bp < h.ptr p))

lemma freeSearch_eq {x y q n : ℕ} {d : List ℕ} (hl : Chain h.ptr (x :: d++[q])) (hy : y ∈ x :: d)
    (hstop : ∀ z ∈ x :: d, Stop h bp z ↔ z = y) (hn : d.length < n) : freeSearch h bp n x = some y := by
  induction d generalizing x n with
  | nil =>
    obtain ⟨n,rfl⟩ : ∃ m, n = m+1 := ⟨n-1,by omega⟩
    obtain rfl : y = x := mem_singleton.mp hy
    rcases (hstop y mem_cons_self).mpr rfl with hs | hs
    · simp only [freeSearch,if_pos hs]
    · simp only [freeSearch,if_pos hs]
      split_ifs <;> rfl
  | cons z d ih =>
    obtain ⟨n,rfl⟩ : ∃ m, n = m+1 := ⟨n-1,by omega⟩
    by_cases hs : Stop h bp x
    · obtain rfl := (hstop x mem_cons_self).mp hs
      rcases hs with hs | hs
      · simp only [freeSearch,if_pos hs]
      · simp only [freeSearch,if_pos hs]
        split_ifs <;> rfl
    · obtain ⟨hnext,hl⟩ := isChain_cons_cons.mp hl
      have hxy : y ≠ x := fun hxy => hs ((hstop x mem_cons_self).mpr hxy.symm)
      have hrest := ih hl ((mem_cons.mp hy).resolve_left hxy) (fun w hw => hstop w (mem_cons_of_mem x hw))
        (Nat.lt_of_succ_lt_succ hn)
      rw [Stop,not_or] at hs
      rw [freeSearch,if_neg hs.1,if_neg hs.2,hnext,hrest]

lemma Ring.next (hr : Ring base h l live) {d : List ℕ} {z : ℕ} (hz : base :: l = c++z :: d) :
    Chain h.ptr (z :: d++[base]) ∧ h.ptr z = d.headD base := by
  have hl := hr.links
  rw [hz,append_assoc] at hl
  have hl := (isChain_split.mp hl).2
  exact ⟨hl,chain_next hl⟩

lemma Ring.next_cases (hr : Ring base h l live) {z : ℕ} (hz : z ∈ base :: l) :
    (h.ptr z ∈ base :: l ∧ z < h.ptr z ∧ ∀ a ∈ base :: l, z < a → h.ptr z ≤ a) ∨
    (h.ptr z = base ∧ ∀ a ∈ base :: l, a ≤ z) := by
  obtain ⟨d,e,hde⟩ := append_of_mem hz
  obtain ⟨-,hnext⟩ := hr.next hde
  have hsorted := hr.sorted
  rw [hde] at hsorted ⊢
  obtain ⟨-,hze,hd⟩ := pairwise_append.mp hsorted
  obtain ⟨hz,he⟩ := pairwise_cons.mp hze
  have hdz : ∀ a ∈ d, a < z := fun a ha => hd a ha z mem_cons_self
  cases e with
  | nil =>
    refine .inr ⟨hnext,fun a ha => ?_⟩
    rcases mem_append.mp ha with ha | ha
    · exact Nat.le_of_lt (hdz a ha)
    · exact Nat.le_of_eq (mem_singleton.mp ha)
  | cons f e =>
    obtain rfl : h.ptr z = f := hnext
    refine .inl ⟨by simp,hz _ mem_cons_self,fun a ha hza => ?_⟩
    rcases mem_append.mp ha with ha | ha
    · have := hdz a ha
      omega
    · rcases mem_cons.mp ha with rfl | ha
      · omega
      · rcases mem_cons.mp ha with rfl | ha
        · exact le_rfl
        · exact Nat.le_of_lt ((pairwise_cons.mp he).1 a ha)

variable (hp : Place base l bp c p l2) (hr : Ring base h l (bp :: live))
include hp hr

lemma Place.stop {z : ℕ} (hz : z ∈ base :: l) : Stop h bp z ↔ z = p := by
  have hbase := (hr.bounds (mem_append_right l mem_cons_self)).1
  have hbp := hr.live_not_mem mem_cons_self
  have hpmem : p ∈ base :: l := by
    rw [hp.split]
    simp
  have hp1 : p < bp := hp.before p (by simp)
  have hmax : ∀ a ∈ base :: l, a < bp → a ≤ p := by
    intro a ha hlt
    have hsorted := hr.sorted
    rw [hp.split] at ha hsorted
    rcases mem_append.mp ha with ha | ha
    · exact Nat.le_of_lt ((pairwise_append.mp hsorted).2.2 a ha p mem_cons_self)
    · rcases mem_cons.mp ha with rfl | ha
      · exact le_rfl
      · have := hp.after a ha
        omega
  constructor
  · rintro (⟨h1,h2⟩ | ⟨h1,h2⟩)
    · rcases hr.next_cases hz with ⟨-,-,hleast⟩ | ⟨hlast,-⟩
      · have := hmax z hz h1
        by_contra hne
        have := hleast p hpmem (by omega)
        omega
      · omega
    · rcases hr.next_cases hz with ⟨-,hlt,-⟩ | ⟨hlast,hall⟩
      · omega
      · have := hall p hpmem
        have := hmax z hz (by omega)
        omega
  · rintro rfl
    rcases hr.next_cases hz with ⟨hmem,hlt,-⟩ | ⟨hlast,-⟩
    · refine .inl ⟨hp1,?_⟩
      by_contra hno
      rcases Nat.lt_or_eq_of_le (Nat.le_of_not_lt hno) with hlt' | heq
      · have := hmax _ hmem hlt'
        omega
      · exact hbp (heq ▸ hmem)
    · refine .inr ⟨?_,.inl hp1⟩
      rw [hlast]
      rcases mem_cons.mp hz with rfl | hz
      · exact le_rfl
      · exact Nat.le_of_lt ((pairwise_cons.mp hr.sorted).1 _ hz)

/-- The loop of `free` finds the place of `bp`. -/
lemma Place.search {n : ℕ} (hn : l.length < n) : freeSearch h bp n h.freep = some p := by
  obtain ⟨d,e,hde⟩ := append_of_mem hr.freep
  have hperm : ∀ z, z ∈ h.freep :: (e++d) ↔ z ∈ base :: l := fun z => by
    rw [hde]
    simp [or_comm,or_left_comm]
  have hlen := congrArg length hde
  simp only [length_append,length_cons] at hlen
  refine freeSearch_eq (chain_rotate hr.links hde) ?_ (fun z hz => hp.stop hr ((hperm z).mp hz)) ?_
  · rw [hperm,hp.split]
    simp
  · rw [length_append]
    omega

end

/-- `h'` is `h` with the block `b` put before the blocks `l`, which leaves `l'` after it. -/
structure Joined (base : ℕ) (h h' : Heap) (b : ℕ) (l l' : List ℕ) : Prop where
  ptr : ∀ a, a ≠ b → h'.ptr a = h.ptr a
  size : ∀ a, a ≠ b → h'.size a = h.size a
  grows : h.size b ≤ h'.size b
  touch : h'.size b = h.size b ∨ b+8*h.size b ∈ l
  head : ∀ n ∈ l.head?, n ∈ l' ∨ h.size n ≤ h'.size b
  links : Chain h'.ptr (b :: l'++[base])
  sub : l' ⊆ l
  gaps : (b :: l').Pairwise fun a c => a+8*h'.size a < c
  cover : ∀ x, cover h'.size (b :: l') x = cover h.size (b :: l) x
  brk : h'.brk = h.brk
  segs : h'.segs = h.segs

lemma gaps_congr {size size' : ℕ → ℕ} (h : ∀ a ∈ l, size' a = size a)
    (hl : l.Pairwise fun a c => a+8*size a < c) : l.Pairwise fun a c => a+8*size' a < c :=
  hl.imp_of_mem fun {a c} ha _ hac => by rwa [h a ha]

lemma attach_joined {base b : ℕ} {h : Heap} (hl : Chain h.ptr (l++[base]))
    (hg : l.Pairwise fun a c => a+8*h.size a < c) (hlt : ∀ a ∈ l, b < a ∧ b+8*h.size b ≤ a)
    (hbase : l = [] → b+8*h.size b ≠ base) : ∃ l', Joined base h (h.attach b (l.headD base)) b l l' := by
  have hne : ∀ a ∈ l, a ≠ b := fun a ha hab => by
    have := (hlt a ha).1
    omega
  unfold Heap.attach
  split_ifs with hj
  · cases l with
    | nil => exact absurd hj (hbase rfl)
    | cons n l =>
      have hj : b+8*h.size b = n := hj
      obtain ⟨hn,hg⟩ := pairwise_cons.mp hg
      have hne' : ∀ a ∈ l, a ≠ b := fun a ha => hne a (mem_cons_of_mem n ha)
      have hsame : ∀ a ∈ l, update h.size b (h.size b+h.size n) a = h.size a := fun a ha => update_of_ne (hne' a ha) _ _
      refine ⟨l,fun a ha => update_of_ne ha _ _,fun a ha => update_of_ne ha _ _,?_,
        .inr (by simp [hj]),?_,?_,subset_cons_self n l,?_,fun x => ?_,rfl,rfl⟩
      · simp
      · intro m hm
        cases hm
        exact .inr (by simp)
      · exact chain_start (update_self ..) (fun a ha => update_of_ne (hne' a ha) _ _) hl
      · refine pairwise_cons.mpr ⟨fun a ha => ?_,gaps_congr hsame hg⟩
        have := hn a ha
        simp only [headD_cons,update_self]
        omega
      · simp only [headD_cons,cover_cons,update_self,cover_congr hsame]
        split_ifs <;> omega
  · refine ⟨l,fun a ha => update_of_ne ha _ _,fun a _ => rfl,le_rfl,.inl rfl,
      fun n hn => .inl (mem_of_head? hn),?_,fun a ha => ha,?_,fun x => rfl,rfl,rfl⟩
    · have hcongr := chain_congr (fun a ha => update_of_ne (hne a ha) (l.headD base) h.ptr) hl
      cases l with
      | nil | cons n l => exact isChain_cons_cons.mpr ⟨update_self ..,hcongr⟩
    · refine pairwise_cons.mpr ⟨fun a ha => ?_,hg⟩
      cases l with
      | nil => cases ha
      | cons n l =>
        have hj : ¬ b+8*h.size b = n := hj
        have := (hlt n mem_cons_self).2
        rcases mem_cons.mp ha with rfl | ha
        · change b+8*h.size b < a
          omega
        · have := (pairwise_cons.mp hg).1 a ha
          change b+8*h.size b < a
          omega

lemma cover_base {size : ℕ → ℕ} {base x : ℕ} (h : size base = 0) : cover size (base :: l) x = cover size l x := by
  rw [cover_cons,if_neg (by omega),Nat.add_zero]

section
variable {base bp p : ℕ} {h : Heap} {l live c l2 : List ℕ}

lemma Place.joined (hp : Place base l bp c p l2) (hr : Ring base h l (bp :: live)) :
    ∃ h1 l3 l4, Joined base h h1 bp l2 l3 ∧ Joined base h1 (h.insert bp p) p (bp :: l3) l4 := by
  obtain ⟨hlinks,hnext⟩ := hr.next hp.split
  have hbp := hr.bounds (mem_append_right l mem_cons_self)
  have hgaps := hr.gaps
  rw [hp.split] at hgaps
  have hmem : ∀ a ∈ l2, a ∈ l := fun a ha => by
    have hal : a ∈ base :: l := by
      rw [hp.split]
      simp [ha]
    have := hp.after a ha
    rcases mem_cons.mp hal with rfl | hal
    · omega
    · exact hal
  have hlinks2 : Chain h.ptr (l2++[base]) := isChain_of_isChain_cons hlinks
  obtain ⟨l3,h3⟩ := attach_joined (b := bp) hlinks2
    (pairwise_cons.mp (pairwise_append.mp hgaps).2.1).2
    (fun a ha => ⟨hp.after a ha,by
      have := hr.apart (hmem a ha) mem_cons_self
      have := hp.after a ha
      omega⟩) (fun _ => by omega)
  rw [← hnext] at h3
  have hp1 : p < bp := hp.before p (by simp)
  have hpp : p+8*h.size p ≤ bp := by
    have hpmem : p ∈ base :: l := by
      rw [hp.split]
      simp
    rcases mem_cons.mp hpmem with rfl | hpmem
    · rw [hr.base_size]
      omega
    · have := hr.apart hpmem (mem_cons_self (a := bp))
      omega
  have hsize := h3.size p (by omega)
  obtain ⟨l4,h4⟩ := attach_joined (b := p) (l := bp :: l3) h3.links h3.gaps (fun a ha => by
    rw [hsize]
    rcases mem_cons.mp ha with rfl | ha
    · exact ⟨hp1,hpp⟩
    · have := hp.after a (h3.sub ha)
      omega) nofun
  exact ⟨_,l3,l4,h3,⟨h4.ptr,h4.size,h4.grows,h4.touch,h4.head,h4.links,h4.sub,h4.gaps,h4.cover,h4.brk,h4.segs⟩⟩

lemma Joined.size_le {h' : Heap} {b : ℕ} {l l' : List ℕ} (hj : Joined base h h' b l l') (a : ℕ) :
    h.size a ≤ h'.size a := by
  by_cases hab : a = b
  · rw [hab]
    exact hj.grows
  · exact Nat.le_of_eq (hj.size a hab).symm

lemma Place.live_ne (hp : Place base l bp c p l2) (hr : Ring base h l (bp :: live)) {a : ℕ} (ha : a ∈ live) :
    a ≠ bp ∧ a ≠ p := by
  constructor
  · rintro rfl
    have hcover : ∀ x, cover h.size ((l++[a])++live) x ≤ 1 := fun x => by simpa using hr.cover_le x
    have hpos := hr.pos a (by simp)
    have := apart_of_cover hcover (by simp) ha hpos hpos
    omega
  · rintro rfl
    refine hr.live_not_mem (mem_cons_of_mem bp ha) ?_
    rw [hp.split]
    simp

variable {h1 h2 : Heap} {l3 l4 l' : List ℕ}

section After
variable (hp : Place base l bp c p l2) (hr : Ring base h l (bp :: live)) (h3 : Joined base h h1 bp l2 l3)
  (h4 : Joined base h1 h2 p (bp :: l3) l4) (hl' : base :: l' = c++p :: l4)
include hp hr

variable {a : ℕ}

lemma Place.before_gap (ha : a ∈ c) : a+8*h.size a < p := by
  have hgaps := hr.gaps
  rw [hp.split] at hgaps
  exact (pairwise_append.mp hgaps).2.2 a ha p mem_cons_self

include h3 h4

lemma Place.before_same (ha : a ∈ c) : h2.size a = h.size a ∧ h2.ptr a = h.ptr a := by
  have h1 := hp.before_gap hr ha
  have h2 := hp.before p (by simp)
  exact ⟨(h4.size a (by omega)).trans (h3.size a (by omega)),(h4.ptr a (by omega)).trans (h3.ptr a (by omega))⟩

lemma Place.live_same (ha : a ∈ live) : h2.size a = h.size a := by
  obtain ⟨h1,h2⟩ := hp.live_ne hr ha
  exact (h4.size a h2).trans (h3.size a h1)

lemma Place.base_same : h2.size base = 0 := by
  have hbp := (hr.bounds (mem_append_right l mem_cons_self)).1
  have hsplit := hp.split
  cases c with
  | nil =>
    obtain ⟨rfl,-⟩ := cons.inj hsplit
    have h0 : h1.size base = 0 := (h3.size base (by omega)).trans hr.base_size
    rcases h4.touch with htouch | htouch
    · exact htouch.trans h0
    · rw [h0] at htouch
      rcases mem_cons.mp htouch with htouch | htouch
      · omega
      · have := hp.after _ (h3.sub htouch)
        omega
  | cons a c =>
    obtain ⟨rfl,-⟩ := cons.inj hsplit
    exact (hp.before_same hr h3 h4 mem_cons_self).1.trans hr.base_size

include hl'

lemma Place.gaps : (base :: l').Pairwise fun a b => a+8*h2.size a < b := by
  have hgaps := hr.gaps
  rw [hp.split] at hgaps
  have hgc := (pairwise_append.mp hgaps).1
  rw [hl']
  refine pairwise_append.mpr ⟨gaps_congr (fun a ha => (hp.before_same hr h3 h4 ha).1) hgc,h4.gaps, fun a ha b hb => ?_⟩
  rw [(hp.before_same hr h3 h4 ha).1]
  have := hp.before_gap hr ha
  rcases mem_cons.mp hb with rfl | hb
  · exact this
  · have := (pairwise_cons.mp h4.gaps).1 b hb
    omega

lemma Place.links : Chain h2.ptr (base :: l'++[base]) := by
  have hl := hr.links
  rw [hp.split,append_assoc] at hl
  rw [hl',append_assoc]
  exact isChain_split.mpr
    ⟨chain_congr (fun a ha => (hp.before_same hr h3 h4 ha).2) (isChain_split.mp hl).1,h4.links⟩

lemma Place.sub (ha : a ∈ l') : a ∈ l++bp :: live := by
  have hne := (pairwise_cons.mp (hp.gaps hr h3 h4 hl')).1 a ha
  have hmem : a ∈ c++p :: l4 := hl' ▸ mem_cons_of_mem base ha
  have hold : a = bp ∨ a ∈ base :: l := by
    rw [hp.split]
    rcases mem_append.mp hmem with hmem | hmem
    · exact .inr (mem_append_left _ hmem)
    · rcases mem_cons.mp hmem with rfl | hmem
      · exact .inr (by simp)
      · rcases mem_cons.mp (h4.sub hmem) with rfl | hmem
        · exact .inl rfl
        · exact .inr (by simp [h3.sub hmem])
  rcases hold with rfl | hold
  · simp
  · rcases mem_cons.mp hold with rfl | hold
    · omega
    · exact mem_append_left _ hold

lemma Place.tile (x : ℕ) : cover h2.size (l'++live) x = cover h.size (l++bp :: live) x := by
  have hpbp : p < bp := hp.before p (by simp)
  calc cover h2.size (l'++live) x = cover h2.size (base :: l') x+cover h2.size live x := by
        rw [cover_append,cover_base (hp.base_same hr h3 h4)]
    _ = cover h2.size c x+cover h2.size (p :: l4) x+cover h2.size live x := by rw [hl',cover_append]
    _ = cover h.size c x+cover h1.size (p :: bp :: l3) x+cover h.size live x := by
        rw [cover_congr fun a ha => (hp.before_same hr h3 h4 ha).1,h4.cover,
          cover_congr fun a ha => hp.live_same hr h3 h4 ha]
    _ = cover h.size c x+cover h.size (p :: bp :: l2) x+cover h.size live x := by
        rw [cover_cons,h3.cover,h3.size p (by omega),← cover_cons]
    _ = cover h.size (base :: l) x+cover h.size (bp :: live) x := by
        rw [hp.split,cover_append]
        simp only [cover_cons]
        omega
    _ = cover h.size (l++bp :: live) x := by rw [cover_base hr.base_size,cover_append]

lemma Place.large : ∃ b ∈ l', h.size bp ≤ h2.size b := by
  have hp0 := hr.pos bp (by simp)
  have hbp := h3.grows
  have hin : ∀ b ∈ p :: l4, h.size bp ≤ h2.size b → ∃ b ∈ l', h.size bp ≤ h2.size b := fun b hb hle => by
    have hmem : b ∈ base :: l' := by
      rw [hl']
      exact mem_append_right c hb
    rcases mem_cons.mp hmem with rfl | hmem
    · rw [hp.base_same hr h3 h4] at hle
      omega
    · exact ⟨b,hmem,hle⟩
  rcases h4.head bp rfl with hmem | hle
  · exact hin bp (mem_cons_of_mem p hmem) (Nat.le_trans hbp (h4.size_le bp))
  · exact hin p mem_cons_self (Nat.le_trans hbp hle)

end After

/-- `free` puts the block into the list. -/
lemma free_spec {n : ℕ} (hr : Ring base h l (bp :: live)) (hn : l.length < n) :
    ∃ h' l', free n h (bp+8) = some h' ∧ Ring base h' l' live ∧ (∀ a ∈ live, h'.size a = h.size a) ∧
      h'.brk = h.brk ∧ h'.segs = h.segs ∧ ∃ b ∈ l', h.size bp ≤ h'.size b := by
  obtain ⟨c,p,l2,hp⟩ := hr.place
  obtain ⟨h1,l3,l4,h3,h4⟩ := hp.joined hr
  have hsplit := hp.split
  obtain ⟨l',hl'⟩ : ∃ l', base :: l' = c++p :: l4 := by
    cases c with
    | nil =>
      cases hsplit
      exact ⟨l4,rfl⟩
    | cons a c =>
      cases hsplit
      exact ⟨c++p :: l4,rfl⟩
  have hsegs := h4.segs.trans h3.segs
  have hbrk := h4.brk.trans h3.brk
  refine ⟨h.insert bp p,l',?_,⟨hp.links hr h3 h4 hl',hp.gaps hr h3 h4 hl',hp.base_same hr h3 h4,fun a ha => ?_,?_,
    fun x => ?_,fun x => ?_,fun x hx => ?_,hbrk ▸ hr.room⟩,fun a ha => hp.live_same hr h3 h4 ha,hbrk,hsegs,
    hp.large hr h3 h4 hl'⟩
  · simp only [free,Nat.add_sub_cancel,hp.search hr hn,Option.map_some]
  · refine Nat.le_trans (hr.pos a ?_) (Nat.le_trans (h3.size_le a) (h4.size_le a))
    rcases mem_append.mp ha with ha | ha
    · exact hp.sub hr h3 h4 hl' ha
    · simp [ha]
  · rw [hl']
    exact mem_append_right c mem_cons_self
  · exact (hp.tile hr h3 h4 hl' x).trans ((hr.tile x).trans (congrArg (owned · x) hsegs).symm)
  · exact hsegs ▸ hr.once x
  · exact hbrk ▸ hr.within x (hsegs ▸ hx)

end

end Xv6Threads.Umalloc
