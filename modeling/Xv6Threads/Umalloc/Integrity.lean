import Xv6Threads.Umalloc.Malloc

/-! The heap of a process over all its calls of `malloc` and `free`. -/
namespace Xv6Threads.Umalloc
open List State
variable {base : ℕ} {s t : State}

/-- The headers of the live blocks. -/
def State.blocks (s : State) : List ℕ := s.live.map fun b => b.1-8

/-- Before the first call, or with a list of free blocks. -/
structure Inv (base : ℕ) (s : State) : Prop where
  base_pos : 0 < base
  heap : (s.heap.freep = 0 ∧ s.heap.segs = [] ∧ s.live = [] ∧ base+8 ≤ s.heap.brk ∧ s.heap.brk < 2^31) ∨
    ∃ l, Ring base s.heap l s.blocks
  live : ∀ b ∈ s.live, 8 ≤ b.1 ∧ b.2+8 ≤ 8*s.heap.size (b.1-8)

lemma units_le (nbytes : ℕ) : nbytes+8 ≤ 8*units nbytes ∧ 1 ≤ units nbytes := by
  unfold units
  omega

lemma Ring.freep_pos {h : Heap} {l live : List ℕ} (hr : Ring base h l live) (hbase : 0 < base) : h.freep ≠ 0 := by
  rcases mem_cons.mp hr.freep with hf | hf
  · omega
  · have := hr.bounds (mem_append_left live hf)
    omega

lemma Inv.start (hi : Inv base s) : ∃ l, Ring base (s.heap.start base) l s.blocks ∧
    ∀ a ∈ s.blocks, (s.heap.start base).size a = s.heap.size a := by
  rcases hi.heap with ⟨h0,hsegs,hlive,hroom⟩ | ⟨l,hr⟩
  · have hblocks : s.blocks = [] := by simp [blocks,hlive]
    rw [hblocks]
    exact ⟨[],ring_start h0 hsegs hroom,nofun⟩
  · have hstart : s.heap.start base = s.heap := if_neg (hr.freep_pos hi.base_pos)
    rw [hstart]
    exact ⟨l,hr,fun a _ => rfl⟩

lemma Inv.malloc (hi : Inv base s) (nbytes : ℕ) (answer : ℕ → Option ℕ) :
    ∃ r h k, malloc base bound s.heap nbytes answer = some (r,h,k) ∧ k ≤ 1 ∧
      ((r = 0 ∧ h = s.heap.start base) ∨ ∃ q l, r = q+8 ∧ Ring base h l (q :: s.blocks) ∧ h.size q = units nbytes ∧
        ∀ a ∈ s.blocks, h.size a = s.heap.size a) := by
  obtain ⟨l,hr,hsame⟩ := hi.start
  have hlen := hr.length_le
  have hroom := hr.room
  obtain ⟨r,h,k,hloop,hk,-,hcase⟩ := mallocLoop_spec (m := bound) (n := bound) answer hi.base_pos hr
    (units_le nbytes).2 (by unfold bound; omega) (by decide)
  refine ⟨r,h,k,hloop,hk,hcase.imp_right ?_⟩
  rintro ⟨q,l',hq,hr',hs,hlive⟩
  exact ⟨q,l',hq,hr',hs,fun a ha => (hlive a ha).trans (hsame a ha)⟩

lemma Inv.free (hi : Inv base s) {ap : ℕ} (hap : ap ∈ s.live.map Prod.fst) : ∃ h l, free bound s.heap ap = some h ∧
      Ring base h l (State.mk h (s.live.eraseP fun b => b.1 = ap)).blocks ∧
      ∀ b ∈ s.live.eraseP (fun b => b.1 = ap), h.size (b.1-8) = s.heap.size (b.1-8) := by
  obtain ⟨b,hb,rfl⟩ := mem_map.mp hap
  obtain ⟨c,u,v,-,hc,hlive,herase⟩ := exists_of_eraseP (p := fun c => decide (c.1 = b.1)) hb (by simp)
  have hc : c.1 = b.1 := of_decide_eq_true hc
  rcases hi.heap with ⟨-,-,hnil,-⟩ | ⟨l,hr⟩
  · rw [hnil] at hb
    cases hb
  · have hperm : s.blocks.Perm ((b.1-8) :: (u++v).map fun b => b.1-8) := by
      rw [blocks,hlive,map_append,map_cons,hc,map_append]
      exact perm_middle
    have hlen := hr.length_le
    have hroom := hr.room
    obtain ⟨h,l',hfree,hr',hsame,-⟩ := free_spec (n := bound) (hr.perm hperm) (by unfold bound; omega)
    rw [Nat.sub_add_cancel (hi.live b hb).1] at hfree
    rw [herase]
    exact ⟨h,l',hfree,hr',fun a ha => hsame _ (mem_map_of_mem ha)⟩

lemma Inv.step {lab : Label} (hi : Inv base s) (h : s.step base lab = some t) : Inv base t := by
  cases lab with
  | malloc nbytes answer =>
    simp only [State.step] at h
    split_ifs at h with hsmall
    obtain ⟨r,h',k,hm,-,hcase⟩ := hi.malloc nbytes answer
    rw [hm] at h
    cases h
    rcases hcase with ⟨rfl,rfl⟩ | ⟨q,l,rfl,hr,hs,hlive⟩
    · obtain ⟨l,hr,hsame⟩ := hi.start
      refine ⟨hi.base_pos,.inr ⟨l,hr⟩,fun b hb => ?_⟩
      have hb : b ∈ s.live := hb
      have := hi.live b hb
      have hmem : b.1-8 ∈ s.blocks := mem_map_of_mem hb
      change 8 ≤ b.1 ∧ b.2+8 ≤ 8*(s.heap.start base).size (b.1-8)
      rwa [hsame _ hmem]
    · refine ⟨hi.base_pos,.inr ⟨l,hr⟩,fun b hb => ?_⟩
      rcases mem_cons.mp hb with rfl | hb
      · have := (units_le nbytes).1
        change 8 ≤ q+8 ∧ nbytes+8 ≤ 8*h'.size q
        omega
      · have := hi.live b hb
        have hmem : b.1-8 ∈ s.blocks := mem_map_of_mem hb
        change 8 ≤ b.1 ∧ b.2+8 ≤ 8*h'.size (b.1-8)
        rwa [hlive _ hmem]
  | free ap =>
    simp only [State.step] at h
    split_ifs at h with hap
    obtain ⟨h',l,hf,hr,hsame⟩ := hi.free hap
    rw [hf] at h
    cases h
    refine ⟨hi.base_pos,.inr ⟨l,hr⟩,fun b hb => ?_⟩
    change 8 ≤ b.1 ∧ b.2+8 ≤ 8*h'.size (b.1-8)
    rw [hsame b hb]
    exact hi.live b (mem_of_mem_eraseP hb)

lemma inv_of_init (h : (program base).init s) : Inv base s := by
  obtain ⟨h0,hsegs,hlive,hbase,hroom⟩ := h
  exact ⟨hbase,.inl ⟨h0,hsegs,hlive,hroom⟩,fun b hb => by simp [hlive] at hb⟩

lemma inv_of_reachable (h : (program base).Reachable s) : Inv base s :=
  System.Reachable.invariant (I := Inv base) (fun _ => inv_of_init) (fun _ _ _ hi ht => hi.step ht) h

/-- Two blocks have no address in common. -/
def Apart (size : ℕ → ℕ) (a b : ℕ) : Prop := a+8*size a ≤ b ∨ b+8*size b ≤ a

lemma apart_blocks {size : ℕ → ℕ} {as : List ℕ} (h : ∀ x, cover size as x ≤ 1) (hpos : ∀ a ∈ as, 1 ≤ size a) :
    as.Pairwise (Apart size) := by
  induction as with
  | nil => exact .nil
  | cons a as ih =>
    have hrest : ∀ x, cover size as x ≤ 1 := fun x => by
      have := h x
      rw [cover_cons] at this
      omega
    refine .cons (fun b hb => ?_) (ih hrest fun b hb => hpos b (mem_cons_of_mem a hb))
    have hcover : ∀ x, cover size ([a]++as) x ≤ 1 := h
    exact apart_of_cover hcover mem_cons_self hb (hpos a mem_cons_self) (hpos b (mem_cons_of_mem a hb))

/-- The free blocks `l` of a heap: a ring in the order of addresses, no two of them touching, which together with the
live blocks covers the memory from `sbrk`, without overlap. -/
structure Intact (base : ℕ) (s : State) (l : List ℕ) : Prop where
  ring : s.heap.freep ≠ 0 → Chain s.heap.ptr (base :: l++[base]) ∧ s.heap.freep ∈ base :: l
  unused : s.heap.freep = 0 → l = [] ∧ s.live = []
  sorted : (base :: l).Pairwise (· < ·)
  not_adjacent : l.Pairwise fun a b => a+8*s.heap.size a < b
  disjoint : (l++s.blocks).Pairwise (Apart s.heap.size)
  tiles : ∀ x, (∃ a ∈ l++s.blocks, a ≤ x ∧ x < a+8*s.heap.size a) ↔ ∃ m ∈ s.heap.segs, m.1 ≤ x ∧ x < m.1+m.2

lemma Ring.intact {l : List ℕ} (hr : Ring base s.heap l s.blocks) (hbase : 0 < base) : Intact base s l := by
  have hf := hr.freep_pos hbase
  refine ⟨fun _ => ⟨hr.links,hr.freep⟩,fun h => absurd h hf,hr.sorted,(pairwise_cons.mp hr.gaps).2,
    apart_blocks hr.cover_le hr.pos,fun x => ?_⟩
  have htile := hr.tile x
  have h1 : 0 < cover s.heap.size (l++s.blocks) x ↔ ∃ a ∈ l++s.blocks, a ≤ x ∧ x < a+8*s.heap.size a := by
    rw [cover,countP_pos_iff]
    simp
  have h2 : 0 < owned s.heap.segs x ↔ ∃ m ∈ s.heap.segs, m.1 ≤ x ∧ x < m.1+m.2 := by simp [owned,countP_pos_iff]
  rw [← h1,← h2,htile]

lemma Inv.intact (hi : Inv base s) : ∃ l, Intact base s l := by
  rcases hi.heap with ⟨h0,hsegs,hlive,-⟩ | ⟨l,hr⟩
  · have hblocks : s.blocks = [] := by simp [blocks,hlive]
    refine ⟨[],fun h => absurd h0 h,fun _ => ⟨rfl,hlive⟩,pairwise_singleton _ _,.nil,?_,fun x => ?_⟩
    · simp [hblocks]
    · simp [hblocks,hsegs]
  · exact ⟨l,hr.intact hi.base_pos⟩

/-- Over all calls of `malloc` and `free` the heap stays intact, every live block has the bytes asked for, `malloc`
ends with at most one `morecore` and changes nothing when it returns 0, and `free` ends. -/
theorem heap_stays_intact (h : (program base).Reachable s) :
    (∃ l, Intact base s l) ∧ (∀ b ∈ s.live, 8 ≤ b.1 ∧ b.1+b.2 ≤ (b.1-8)+8*s.heap.size (b.1-8)) ∧
    (∀ nbytes answer, Small nbytes → ∃ r h k, malloc base bound s.heap nbytes answer = some (r,h,k) ∧ k ≤ 1 ∧
      (r = 0 → h = s.heap.start base)) ∧ ∀ ap ∈ s.live.map Prod.fst, ∃ h, free bound s.heap ap = some h := by
  have hi := inv_of_reachable h
  refine ⟨hi.intact,fun b hb => ?_,fun nbytes answer _ => ?_,fun ap hap => ?_⟩
  · have := hi.live b hb
    omega
  · obtain ⟨r,h',k,hm,hk,hcase⟩ := hi.malloc nbytes answer
    refine ⟨r,h',k,hm,hk,fun hr => ?_⟩
    rcases hcase with ⟨-,hh⟩ | ⟨q,-,hq,-⟩
    · exact hh
    · omega
  · obtain ⟨h',-,hf,-⟩ := hi.free hap
    exact ⟨h',hf⟩

/-- A program with no memory yet. -/
def fresh : State := ⟨⟨fun _ => 0,fun _ => 0,0,4096,[]⟩,[]⟩

/-- Two blocks from one piece of memory, the first of them freed. -/
theorem one_live_block : ∃ s, (program 16).Reachable s ∧ s.live = [(36816,20)] ∧ 20+8 ≤ 8*s.heap.size 36808 := by
  have hrun : ∃ s, (program 16).Reachable s ∧ s.live = [(36816,20)] :=
    System.reachable_of_exec [.malloc 10 fun _ => some 0,.malloc 20 fun _ => none,.free 36848] _
      (s := fresh) ⟨rfl,rfl,rfl,by decide,by decide,by decide⟩ (by decide +kernel)
  obtain ⟨s,hs,hlive⟩ := hrun
  have hbytes : 36816+20 ≤ 36808+8*s.heap.size 36808 := ((heap_stays_intact hs).2.1 (36816,20) (by simp [hlive])).2
  exact ⟨s,hs,hlive,by omega⟩

end Xv6Threads.Umalloc
