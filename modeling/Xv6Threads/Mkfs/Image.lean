import Xv6Threads.Mkfs.Append

/-! The image while it grows: every inode leads to its file, and the blocks taken so far are divided
among the files. -/
namespace Xv6Threads.Mkfs
open List List.Perm Disk

/-- The type of inode `i+1`. -/
def typeOf (i : ℕ) : ℕ := if i = 0 then tDir else tFile

/-- Inode `i+1` is that of the file `n`. -/
structure Holds (D : Image) (next i : ℕ) (n : Node) : Prop where
  rep : Rep D next (rinode D (i+1)).addrs n
  size : (rinode D (i+1)).size = n.content.length
  type : (rinode D (i+1)).type = typeOf i
  nlink : (rinode D (i+1)).nlink = 1
  snug : Snug n

structure Built (m : Mk) (nodes : List Node) : Prop where
  low : 59 ≤ m.freeblock
  high : m.freeblock ≤ 1000
  inum : m.freeinode = nodes.length+1
  few : nodes.length < 200
  node : ∀ i n, nodes[i]? = some n → Holds m.disk m.freeblock i n
  owned : (nodes.flatMap Node.owned).Perm (List.range' 59 (m.freeblock-59))
  blank : Blank m.disk m.freeblock
  iwrites : ∀ b ∈ m.iwrites, 32 ≤ b ∧ b < 58

lemma iblock_range {i : ℕ} (hi : i < 200) : 32 ≤ iblock i ∧ iblock i < 58 := by
  unfold iblock inodestart
  omega

section
variable {nodes : List Node} {n n' : Node} {i j : ℕ}

lemma flatMap_set_perm {l : List ℕ} (hi : nodes[i]? = some n) (h : n'.owned.Perm (n.owned++l)) :
    ((nodes.set i n').flatMap Node.owned).Perm (nodes.flatMap Node.owned++l) := by
  induction nodes generalizing i with
  | nil => cases hi
  | cons x xs ih =>
    cases i with
    | zero =>
      cases hi
      rw [set_cons_zero,flatMap_cons,flatMap_cons]
      refine (append_right _ h).trans ?_
      rw [append_assoc,append_assoc]
      exact append_left _ perm_append_comm
    | succ i =>
      rw [set_cons_succ,flatMap_cons,flatMap_cons,append_assoc]
      exact append_left _ (ih hi)

lemma owned_disjoint (h : (nodes.flatMap Node.owned).Nodup) (hi : nodes[i]? = some n) (hj : nodes[j]? = some n') (hij : i ≠ j)
    {b : ℕ} (hb : b ∈ n.owned) : b ∉ n'.owned := by
  obtain ⟨hi',rfl⟩ := List.getElem?_eq_some_iff.mp hi
  obtain ⟨hj',rfl⟩ := List.getElem?_eq_some_iff.mp hj
  have hpair := pairwise_iff_getElem.mp (nodup_flatMap.mp h).2
  intro hb'
  rcases Nat.lt_or_gt_of_ne hij with hlt | hlt
  · exact hpair i j hi' hj' hlt hb hb'
  · exact hpair j i hj' hi' hlt hb' hb

end

section
variable {m : Mk} {nodes : List Node} {n : Node} {i : ℕ}

lemma Built.nodup (h : Built m nodes) : (nodes.flatMap Node.owned).Nodup := h.owned.nodup_iff.mpr nodup_range'

lemma Holds.frame {D E : Image} {next next' : ℕ} (h : Holds D next i n) (hD : ∀ b ∈ n.owned, E b = D b) (hn : next ≤ next')
    (hi : SameInode (rinode D (i+1)) (rinode E (i+1))) : Holds E next' i n :=
  ⟨h.rep.congr hD hn hi.addrs,hi.size.trans h.size,hi.type.trans h.type,hi.nlink.trans h.nlink,h.snug⟩

lemma holds_winode {D : Image} {next : ℕ} {d : Dinode} (hR : Rep D next d.addrs n) (hlim : next ≤ 1000) (hi : i+1 < 200)
    (hs : d.size = n.content.length) (ht : d.type = typeOf i) (hl : d.nlink = 1) (hsnug : Snug n) :
    Holds (winode D (i+1) d) next i n := by
  have hblock := iblock_range hi
  have hfits := hR.fits
  have hmax := hR.max
  have htype : typeOf i < 2^16 := by
    unfold typeOf tDir tFile
    split <;> omega
  refine ⟨hR.congr (fun b hb => winode_other ?_) le_rfl fun k hk => ?_,?_,?_,?_,hsnug⟩
  · have := hR.range b hb
    omega
  · have := hR.addrs_lt hk
    exact rinode_addrs hk (by omega)
  · rw [rinode_size (by omega),hs]
  · rw [rinode_type (by rw [ht]; exact htype),ht]
  · rw [rinode_nlink (by omega),hl]

lemma rinode_eq (m : Mk) {i : ℕ} (hi : i < 200) : m.rinode i = some (rinode m.disk i) := by
  have := iblock_range hi
  unfold Mk.rinode rsect
  rw [if_pos (show iblock i < 1000 by omega)]
  rfl

lemma winode_eq (m : Mk) {i : ℕ} (d : Dinode) (hi : i < 200) :
    m.winode i d = some ⟨winode m.disk i d,m.freeinode,m.freeblock,iblock i :: m.iwrites⟩ := by
  have := iblock_range hi
  unfold Mk.winode rsect
  rw [if_pos (show iblock i < 1000 by omega)]
  rfl

/-- `iappend` on a file of the image. -/
lemma iappend_spec (h : Built m nodes) (hi : nodes[i]? = some n) (p : List UInt8) : (iappend m (i+1) p = none ∧
      ¬(n.content.length+p.length ≤ 512*140 ∧ m.freeblock+n.after p.length ≤ 1000+cost n.blocks.length)) ∨
      ∃ m' n', iappend m (i+1) p = some m' ∧ Built m' (nodes.set i n') ∧ n'.content = n.content++p := by
  have hlen := (List.getElem?_eq_some_iff.mp hi).1
  have hlow := h.low
  have hfew := h.few
  have hH := h.node i n hi
  have hblock := iblock_range (show i+1 < 200 by omega)
  unfold iappend
  rw [rinode_eq m (by omega),Option.bind_some,hH.size]
  rcases appendLoop_spec (c := ⟨rinode m.disk (i+1),m.disk,m.freeblock⟩) (Nat.le_refl p.length) hH.rep h.blank h.low h.high
    hH.snug with ⟨hnone,hfull⟩ | ⟨c',n',hsome,hg,hc,hs,hlim⟩
  · exact Or.inl ⟨by rw [hnone]; rfl,hfull⟩
  have hle : m.freeblock ≤ c'.freeblock := hg.le
  rw [hsome,Option.bind_some,winode_eq _ _ (by omega)]
  refine Or.inr ⟨_,n',rfl,⟨hlow.trans hle,hlim,?_,?_,fun j x hj => ?_,?_,fun b hb => ?_,fun b hb => ?_⟩,hc⟩
  · rw [length_set]
    exact h.inum
  · rw [length_set]
    exact hfew
  · by_cases hij : i = j
    · subst hij
      rw [getElem?_set_self hlen] at hj
      cases hj
      refine holds_winode hg.rep hlim (by omega) ?_ (hg.type.trans hH.type) (hg.nlink.trans hH.nlink) hs
      rw [hc,length_append]
    · rw [getElem?_set_ne hij] at hj
      have hjlen := (List.getElem?_eq_some_iff.mp hj).1
      have hold := h.node j x hj
      have hjblock := iblock_range (show j+1 < 200 by omega)
      have hmeta : ∀ b, b < 59 → c'.disk b = m.disk b := by
        intro b hb
        refine hg.frame b (show b < m.freeblock by omega) fun hm => ?_
        have := (hH.rep.range b hm).1
        omega
      refine hold.frame (fun b hb => ?_) hle ?_
      · have hrange := hold.rep.range b hb
        dsimp only
        rw [winode_other (by omega)]
        exact hg.frame b hrange.2 (owned_disjoint h.nodup hj hi (Ne.symm hij) hb)
      · exact (SameInode.of_eq (rinode_congr (hmeta (iblock (j+1)) (by omega)))).trans (rinode_other (by omega))
  · dsimp only
    rw [range'_split hlow hle]
    exact (flatMap_set_perm hi hg.owned).trans (append_right _ h.owned)
  · dsimp only at hb ⊢
    rw [winode_other (by omega)]
    exact hg.blank b hb
  · rcases mem_cons.mp hb with rfl | hb
    · exact hblock
    · exact h.iwrites b hb

lemma ialloc_spec (h : Built m nodes) (hfew : nodes.length+1 < 200) :
    ∃ m', ialloc m (typeOf nodes.length) = some (nodes.length+1,m') ∧ Built m' (nodes++[⟨[],[],none⟩]) := by
  have hblock := iblock_range hfew
  have hlow := h.low
  have hnone : Rep m.disk m.freeblock (fun _ => 0) ⟨[],[],none⟩ :=
    ⟨le_rfl,by dsimp only [length_nil]; omega,fun k _ => (getD_nil ..).symm,rfl,nofun,nofun,nofun, nodup_nil,nofun⟩
  unfold ialloc
  rw [h.inum,winode_eq _ _ hfew]
  refine ⟨_,rfl,hlow,h.high,?_,?_,fun j x hj => ?_,?_,fun b hb => ?_,fun b hb => ?_⟩
  · rw [length_append]
    rfl
  · rw [length_append]
    exact hfew
  · by_cases hjl : j < nodes.length
    · rw [getElem?_append_left hjl] at hj
      have hold := h.node j x hj
      refine hold.frame (fun b hb => ?_) le_rfl (rinode_other (by omega))
      have hrange := hold.rep.range b hb
      dsimp only
      rw [winode_other (by omega)]
    · rw [getElem?_append_right (by omega)] at hj
      have hjeq : j = nodes.length := by
        by_contra hne
        rw [getElem?_eq_none (by rw [length_singleton]; omega)] at hj
        cases hj
      subst hjeq
      rw [Nat.sub_self] at hj
      cases hj
      exact holds_winode hnone h.high hfew rfl rfl rfl ⟨rfl,nofun⟩
  · rw [flatMap_append]
    exact (of_eq (append_nil _)).trans h.owned
  · dsimp only at hb ⊢
    rw [winode_other (by omega)]
    exact h.blank b hb
  · rcases mem_cons.mp hb with rfl | hb
    · exact hblock
    · exact h.iwrites b hb

lemma built_blank : Built blank [] := by
  refine ⟨le_rfl,by decide,rfl,by decide,nofun,List.Perm.refl _,fun b hb => ?_,nofun⟩
  have hb' : 59 ≤ b := hb
  unfold blank
  dsimp only
  rw [Function.update_of_ne (show b ≠ 1 by omega)]

end

end Xv6Threads.Mkfs
