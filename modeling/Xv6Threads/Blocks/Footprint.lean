import Xv6Threads.Blocks.Model

/-! How many blocks the functions of `fs.c` call `log_write` on: the bitmap, the blocks of the inodes, and
for each write the data blocks and the indirect block. -/
namespace Xv6Threads.Blocks
open Function List Option Or Prod Nat Shape
open Disk (iblock)

/-- Only blocks of `B` are logged on the way from `s` to `t`. -/
def Adds (B : List ℕ) (s t : Store) : Prop := ∀ b ∈ t.log, b ∈ s.log ∨ b ∈ B

variable {s t u : Store} {B C : List ℕ} {i bn a : ℕ}

lemma Adds.refl (s : Store) : Adds B s s := fun _ => inl

open Adds

lemma Adds.trans (h : Adds B s t) (h' : Adds B t u) : Adds B s u := fun b hb => (h' b hb).elim (h b) inr

lemma Adds.mono (h : Adds B s t) (hB : B ⊆ C) : Adds C s t := fun b hb => (h b hb).imp_right fun h => hB h

variable {b : ℕ}

lemma Adds.logWrite (h : Adds B s t) (hb : b ∈ B) : Adds B s (t.logWrite b) :=
  fun c hc => (mem_cons.mp hc).elim (fun he => inr (he ▸ hb)) (h c)

/-- Block `bn` of an inode has an address. -/
def Shape.Has (x : Shape) (bn : ℕ) : Prop :=
  if bn < 12 then x.addrs bn ≠ 0 else x.addrs 12 ≠ 0 ∧ x.ind (bn-12) ≠ 0

/-- The indirect block, if there is one. -/
def Shape.indirect (x : Shape) : List ℕ := if x.addrs 12 = 0 then [] else [x.addrs 12]

/-- Block 0 is in use, and no file has a hole. -/
structure Whole (s : Store) : Prop where
  boot : s.used 0 = true
  solid : ∀ i bn, 512*bn < (s.ino i).size → (s.ino i).Has bn

lemma Whole.logWrite (hs : Whole s) : Whole (s.logWrite b) := ⟨hs.boot,hs.solid⟩

lemma Whole.of_inode (hs : Whole s) (hboot : t.used 0 = true) (hother : ∀ j, j ≠ i → t.ino j = s.ino j)
    (hi : ∀ bn, 512*bn < (t.ino i).size → (t.ino i).Has bn) : Whole t := by
  refine ⟨hboot,fun j bn hbn => ?_⟩
  by_cases hj : j = i
  · rw [hj] at hbn ⊢
    exact hi bn hbn
  · rw [hother j hj] at hbn ⊢
    exact hs.solid j bn hbn

/-- What `bmap` does to inode `i` for its block `bn`, at address `a`. -/
structure Mapped (s : Store) (i bn a : ℕ) (t : Store) : Prop where
  boot : t.used 0 = true
  other : ∀ j, j ≠ i → t.ino j = s.ino j
  size : (t.ino i).size = (s.ino i).size
  has : (t.ino i).Has bn
  keeps : ∀ k, (s.ino i).Has k → (t.ino i).Has k
  indirect : (s.ino i).indirect ⊆ (t.ino i).indirect
  adds : Adds (58 :: a :: (t.ino i).indirect) s t

lemma balloc_spec (h0 : s.used 0 = true) (h : balloc s = some (b,t)) :
    b ≠ 0 ∧ t.used 0 = true ∧ t.ino = s.ino ∧ Adds [58,b] s t := by
  obtain ⟨c,hc,he⟩ := map_eq_some_iff.mp h
  cases he
  have hfree := List.find?_some hc
  have hne : b ≠ 0 := by
    rintro rfl
    rw [h0] at hfree
    cases hfree
  refine ⟨hne,?_,rfl,?_⟩
  · change update s.used b true 0 = true
    rw [update_of_ne hne.symm]
    exact h0
  · exact ((refl _).logWrite (by simp)).logWrite (by simp)

/-- What `slot` does to the address `addrs[k]`. -/
structure Slotted (s : Store) (i k a : ℕ) (t : Store) : Prop where
  boot : t.used 0 = true
  other : ∀ j, j ≠ i → t.ino j = s.ino j
  size : (t.ino i).size = (s.ino i).size
  addr : (t.ino i).addrs k = a
  pos : a ≠ 0
  keeps : ∀ j, (s.ino i).addrs j ≠ 0 → (t.ino i).addrs j = (s.ino i).addrs j
  ind : k ≠ 12 ∨ (s.ino i).addrs 12 ≠ 0 → (t.ino i).ind = (s.ino i).ind
  adds : Adds [58,a] s t

lemma slot_spec {k : ℕ} (h0 : s.used 0 = true) (h : slot s i k = some (a,t)) : Slotted s i k a t := by
  unfold slot at h
  by_cases hk : (s.ino i).addrs k = 0
  · rw [if_pos hk] at h
    obtain ⟨⟨b,u⟩,hb,he⟩ := map_eq_some_iff.mp h
    cases he
    obtain ⟨hne,hboot,hino,hadds⟩ := balloc_spec h0 hb
    refine ⟨hboot,fun j hj => ?_,?_,?_,hne,fun j hj => ?_,fun hi => ?_,hadds⟩
    · change update u.ino i _ j = _
      rw [update_of_ne hj,hino]
    · change (update u.ino i _ i).size = _
      rw [update_self]
    · change (update u.ino i _ i).addrs k = _
      rw [update_self]
      exact update_self ..
    · change (update u.ino i _ i).addrs j = _
      rw [update_self]
      have hjk : j ≠ k := by
        rintro rfl
        exact hj hk
      exact update_of_ne hjk ..
    · change (update u.ino i _ i).ind = _
      rw [update_self]
      refine if_neg fun he => ?_
      rw [show k = 12 from he] at hk hi
      exact hi.elim (fun h => h rfl) fun h => h hk
  · rw [if_neg hk] at h
    obtain ⟨rfl,rfl⟩ := mk.inj (some.inj h)
    exact ⟨h0,fun _ _ => rfl,rfl,rfl,hk,fun _ _ => rfl,fun _ => rfl,refl s⟩

lemma Slotted.has {k bn : ℕ} (h : Slotted s i k a t) (hb : (s.ino i).Has bn) : (t.ino i).Has bn := by
  unfold Shape.Has at hb ⊢
  split_ifs at hb ⊢ with hlt
  · rw [h.keeps bn hb]
    exact hb
  · rw [h.keeps 12 hb.1,h.ind (inr hb.1)]
    exact hb

lemma has_ind {x : Shape} {j k b : ℕ} (hb : b ≠ 0) (h : x.Has k) : Shape.Has {x with ind := update x.ind j b} k := by
  unfold Shape.Has at h ⊢
  split_ifs at h ⊢ with hlt
  · exact h
  · refine ⟨h.1,?_⟩
    change update x.ind j b (k-12) ≠ 0
    by_cases hj : k-12 = j
    · rw [hj,update_self]
      exact hb
    · rw [update_of_ne hj]
      exact h.2

lemma indirect_subset {x y : Shape} (h : x.addrs 12 ≠ 0 → y.addrs 12 = x.addrs 12) : x.indirect ⊆ y.indirect := by
  unfold indirect
  by_cases h0 : x.addrs 12 = 0
  · rw [if_pos h0]
    exact nil_subset _
  · rw [h h0]
    exact List.Subset.refl _

lemma bmap_spec (h0 : s.used 0 = true) (h : bmap s i bn = some (a,t)) : Mapped s i bn a t := by
  unfold bmap at h
  split_ifs at h with hdir hind
  · have hs := slot_spec h0 h
    refine ⟨hs.boot,hs.other,hs.size,?_,fun _ => hs.has,indirect_subset (hs.keeps 12),hs.adds.mono (by simp)⟩
    unfold Shape.Has
    rw [if_pos hdir,hs.addr]
    exact hs.pos
  · obtain ⟨⟨x,v⟩,hv,h⟩ := bind_eq_some_iff.mp h
    have hs := slot_spec h0 hv
    have hx : (v.ino i).addrs 12 = x := hs.addr
    have hxI : (v.ino i).indirect = [x] := by
      unfold indirect
      rw [hx,if_neg hs.pos]
    dsimp only at h
    split_ifs at h with hz
    · obtain ⟨⟨b,w⟩,hw,he⟩ := map_eq_some_iff.mp h
      obtain ⟨rfl,rfl⟩ := mk.inj he
      obtain ⟨hne,hboot,hino,hadds⟩ := balloc_spec hs.boot hw
      have hi : ∀ y, (((w.set i y).logWrite x).ino i) = y := fun y => update_self ..
      refine ⟨hboot,fun j hj => ?_,?_,?_,fun k hk => ?_,?_,?_⟩
      · change update w.ino i _ j = _
        rw [update_of_ne hj,hino,hs.other j hj]
      · rw [hi]
        exact hs.size
      · rw [hi]
        unfold Shape.Has
        rw [if_neg hdir]
        refine ⟨hx ▸ hs.pos,?_⟩
        change update (v.ino i).ind (bn-12) b (bn-12) ≠ 0
        rw [update_self]
        exact hne
      · rw [hi]
        exact has_ind hne (hs.has hk)
      · rw [hi]
        exact indirect_subset (hs.keeps 12)
      · rw [hi]
        change Adds (58 :: b :: (v.ino i).indirect) s _
        rw [hxI]
        have hv : Adds [58,b,x] s v := hs.adds.mono (by simp)
        have hw : Adds [58,b,x] v w := hadds.mono (by simp)
        exact (hv.trans hw).logWrite (by simp)
    · obtain ⟨rfl,rfl⟩ := mk.inj (some.inj h)
      refine ⟨hs.boot,hs.other,hs.size,?_,fun _ => hs.has,indirect_subset (hs.keeps 12),?_⟩
      · unfold Shape.Has
        rw [if_neg hdir,hx]
        exact ⟨hs.pos,hz⟩
      · rw [hxI]
        exact hs.adds.mono (by simp)

lemma bmap_has (hb : (s.ino i).Has bn) (h : bmap s i bn = some (a,t)) : t = s := by
  unfold Shape.Has at hb
  unfold bmap slot at h
  by_cases hdir : bn < 12
  · rw [if_pos hdir] at hb
    rw [if_pos hdir,if_neg hb] at h
    exact (mk.inj (some.inj h)).2.symm
  · rw [if_neg hdir] at hb
    rw [if_neg hdir,if_neg hb.1] at h
    split_ifs at h
    change (if (s.ino i).ind (bn-12) = 0 then _ else some ((s.ino i).ind (bn-12),s)) = some (a,t) at h
    rw [if_neg hb.2] at h
    exact (mk.inj (some.inj h)).2.symm

lemma readSlots_whole {n k : ℕ} (hs : Whole s) (h : readSlots n s i k = some t) : t = s := by
  induction n generalizing k with
  | zero => exact (some.inj h).symm
  | succ n ih =>
    unfold readSlots at h
    split_ifs at h with hk
    · obtain ⟨r,hr,h⟩ := bind_eq_some_iff.mp h
      have hrs : r.2 = s := bmap_has (hs.solid i _ (show 512*(16*k/512) < _ by omega)) hr
      rw [hrs] at h
      exact ih h
    · exact (some.inj h).symm

/-- The blocks that `n` bytes at `off` lie in. -/
def rounds (off n : ℕ) : ℕ := if n = 0 then 0 else (off%512+n+511)/512

lemma rounds_succ {off n m : ℕ} (hm : m = min (n+1) (512-off%512)) : rounds (off+m) (n+1-m)+1 = rounds off (n+1) := by
  unfold rounds
  rw [if_neg (succ_ne_zero n)]
  rcases le_total (n+1) (512-off%512) with hle | hle
  · rw [if_pos (show n+1-m = 0 by omega)]
    omega
  · split_ifs with h0 <;> omega

/-- What the loop of `writei` does to inode `i`. -/
structure Written (s : Store) (i off n : ℕ) (t : Store) : Prop where
  boot : t.used 0 = true
  other : ∀ j, j ≠ i → t.ino j = s.ino j
  size : (t.ino i).size = (s.ino i).size
  has : 0 < n → ∀ bn, off/512 ≤ bn → 512*bn < off+n → (t.ino i).Has bn
  keeps : ∀ k, (s.ino i).Has k → (t.ino i).Has k
  indirect : (s.ino i).indirect ⊆ (t.ino i).indirect
  adds : ∃ A : List ℕ, A.length ≤ rounds off n ∧ Adds (58 :: (t.ino i).indirect++A) s t

lemma writeLoop_spec {k off n : ℕ} (h0 : s.used 0 = true) (h : writeLoop k s i off n = some t) : Written s i off n t := by
  induction k generalizing s off n with
  | zero =>
    cases n with
    | zero =>
      cases h
      exact ⟨h0,fun _ _ => rfl,rfl,nofun,fun _ => id,fun _ => id,[],by simp,refl _⟩
    | succ n => cases h
  | succ k ih =>
    cases n with
    | zero =>
      cases h
      exact ⟨h0,fun _ _ => rfl,rfl,nofun,fun _ => id,fun _ => id,[],by simp,refl _⟩
    | succ n =>
      obtain ⟨⟨a,u⟩,hu,h⟩ := bind_eq_some_iff.mp h
      have hM := bmap_spec h0 hu
      have hW := ih (s := u.logWrite a) hM.boot h
      obtain ⟨A,hA,hadds⟩ := hW.adds
      refine ⟨hW.boot,fun j hj => (hW.other j hj).trans (hM.other j hj),hW.size.trans hM.size,fun _ bn h1 h2 => ?_,
        fun k hk => hW.keeps k (hM.keeps k hk),fun b hb => hW.indirect (hM.indirect hb),a :: A,?_,?_⟩
      · by_cases hbn : bn = off/512
        · rw [hbn]
          exact hW.keeps _ hM.has
        · refine hW.has ?_ bn ?_ ?_
          · change 0 < n+1-min (n+1) (512-off%512)
            omega
          · change (off+min (n+1) (512-off%512))/512 ≤ bn
            omega
          · change 512*bn < off+min (n+1) (512-off%512)+(n+1-min (n+1) (512-off%512))
            omega
      · have hr := @rounds_succ off n _ rfl
        rw [length_cons,← hr]
        exact succ_le_succ hA
      · have hfirst : Adds (58 :: (t.ino i).indirect++a :: A) s (u.logWrite a) := by
          refine (hM.adds.mono fun b hb => ?_).logWrite (by simp)
          have hsub := hW.indirect
          simp only [mem_cons,mem_append,cons_append] at hb ⊢
          rcases hb with hb | hb | hb
          · exact inl hb
          · exact inr (inr (inl hb))
          · exact inr (inl (hsub hb))
        refine hfirst.trans (hadds.mono fun b hb => ?_)
        simp only [mem_cons,mem_append,cons_append] at hb ⊢
        rcases hb with hb | hb | hb
        · exact inl hb
        · exact inr (inl hb)
        · exact inr (inr (inr hb))

lemma writei_spec {off n : ℕ} {r : ℤ} (hs : Whole s) (h : writei s i off n = some (r,t)) :
    Whole t ∧ ∃ A : List ℕ, A.length ≤ rounds off n+1 ∧ Adds (58 :: iblock i :: A) s t := by
  unfold writei at h
  split_ifs at h with hbad
  · obtain ⟨-,rfl⟩ := mk.inj (some.inj h)
    exact ⟨hs,[],zero_le _,refl _⟩
  obtain ⟨u,hu,he⟩ := map_eq_some_iff.mp h
  obtain ⟨-,rfl⟩ := mk.inj he
  have hW := writeLoop_spec hs.boot hu
  obtain ⟨A,hA,hadds⟩ := hW.adds
  have hlen : (u.ino i).indirect.length ≤ 1 := by
    unfold indirect
    split_ifs <;> simp
  have hU : Adds (58 :: iblock i :: ((u.ino i).indirect++A)) s u := by
    refine hadds.mono fun b hb => ?_
    rw [cons_append,mem_cons] at hb
    exact mem_cons.mpr (hb.imp_right (mem_cons_of_mem _))
  have hkeep : ∀ bn, 512*bn < (s.ino i).size → (u.ino i).Has bn := fun bn hbn => hW.keeps bn (hs.solid i bn hbn)
  refine ⟨?_,(u.ino i).indirect++A,by rw [length_append]; omega,?_⟩
  · split_ifs with hgrow
    · refine hs.of_inode (i := i) hW.boot (fun j hj => ?_) fun bn hbn => ?_
      · exact (update_of_ne hj ..).trans (hW.other j hj)
      · change 512*bn < (update u.ino i _ i).size at hbn
        change (update u.ino i _ i).Has bn
        rw [update_self] at hbn ⊢
        change 512*bn < off+n at hbn
        change (u.ino i).Has bn
        by_cases hold : 512*bn < (s.ino i).size
        · exact hkeep bn hold
        · exact hW.has hgrow.1 bn (by omega) hbn
    · refine hs.of_inode hW.boot hW.other fun bn hbn => hkeep bn ?_
      rw [← hW.size]
      exact hbn
  · split_ifs
    · exact logWrite (t := u.set i _) hU (by simp)
    · exact hU

lemma bfrees_spec {l : List ℕ} (hl : ∀ b ∈ l, b ≠ 0) (h0 : s.used 0 = true) (h : l.foldlM bfree s = some t) :
    t.used 0 = true ∧ t.ino = s.ino ∧ Adds [58] s t := by
  induction l generalizing s with
  | nil =>
    cases h
    exact ⟨h0,rfl,refl _⟩
  | cons b l ih =>
    rw [foldlM_cons] at h
    obtain ⟨u,hu,h⟩ := bind_eq_some_iff.mp h
    unfold bfree at hu
    split_ifs at hu
    cases hu
    have hb : update s.used b false 0 = true := by
      rw [update_of_ne (hl b mem_cons_self).symm]
      exact h0
    obtain ⟨h1,h2,h3⟩ := ih (fun c hc => hl c (mem_cons_of_mem _ hc)) hb h
    exact ⟨h1,h2,((refl _).logWrite (by simp)).trans h3⟩

lemma blocks_pos {x : Shape} (hb : b ∈ x.blocks) : b ≠ 0 := by
  unfold blocks at hb
  rcases mem_append.mp hb with hb | hb
  · exact of_decide_eq_true (mem_filter.mp hb).2
  · split_ifs at hb with h0
    · cases hb
    · rcases mem_append.mp hb with hb | hb
      · exact of_decide_eq_true (mem_filter.mp hb).2
      · rw [mem_singleton.mp hb]
        exact h0

lemma Whole.set_empty (hs : Whole s) (hboot : t.used 0 = true) (hino : t.ino = s.ino) : Whole (t.set i .empty) := by
  refine hs.of_inode (i := i) hboot (fun j hj => ?_) fun bn hbn => ?_
  · exact (update_of_ne hj ..).trans (congrFun hino j)
  · change 512*bn < (update t.ino i _ i).size at hbn
    rw [update_self] at hbn
    exact absurd hbn (not_lt_zero _)

lemma itrunc_spec (hs : Whole s) (h : itrunc s i = some t) : Whole t ∧ Adds [58,iblock i] s t := by
  obtain ⟨u,hu,rfl⟩ := map_eq_some_iff.mp h
  obtain ⟨hboot,hino,hadds⟩ := bfrees_spec (fun _ => blocks_pos) hs.boot hu
  have hU : Adds [58,iblock i] s u := hadds.mono (by simp)
  exact ⟨(hs.set_empty hboot hino).logWrite,logWrite (t := u.set i .empty) hU (by simp)⟩

/-- An edit logs the bitmap, the block of its inode, and for an entry a data block and an indirect block. -/
lemma edit_spec {x : Edit} (hs : Whole s) (h : edit s x = some t) :
    Whole t ∧ ∃ A : List ℕ, A.length ≤ (if x.isEntry then 2 else 0) ∧ Adds (58 :: x.inode.toList.map iblock++A) s t := by
  cases x with
  | scan d =>
    rw [readSlots_whole hs h]
    exact ⟨hs,[],zero_le _,refl _⟩
  | entry d k =>
    obtain ⟨⟨r,u⟩,hu,h⟩ := bind_eq_some_iff.mp h
    dsimp only at h
    split_ifs at h
    cases h
    obtain ⟨hsu,A,hA,hadds⟩ := writei_spec hs hu
    have hone : rounds (16*k) 16 = 1 := by
      unfold rounds
      rw [if_neg (by decide)]
      omega
    rw [hone] at hA
    exact ⟨hsu,A,hA,hadds⟩
  | update i =>
    cases h
    exact ⟨hs.logWrite,[],zero_le _,(refl _).logWrite (by simp [Edit.inode])⟩
  | alloc i =>
    cases h
    exact ⟨(hs.set_empty hs.boot rfl).logWrite,[],zero_le _,logWrite (t := s.set i .empty) (refl s) (by simp [Edit.inode])⟩
  | trunc i =>
    obtain ⟨u,hu,rfl⟩ := map_eq_some_iff.mp h
    obtain ⟨hsu,hadds⟩ := itrunc_spec hs hu
    exact ⟨hsu.logWrite,[],zero_le _,hadds.logWrite (by simp)⟩

lemma play_spec {I : List ℕ} {n : ℕ} {l : List Edit} (hs : Whole s) (hl : Within I n l) (h : play l s = some t) :
    Whole t ∧ ∃ A : List ℕ, A.length ≤ 2*n ∧ Adds (58 :: I.map iblock++A) s t := by
  induction l generalizing t n with
  | nil =>
    cases h
    exact ⟨hs,[],zero_le _,refl _⟩
  | cons x l ih =>
    obtain ⟨u,hu,h⟩ := bind_eq_some_iff.mp h
    have hn := hl.entries
    rw [countP_cons] at hn
    obtain ⟨hsu,A,hA,hadds⟩ := ih (n := n-if x.isEntry then 1 else 0)
      ⟨fun y hy => hl.inode y (mem_cons_of_mem _ hy),by omega⟩ hu
    obtain ⟨hst,C,hC,hadds'⟩ := edit_spec hsu h
    refine ⟨hst,C++A,?_,(hadds.mono ?_).trans (hadds'.mono ?_)⟩
    · rw [length_append]
      split_ifs at hn hA hC <;> omega
    · intro b hb
      simp only [mem_cons,mem_append,cons_append] at hb ⊢
      tauto
    · intro b hb
      have hin : ∀ i ∈ x.inode.toList, i ∈ I := fun i hi => hl.inode x mem_cons_self i (mem_toList.mp hi)
      simp only [mem_cons,mem_append,cons_append,List.mem_map] at hb ⊢
      rcases hb with hb | ⟨i,hi,hb⟩ | hb
      · exact inl hb
      · exact inr (inl ⟨i,hin i hi,hb⟩)
      · exact inr (inr (inl hb))

/-- The number of different blocks in the log. -/
def Store.logged (s : Store) : ℕ := s.log.toFinset.card

lemma logged_le (h : Adds B s t) (hs : s.log = []) : t.logged ≤ B.length := by
  have hsub : t.log.toFinset ⊆ B.toFinset := by
    intro b hb
    rw [List.mem_toFinset] at hb ⊢
    refine (h b hb).resolve_left fun hb => ?_
    rw [hs] at hb
    cases hb
  exact (Finset.card_le_card hsub).trans (toFinset_card_le B)

/-- A call that edits few inodes and entries stays within its reservation. -/
lemma play_logged {I : List ℕ} {n : ℕ} {l : List Edit} (hs : Whole s) (hlog : s.log = []) (hl : Within I n l)
    (hn : I.length+2*n < 10) (h : play l s = some t) : t.logged ≤ maxOpBlocks := by
  obtain ⟨-,A,hA,hadds⟩ := play_spec hs hl h
  refine (logged_le hadds hlog).trans ?_
  rw [length_append,length_cons,length_map]
  change I.length+1+A.length ≤ 10
  omega

/-- A chunk of `filewrite`, at any offset. -/
lemma writei_logged {off n : ℕ} {r : ℤ} (hs : Whole s) (hlog : s.log = []) (hn : n ≤ maxWrite)
    (h : writei s i off n = some (r,t)) : t.logged ≤ maxOpBlocks := by
  obtain ⟨-,A,hA,hadds⟩ := writei_spec hs h
  refine (logged_le hadds hlog).trans ?_
  change n ≤ 1536 at hn
  have hr : rounds off n ≤ 4 := by
    unfold rounds
    split_ifs <;> omega
  change A.length+1+1 ≤ 10
  omega

lemma filewrite_logged {k off left : ℕ} {ls : List (List ℕ)} (hs : Whole s) (h : filewrite k s i off left = some ls) :
    ∀ l ∈ ls, l.toFinset.card ≤ maxOpBlocks := by
  induction k generalizing s off left ls with
  | zero =>
    cases left with
    | zero =>
      cases h
      nofun
    | succ left => cases h
  | succ k ih =>
    cases left with
    | zero =>
      cases h
      nofun
    | succ left =>
      obtain ⟨⟨r,u⟩,hu,h⟩ := bind_eq_some_iff.mp h
      have hs0 : Whole {s with log := []} := ⟨hs.boot,hs.solid⟩
      have hfit := writei_logged hs0 rfl (min_le_right ..) hu
      dsimp only at h
      split_ifs at h
      · cases h
        intro l hl
        rw [mem_singleton.mp hl]
        exact hfit
      · obtain ⟨ls',hls,rfl⟩ := map_eq_some_iff.mp h
        intro l hl
        rcases mem_cons.mp hl with rfl | hl
        · exact hfit
        · exact ih (writei_spec hs0 hu).1 hls l hl

end Xv6Threads.Blocks
