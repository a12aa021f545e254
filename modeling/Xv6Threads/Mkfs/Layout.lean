import Xv6Threads.Disk.Layout
import Xv6Threads.Mkfs.Model

/-! How a file grows in `iappend`: new blocks come from the end of the image. -/
namespace Xv6Threads.Mkfs
open Function List Option Cursor List.Perm Disk

/-- The blocks from `next` on are zero. -/
def Blank (D : Image) (next : ℕ) : Prop := ∀ b, next ≤ b → D b = fun _ => 0

/-- From `c` to `c'` the file `n` has become `n'`: the blocks that it gained are those taken, and only
its own blocks have changed. -/
structure Grown (c c' : Cursor) (n n' : Node) : Prop where
  rep : Rep c'.disk c'.freeblock c'.din.addrs n'
  blank : Blank c'.disk c'.freeblock
  le : c.freeblock ≤ c'.freeblock
  owned : n'.owned.Perm (n.owned++List.range' c.freeblock (c'.freeblock-c.freeblock))
  frame : ∀ b, b < c.freeblock → b ∉ n.owned → c'.disk b = c.disk b
  type : c'.din.type = c.din.type
  nlink : c'.din.nlink = c.din.nlink

section
variable {c c₁ c₂ : Cursor} {n n₁ n₂ : Node} {fbn : ℕ}

lemma Grown.refl (hR : Rep c.disk c.freeblock c.din.addrs n) (hZ : Blank c.disk c.freeblock) : Grown c c n n := by
  refine ⟨hR,hZ,le_rfl,?_,fun _ _ _ => rfl,rfl,rfl⟩
  rw [Nat.sub_self]
  exact of_eq (append_nil _).symm

lemma range'_split {a b c : ℕ} (hab : a ≤ b) (hbc : b ≤ c) : range' a (c-a) = range' a (b-a)++range' b (c-b) := by
  have := range'_append_1 (s := a) (m := b-a) (n := c-b)
  rw [show a+(b-a) = b by omega,show b-a+(c-b) = c-a by omega] at this
  exact this.symm

lemma Grown.trans (h : Grown c c₁ n n₁) (h' : Grown c₁ c₂ n₁ n₂) : Grown c c₂ n n₂ := by
  have hle := h.le
  have hle' := h'.le
  refine ⟨h'.rep,h'.blank,hle.trans hle',?_,fun b hb hn => ?_,h'.type.trans h.type,h'.nlink.trans h.nlink⟩
  · rw [range'_split hle hle',← append_assoc]
    exact h'.owned.trans (append_right _ h.owned)
  · have hn₁ : b ∉ n₁.owned := by
      intro hb₁
      rcases mem_append.mp (h.owned.mem_iff.mp hb₁) with hb₁ | hb₁
      · exact hn hb₁
      · rw [mem_range'_1] at hb₁
        omega
    rw [h'.frame b (by omega) hn₁,h.frame b hb hn]

lemma grown_push (hR : Rep c.disk c.freeblock c.din.addrs n) (hZ : Blank c.disk c.freeblock)
    (hR' : Rep c₁.disk (c.freeblock+1) c₁.din.addrs (n.push c.freeblock)) (hf : c₁.freeblock = c.freeblock+1)
    (hD : ∀ b, b ∉ n.owned → c₁.disk b = c.disk b) (ht : c₁.din.type = c.din.type) (hl : c₁.din.nlink = c.din.nlink) :
    Grown c c₁ n (n.push c.freeblock) := by
  refine ⟨by rwa [hf],fun b hb => ?_,by omega,?_,fun b _ hn => hD b hn,ht,hl⟩
  · have hb' : b ∉ n.owned := fun hm => by
      have := (hR.range b hm).2
      omega
    rw [hD b hb',hZ b (by omega)]
  · rw [hf,Nat.add_sub_cancel_left]
    exact Node.owned_push c.freeblock

lemma Grown.count (h : Grown c c₁ n n₁) (hR : Rep c.disk c.freeblock c.din.addrs n) (ht : n.Thrifty) (ht₁ : n₁.Thrifty) :
    c₁.freeblock+cost n.blocks.length = c.freeblock+cost n₁.blocks.length := by
  have hlen := h.owned.length_eq
  have hle := h.le
  rw [length_append,length_range',h.rep.length_owned ht₁,hR.length_owned ht] at hlen
  omega

lemma block_old (hR : Rep c.disk c.freeblock c.din.addrs n) (hlim : c.freeblock ≤ 1000) (hf : fbn < n.blocks.length) :
    c.block fbn = some (n.blocks.getD fbn 0,c) := by
  have hpos := (hR.block_range hf).1
  have hmax := hR.max
  unfold block
  by_cases hd : fbn < 12
  · rw [if_pos hd,hR.direct fbn hd,if_neg (by omega)]
  · obtain ⟨b,hb⟩ := isSome_iff_exists.mp (hR.isSome (by omega))
    have hi := hR.ind
    rw [hb,getD_some] at hi
    have hb' := hR.range b (Node.ind_mem hb)
    have hent := hR.table b hb (fbn-12) (by omega)
    rw [show 12+(fbn-12) = fbn by omega] at hent
    have hind : c.indirect = c := by
      unfold indirect
      rw [if_neg (show ¬c.din.addrs 12 = 0 by omega)]
    rw [if_neg hd,hind]
    unfold entry rsect
    dsimp only
    rw [hi,if_pos (show b < 1000 by omega),map_some,hent,if_neg (by omega)]

section
variable (hR : Rep c.disk c.freeblock c.din.addrs n) (hZ : Blank c.disk c.freeblock) (hnext : 59 ≤ c.freeblock)
include hR hZ hnext

lemma block_direct (hd : n.blocks.length < 12) :
    ∃ c', c.block n.blocks.length = some (c.freeblock,c') ∧ c'.freeblock = c.freeblock+1 ∧
      Grown c c' n (n.push c.freeblock) := by
  have hzero : c.din.addrs n.blocks.length = 0 := by rw [hR.direct _ hd,getD_eq_default _ _ le_rfl]
  refine ⟨c.setAddr n.blocks.length,?_,rfl,grown_push hR hZ ?_ rfl (fun _ _ => rfl) rfl rfl⟩
  · unfold block
    rw [if_pos hd,if_pos hzero]
  · refine hR.push (by omega) hnext (by omega) (fun k hk => ?_) (fun _ _ => rfl) fun b hb k hk => ?_
    · change update c.din.addrs n.blocks.length c.freeblock k = _
      by_cases hk' : k = n.blocks.length
      · rw [if_pos ⟨hk',by omega⟩,hk',update_self]
      · rw [if_neg (fun e => hk' e.1),update_of_ne hk']
    · rw [if_neg (by omega)]
      rfl

lemma entry_new
    (hbig : c.freeblock < 2^32) (h12 : 12 ≤ n.blocks.length) (h140 : n.blocks.length < 140) {b : ℕ} (hb : n.ind = some b)
    (hlim : b < 1000) : ∃ c', c.entry (n.blocks.length-12) = some (c.freeblock,c') ∧ c'.freeblock = c.freeblock+1 ∧
      Grown c c' n (n.push c.freeblock) := by
  have hi := hR.ind
  rw [hb,getD_some] at hi
  have hent := hR.table b hb (n.blocks.length-12) (by omega)
  rw [show 12+(n.blocks.length-12) = n.blocks.length by omega,getD_eq_default _ _ le_rfl] at hent
  have hdisk : ∀ b', b' ≠ b → update c.disk b (putInt (c.disk b) (4*(n.blocks.length-12)) c.freeblock) b' = c.disk b' :=
    fun b' h => update_of_ne h ..
  refine ⟨⟨c.din,update c.disk b (putInt (c.disk b) (4*(n.blocks.length-12)) c.freeblock),c.freeblock+1⟩,?_,rfl,
    grown_push hR hZ ?_ rfl (fun b' hb' => hdisk b' ?_) rfl rfl⟩
  · unfold entry rsect
    dsimp only
    rw [hi,if_pos hlim,map_some,hent,if_pos rfl]
  · refine hR.push h140 hnext (fun _ => isSome_iff_exists.mpr ⟨b,hb⟩) (fun k hk => ?_) (fun b' hb' => hdisk b' ?_)
      fun b' hb' k hk => ?_
    · rw [if_neg (by omega)]
    · rintro rfl
      exact (nodup_append'.mp hR.nodup).2.2 hb' (by rw [hb]; exact mem_singleton_self _)
    · rw [hb] at hb'
      cases hb'
      dsimp only
      rw [update_self]
      by_cases hk' : 12+k = n.blocks.length
      · rw [if_pos hk',show n.blocks.length-12 = k by omega]
        exact getInt_putInt hbig
      · rw [if_neg hk']
        exact getInt_putInt_ne (by omega)
  · rintro rfl
    exact hb' (Node.ind_mem hb)

end

end

end Xv6Threads.Mkfs
