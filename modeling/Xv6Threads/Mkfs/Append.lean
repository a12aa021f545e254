import Xv6Threads.Mkfs.Layout

/-! `iappend` appends: it fails only where the file or the image is full, and otherwise the inode leads
to the longer file. -/
namespace Xv6Threads.Mkfs
open Function List Option Or Nat Grown Cursor Disk

variable {c : Cursor} {n : Node}

lemma indirect_new (hR : Rep c.disk c.freeblock c.din.addrs n) (hZ : Blank c.disk c.freeblock) (hnext : 59 ≤ c.freeblock)
    (hlen : n.blocks.length ≤ 12) (hn : n.ind = none) :
    c.indirect.freeblock = c.freeblock+1 ∧ Grown c c.indirect n {n with ind := some c.freeblock} := by
  have hi := hR.ind
  rw [hn] at hi
  have hind : c.indirect = c.setAddr 12 := by
    unfold indirect
    exact if_pos hi
  have howned : n.owned = n.blocks := by
    unfold Node.owned
    rw [hn]
    exact append_nil _
  rw [hind]
  refine ⟨rfl,hR.addInd hnext hlen hn (hZ _ le_rfl),fun b hb => hZ b (le_of_succ_le hb),le_succ _,?_,
    fun _ _ _ => rfl,rfl,rfl⟩
  rw [howned,show (c.setAddr 12).freeblock-c.freeblock = 1 from Nat.add_sub_cancel_left ..]
  exact List.Perm.refl _

/-- What `block` does at the end of a file or inside it. -/
structure Found (c : Cursor) (n : Node) (fbn x : ℕ) (c' : Cursor) (n' : Node) : Prop where
  grown : Grown c c' n n'
  content : n'.content = n.content
  length : n'.blocks.length = max n.blocks.length (fbn+1)
  block : n'.blocks.getD fbn 0 = x
  thrifty : n'.Thrifty
  last : c'.freeblock ≤ 1000 ∨ c'.freeblock = x+1

lemma found_push {c₀ : Cursor} {n₀ : Node} {c' : Cursor} (hg₀ : Grown c₀ c n₀ n)
    (hc : n.content = n₀.content) (hb : n.blocks = n₀.blocks) (hf : c'.freeblock = c.freeblock+1)
    (hg : Grown c c' n (n.push c.freeblock)) (ht : n.ind.isSome = true → 12 ≤ n.blocks.length) :
    Found c₀ n₀ n₀.blocks.length c.freeblock c' (n.push c.freeblock) := by
  refine ⟨hg₀.trans hg,hc,?_,?_,fun hi => ?_,inr hf⟩
  · rw [Node.length_push,hb]
    omega
  · rw [← hb]
    exact getD_concat_self
  · have := ht hi
    rw [Node.length_push]
    omega

variable {fbn : ℕ}

lemma block_spec (hR : Rep c.disk c.freeblock c.din.addrs n) (hZ : Blank c.disk c.freeblock) (hnext : 59 ≤ c.freeblock)
    (hlim : c.freeblock ≤ 1000) (ht : n.Thrifty) (hf : fbn ≤ n.blocks.length) (h140 : fbn < 140) :
    (c.block fbn = none ∧ 1000+cost n.blocks.length < c.freeblock+cost (max n.blocks.length (fbn+1))) ∨
      ∃ x c' n', c.block fbn = some (x,c') ∧ Found c n fbn x c' n' := by
  by_cases hold : fbn < n.blocks.length
  · exact inr ⟨_,c,n,block_old hR hlim hold,refl hR hZ,rfl,by omega,rfl,ht,inl hlim⟩
  obtain rfl : fbn = n.blocks.length := by omega
  by_cases hd : n.blocks.length < 12
  · obtain ⟨c',hc',hf',hg⟩ := block_direct hR hZ hnext hd
    exact inr ⟨_,c',_,hc',found_push (refl hR hZ) rfl rfl hf' hg fun hi => le_of_lt (ht hi)⟩
  have hblock : c.block n.blocks.length = c.indirect.entry (n.blocks.length-12) := if_neg hd
  rw [hblock]
  cases hi : n.ind with
  | some b =>
    have hb := hR.range b (Node.ind_mem hi)
    have hind : c.indirect = c := by
      have hi' := hR.ind
      rw [hi,getD_some] at hi'
      unfold indirect
      exact if_neg (show ¬c.din.addrs 12 = 0 by omega)
    obtain ⟨c',hc',hf',hg⟩ := entry_new hR hZ hnext (by omega) (by omega) h140 hi (by omega)
    rw [hind]
    exact inr ⟨_,c',_,hc',found_push (refl hR hZ) rfl rfl hf' hg fun _ => by omega⟩
  | none =>
    have hlen : n.blocks.length = 12 := by
      by_contra hne
      have := hR.isSome (by omega)
      rw [hi] at this
      cases this
    obtain ⟨hf₁,hg₁⟩ := indirect_new hR hZ hnext (by omega) hi
    by_cases hfull : c.freeblock < 1000
    · obtain ⟨c',hc',hf',hg⟩ := entry_new hg₁.rep hg₁.blank (by omega) (by omega) (by dsimp only; omega) h140 rfl hfull
      exact inr ⟨_,c',_,hc',found_push hg₁ rfl rfl hf' hg fun _ => by dsimp only; omega⟩
    · -- the indirect block itself cannot be read
      have haddr : c.indirect.din.addrs 12 = c.freeblock := hg₁.rep.ind
      refine inl ⟨?_,?_⟩
      · unfold entry rsect
        dsimp only
        rw [haddr,if_neg hfull]
        rfl
      · rw [hlen]
        change 1000+12 < c.freeblock+14
        omega

lemma rep_splice {D : Image} {next : ℕ} {addrs : ℕ → ℕ} (h : Rep D next addrs n) {q : List UInt8}
    (hfbn : n.content.length/512 = fbn) (hlen : n.blocks.length = fbn+1) (hq : n.content.length+q.length ≤ 512*(fbn+1)) :
    Rep (update D (n.blocks.getD fbn 0) (splice (D (n.blocks.getD fbn 0)) (n.content.length%512) q)) next addrs
      (n.extend q) := by
  refine ⟨?_,h.max,h.direct,h.ind,h.isSome,fun b hb k hk => ?_,fun o ho => ?_,h.nodup,h.range⟩
  · change (n.content++q).length ≤ 512*n.blocks.length
    rw [length_append,hlen]
    exact hq
  · rw [update_of_ne (h.block_ne_ind (by omega) hb).symm]
    exact h.table b hb k hk
  · change update D _ _ (n.blocks.getD (o/512) 0) (o%512) = (n.content++q).getD o 0
    change o < (n.content++q).length at ho
    rw [length_append] at ho
    by_cases hold : o < n.content.length
    · rw [getD_append _ _ _ _ hold,← h.data o hold]
      by_cases hlast : o/512 = fbn
      · rw [hlast,update_self]
        unfold splice
        rw [if_neg (by omega)]
      · rw [update_of_ne fun he => hlast (h.block_inj (by omega) (by omega) he)]
    · rw [getD_append_right _ _ _ _ (by omega),show o/512 = fbn by omega,update_self]
      unfold splice
      rw [if_pos (by omega),show o%512-n.content.length%512 = o-n.content.length by omega]

lemma fill_spec (hR : Rep c.disk c.freeblock c.din.addrs n) (hZ : Blank c.disk c.freeblock) (hnext : 59 ≤ c.freeblock)
    (hlim : c.freeblock ≤ 1000) (hs : Snug n) {q : List UInt8} (hfbn : n.content.length/512 = fbn)
    (h140 : fbn < 140) (hq : n.content.length+q.length ≤ 512*(fbn+1)) (hq0 : 0 < q.length) :
    (c.fill fbn (n.content.length%512) q = none ∧ 1000+cost n.blocks.length < c.freeblock+n.after q.length) ∨
      ∃ c' n', c.fill fbn (n.content.length%512) q = some c' ∧ Grown c c' n n' ∧ n'.content = n.content++q ∧ Snug n' ∧
        c'.freeblock ≤ 1000 := by
  have hlen := hs.length
  have hafter : n.after q.length = cost (fbn+1) := by
    unfold Node.after
    congr 1
    omega
  have hmax : max n.blocks.length (fbn+1) = fbn+1 := by omega
  unfold fill
  rcases block_spec hR hZ hnext hlim hs.thrifty (by omega) h140 with ⟨hb,hfull⟩ | ⟨x,c',n',hb,hF⟩
  · rw [hmax,← hafter] at hfull
    exact inl ⟨by rw [hb]; rfl,hfull⟩
  have hcount := hF.grown.count hR hs.thrifty hF.thrifty
  have hl' := hF.length
  rw [hmax] at hl'
  have hx := hF.grown.rep.block_range (k := fbn) (by omega)
  rw [hF.block] at hx
  have hlast := hF.last
  rw [hb,bind_some]
  unfold rsect
  by_cases hx' : x < 1000
  · rw [if_pos hx',map_some]
    have hc := hF.content
    have hrep := rep_splice (q := q) hF.grown.rep (by rw [hc]; exact hfbn) hl' (by rw [hc]; exact hq)
    rw [hF.block,hc] at hrep
    have hmem : x ∈ n'.owned := by
      have := Node.block_mem (n := n') (k := fbn) (by omega)
      rw [hF.block] at this
      exact mem_append_left _ this
    have hgrown : Grown c' ⟨c'.din,update c'.disk x (splice (c'.disk x) (n.content.length%512) q),c'.freeblock⟩
        n' (n'.extend q) := by
      refine ⟨hrep,fun b hb => ?_,le_rfl,?_,fun b _ hn => ?_,rfl,rfl⟩
      · dsimp only at hb ⊢
        rw [update_of_ne (by omega)]
        exact hF.grown.blank b hb
      · rw [Nat.sub_self]
        exact List.Perm.of_eq (append_nil _).symm
      · dsimp only
        rw [update_of_ne]
        rintro rfl
        exact hn hmem
    refine inr ⟨_,n'.extend q,rfl,hF.grown.trans hgrown,?_,⟨?_,hF.thrifty⟩,?_⟩
    · change n'.content++q = _
      rw [hc]
    · change n'.blocks.length = ((n'.content++q).length+511)/512
      rw [hl',length_append,hc]
      omega
    · dsimp only
      omega
  · rw [if_neg hx']
    refine inl ⟨rfl,?_⟩
    rw [hl'] at hcount
    rw [hafter]
    omega

/-- What `iappend` makes of a file, or why it fails. -/
lemma appendLoop_spec {k : ℕ} {p : List UInt8} (hk : p.length ≤ k) (hR : Rep c.disk c.freeblock c.din.addrs n)
    (hZ : Blank c.disk c.freeblock) (hnext : 59 ≤ c.freeblock) (hlim : c.freeblock ≤ 1000) (hs : Snug n) :
    (appendLoop k c n.content.length p = none ∧
      ¬(n.content.length+p.length ≤ 512*140 ∧ c.freeblock+n.after p.length ≤ 1000+cost n.blocks.length)) ∨
      ∃ c' n', appendLoop k c n.content.length p = some (c',n.content.length+p.length) ∧ Grown c c' n n' ∧
        n'.content = n.content++p ∧ Snug n' ∧ c'.freeblock ≤ 1000 := by
  induction k generalizing c n p with
  | zero =>
    obtain rfl := eq_nil_of_length_eq_zero (le_zero.mp hk)
    exact inr ⟨c,n,rfl,refl hR hZ,(append_nil _).symm,hs,hlim⟩
  | succ k ih =>
    cases p with
    | nil => exact inr ⟨c,n,rfl,refl hR hZ,(append_nil _).symm,hs,hlim⟩
    | cons x xs =>
      generalize hp : x :: xs = p at hk
      have hp0 : 0 < p.length := by rw [← hp]; exact succ_pos _
      generalize hn1 : min p.length ((n.content.length/512+1)*512-n.content.length) = n1
      have hround : appendLoop (k+1) c n.content.length p = if n.content.length/512 < 140 then
          (c.fill (n.content.length/512) (n.content.length-n.content.length/512*512) (p.take n1)).bind
            (fun c => appendLoop k c (n.content.length+n1) (p.drop n1)) else none := by
        rw [← hn1,← hp]
        rfl
      rw [hround,show n.content.length-n.content.length/512*512 = n.content.length%512 by omega]
      by_cases h140 : n.content.length/512 < 140
      · rw [if_pos h140]
        have htake : (p.take n1).length = n1 := length_take_of_le (by omega)
        have hdrop : (p.drop n1).length = p.length-n1 := length_drop
        rcases fill_spec hR hZ hnext hlim hs (q := p.take n1) rfl h140 (by omega) (by omega) with
          ⟨hnone,hfull⟩ | ⟨c₁,n₁,hsome,hg,hc₁,hs₁,hlim₁⟩
        · refine inl ⟨by rw [hnone]; rfl,fun hfit => ?_⟩
          have hmono : n.after (p.take n1).length ≤ n.after p.length := cost_mono (by omega)
          omega
        · have hlen₁ : n₁.content.length = n.content.length+n1 := by rw [hc₁,length_append,htake]
          have hcount := hg.count hR hs.thrifty hs₁.thrifty
          have hle := hg.le
          have hafter : n₁.after (p.drop n1).length = n.after p.length := by
            unfold Node.after
            rw [hlen₁,hdrop,show n.content.length+n1+(p.length-n1) = n.content.length+p.length by omega]
          rw [hsome,bind_some,← hlen₁]
          rcases ih (p := p.drop n1) (by omega) hg.rep hg.blank (by omega) hlim₁ hs₁ with
            ⟨hnone,hfull⟩ | ⟨c',n',hsome',hg',hc',hs',hlim'⟩
          · refine inl ⟨hnone,fun hfit => hfull ⟨by omega,?_⟩⟩
            rw [hafter]
            omega
          · refine inr ⟨c',n',?_,hg.trans hg',?_,hs',hlim'⟩
            · rw [hsome',hdrop,hlen₁,show n.content.length+n1+(p.length-n1) = n.content.length+p.length by omega]
            · rw [hc',hc₁,append_assoc,take_append_drop]
      · rw [if_neg h140]
        exact inl ⟨rfl,fun hfit => by omega⟩

end Xv6Threads.Mkfs
