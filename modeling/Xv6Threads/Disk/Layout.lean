import Xv6Threads.Disk.Format

/-! What an inode on a disk stands for: a file with its contents and the blocks that are its own. -/
namespace Xv6Threads.Disk
open Function List Option Nat

/-- A file on an image: its bytes, its data blocks in order, and its indirect block. -/
structure Node where
  content : List UInt8
  blocks : List ℕ
  ind : Option ℕ

open Node

def Node.owned (n : Node) : List ℕ := n.blocks++n.ind.toList

/-- The addresses `addrs` on the disk `D`, with the blocks from `next` on still free, lead to `n`. -/
structure Rep (D : Image) (next : ℕ) (addrs : ℕ → ℕ) (n : Node) : Prop where
  fits : n.content.length ≤ 512*n.blocks.length
  max : n.blocks.length ≤ 140
  direct : ∀ k, k < 12 → addrs k = n.blocks.getD k 0
  ind : addrs 12 = n.ind.getD 0
  isSome : 12 < n.blocks.length → n.ind.isSome = true
  table : ∀ b, n.ind = some b → ∀ k, k < 128 → getInt (D b) (4*k) = n.blocks.getD (12+k) 0
  data : ∀ o, o < n.content.length → D (n.blocks.getD (o/512) 0) (o%512) = n.content.getD o 0
  nodup : n.owned.Nodup
  range : ∀ b ∈ n.owned, 59 ≤ b ∧ b < next

section
variable {D E : Image} {next next' : ℕ} {addrs addrs' : ℕ → ℕ} {n : Node}

lemma Node.block_mem {k : ℕ} (hk : k < n.blocks.length) : n.blocks.getD k 0 ∈ n.blocks := by
  rw [getD_eq_getElem _ _ hk]
  exact getElem_mem hk

section
variable (h : Rep D next addrs n)
include h

lemma Rep.block_range {k : ℕ} (hk : k < n.blocks.length) : 59 ≤ n.blocks.getD k 0 ∧ n.blocks.getD k 0 < next :=
  h.range _ (mem_append_left _ (block_mem hk))

lemma Rep.block_inj {i j : ℕ} (hi : i < n.blocks.length) (hj : j < n.blocks.length)
    (he : n.blocks.getD i 0 = n.blocks.getD j 0) : i = j := by
  rw [getD_eq_getElem _ _ hi,getD_eq_getElem _ _ hj] at he
  exact (h.nodup.of_append_left.getElem_inj_iff).mp he

lemma Rep.block_ne_ind {k b : ℕ} (hk : k < n.blocks.length) (hb : n.ind = some b) : n.blocks.getD k 0 ≠ b := by
  intro he
  refine (nodup_append'.mp h.nodup).2.2 (block_mem hk) ?_
  rw [hb,he]
  exact mem_singleton_self b

end

lemma Node.ind_mem {b : ℕ} (hb : n.ind = some b) : b ∈ n.owned := by
  refine mem_append_right _ ?_
  rw [hb]
  exact mem_singleton_self b

lemma Rep.congr (h : Rep D next addrs n) (hD : ∀ b ∈ n.owned, E b = D b) (hn : next ≤ next')
    (ha : ∀ k, k < 13 → addrs' k = addrs k) : Rep E next' addrs' n := by
  refine ⟨h.fits,h.max,fun k hk => (ha k (by omega)).trans (h.direct k hk),(ha 12 (by omega)).trans h.ind,h.isSome,
    fun b hb k hk => ?_,fun o ho => ?_,h.nodup,fun b hb => ?_⟩
  · rw [hD b (ind_mem hb)]
    exact h.table b hb k hk
  · have hf := h.fits
    rw [hD _ (mem_append_left _ (block_mem (show o/512 < n.blocks.length by omega)))]
    exact h.data o ho
  · have := h.range b hb
    omega

lemma Rep.blockOf_eq (h : Rep D next addrs n) {d : Dinode} (hd : d.addrs = addrs) {k : ℕ} (hk : k < n.blocks.length) :
    blockOf D d k = n.blocks.getD k 0 := by
  unfold blockOf
  rw [hd]
  by_cases hk' : k < 12
  · rw [if_pos hk']
    exact h.direct k hk'
  · rw [if_neg hk']
    obtain ⟨b,hb⟩ := isSome_iff_exists.mp (h.isSome (by omega))
    have hmax := h.max
    have hi := h.ind
    rw [hb,getD_some] at hi
    rw [hi,h.table b hb (k-12) (by omega),show 12+(k-12) = k by omega]

lemma getD_concat {l : List ℕ} {x k : ℕ} (hk : k ≠ l.length) : (l++[x]).getD k 0 = l.getD k 0 := by
  by_cases h : k < l.length
  · rw [getD_append _ _ _ _ h]
  · rw [getD_append_right _ _ _ _ (by omega),getD_eq_default l _ (by omega),
      getD_eq_default [x] _ (by rw [length_singleton]; omega)]

lemma getD_concat_self {l : List ℕ} {x : ℕ} : (l++[x]).getD l.length 0 = x := by
  rw [getD_append_right _ _ _ _ le_rfl,Nat.sub_self]
  rfl

/-- The file with one more data block. -/
def Node.push (n : Node) (b : ℕ) : Node := {n with blocks := n.blocks++[b]}

lemma Node.length_push (b : ℕ) : (n.push b).blocks.length = n.blocks.length+1 := length_append

lemma Node.owned_push (b : ℕ) : (n.push b).owned.Perm (n.owned++[b]) := by
  unfold owned push
  rw [append_assoc,append_assoc]
  exact List.Perm.append_left _ perm_append_comm

section
variable (h : Rep D next addrs n)
include h

lemma Rep.fresh : next ∉ n.owned := fun hb => lt_irrefl _ (h.range _ hb).2

lemma Rep.nodup_concat : (n.owned++[next]).Nodup := nodup_append_comm.mp (nodup_cons.mpr ⟨h.fresh,h.nodup⟩)

lemma Rep.range_concat (hnext : 59 ≤ next) (b : ℕ) (hb : b ∈ n.owned++[next]) : 59 ≤ b ∧ b < next+1 := by
  rcases mem_append.mp hb with hb | hb
  · have := h.range b hb
    omega
  · rw [mem_singleton.mp hb]
    omega

lemma Rep.push (hlen : n.blocks.length < 140) (hnext : 59 ≤ next) (hs : 12 ≤ n.blocks.length → n.ind.isSome = true)
    (ha : ∀ k, k < 13 → addrs' k = if k = n.blocks.length ∧ k < 12 then next else addrs k)
    (hD : ∀ b ∈ n.blocks, E b = D b) (ht : ∀ b, n.ind = some b → ∀ k, k < 128 →
      getInt (E b) (4*k) = if 12+k = n.blocks.length then next else getInt (D b) (4*k)) :
    Rep E (next+1) addrs' (n.push next) := by
  have hf := h.fits
  refine ⟨?_,?_,fun k hk => ?_,?_,fun hl => ?_,fun b hb k hk => ?_,fun o ho => ?_,
    (owned_push next).nodup_iff.mpr (h.nodup_concat),
    fun b hb => h.range_concat hnext b ((owned_push next).mem_iff.mp hb)⟩
  · rw [length_push]
    exact le_trans hf (by omega)
  · rw [length_push]
    omega
  · rw [ha k (by omega)]
    by_cases hk' : k = n.blocks.length
    · rw [if_pos ⟨hk',hk⟩,hk']
      exact getD_concat_self.symm
    · rw [if_neg (fun e => hk' e.1),h.direct k hk]
      exact (getD_concat hk').symm
  · rw [ha 12 (by omega),if_neg (by omega)]
    exact h.ind
  · rw [length_push] at hl
    exact hs (by omega)
  · rw [ht b hb k hk]
    by_cases hk' : 12+k = n.blocks.length
    · rw [if_pos hk',hk']
      exact getD_concat_self.symm
    · rw [if_neg hk',h.table b hb k hk]
      exact (getD_concat hk').symm
  · have ho' : o < n.content.length := ho
    have hb : o/512 < n.blocks.length := by omega
    have hget : (n.push next).blocks.getD (o/512) 0 = n.blocks.getD (o/512) 0 := getD_concat (by omega)
    rw [hget,hD _ (block_mem hb)]
    exact h.data o ho'

lemma Rep.addInd (hnext : 59 ≤ next) (hlen : n.blocks.length ≤ 12) (hn : n.ind = none)
    (hz : D next = fun _ => 0) : Rep D (next+1) (update addrs 12 next) {n with ind := some next} := by
  have howned : n.owned = n.blocks := by
    unfold owned
    rw [hn]
    exact append_nil _
  have hc := h.nodup_concat
  have hr := h.range_concat hnext
  rw [howned] at hc hr
  refine ⟨h.fits,h.max,fun k hk => ?_,update_self ..,fun _ => rfl,fun b hb k hk => ?_,h.data,hc,hr⟩
  · rw [update_of_ne (by omega)]
    exact h.direct k hk
  · cases hb
    rw [hz,getD_eq_default _ _ (by dsimp only; omega)]
    rfl

lemma Rep.addrs_lt {k : ℕ} (hk : k < 13) : addrs k ≤ next := by
  by_cases hk' : k < 12
  · rw [h.direct k hk']
    by_cases hl : k < n.blocks.length
    · exact le_of_lt (h.block_range hl).2
    · rw [getD_eq_default _ _ (by omega)]
      exact zero_le _
  · rw [show k = 12 by omega,h.ind]
    cases hi : n.ind with
    | none => exact zero_le _
    | some b => exact le_of_lt (h.range b (ind_mem hi)).2

end

/-- How many blocks a file with `k` data blocks takes. -/
def cost (k : ℕ) : ℕ := k+if 12 < k then 1 else 0

lemma cost_mono {j k : ℕ} (h : j ≤ k) : cost j ≤ cost k := by
  unfold cost
  split <;> split <;> omega

/-- There is an indirect block only where it is needed. -/
def Node.Thrifty (n : Node) : Prop := n.ind.isSome = true → 12 < n.blocks.length

lemma Rep.length_owned (h : Rep D next addrs n) (ht : n.Thrifty) : n.owned.length = cost n.blocks.length := by
  unfold owned cost
  rw [length_append]
  by_cases hl : 12 < n.blocks.length
  · obtain ⟨b,hb⟩ := isSome_iff_exists.mp (h.isSome hl)
    rw [if_pos hl,hb]
    rfl
  · have hn : n.ind = none := by
      by_contra hi
      exact hl (ht (isSome_iff_ne_none.mpr hi))
    rw [if_neg hl,hn]
    rfl

/-- The bytes `q` at the end of the contents. -/
def Node.extend (n : Node) (q : List UInt8) : Node := {n with content := n.content++q}

/-- No block more than the contents need. -/
structure Snug (n : Node) : Prop where
  length : n.blocks.length = (n.content.length+511)/512
  thrifty : n.Thrifty

/-- What the file would take with `k` bytes more. -/
def Node.after (n : Node) (k : ℕ) : ℕ := cost ((n.content.length+k+511)/512)

end

end Xv6Threads.Disk
