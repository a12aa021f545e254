import Xv6Threads.Fs.Inodes

/-! The slots of a directory as a map from names to inode numbers. -/
namespace Xv6Threads.Fs
open List

/-- `.` or `..` -/
def isDots (n : List UInt8) : Prop := text dirSiz n = text dirSiz dot ∨ text dirSiz n = text dirSiz dotdot

/-- Slots in use that have the same name are the same slot. -/
def Distinct (l : List Dirent) : Prop :=
  ∀ (j k : ℕ) (x y : Dirent), l[j]? = some x → l[k]? = some y → x.inum ≠ 0 → y.inum ≠ 0 →
    text dirSiz x.name = text dirSiz y.name → j = k

/-- A slot in use gives `n` the inode `i`. -/
def Named (l : List Dirent) (n : List UInt8) (i : ℕ) : Prop :=
  ∃ (k : ℕ) (e : Dirent), l[k]? = some e ∧ e.inum = i ∧ i ≠ 0 ∧ text dirSiz e.name = text dirSiz n

variable {l : List Dirent} {n : List UInt8} {e x : Dirent} {i j k : ℕ}

lemma distinct_nil : Distinct [] := fun j _ _ _ hx => by cases j <;> cases hx

lemma not_named_nil : ¬Named [] n i := fun ⟨k,_,hx,_⟩ => by cases k <;> cases hx

lemma Distinct.named_unique (h : Distinct l) (hi : Named l n i) (hj : Named l n j) : i = j := by
  obtain ⟨a,x,hx,rfl,hx0,hxn⟩ := hi
  obtain ⟨b,y,hy,rfl,hy0,hyn⟩ := hj
  obtain rfl := h a b x y hx hy hx0 hy0 (hxn.trans hyn.symm)
  rw [hx] at hy
  rw [Option.some.inj hy]

lemma lookup_some {b : ℕ} (h : lookup n l b = some (i,k)) :
    b ≤ k ∧ ∃ e, l[k-b]? = some e ∧ e.inum = i ∧ i ≠ 0 ∧ text dirSiz e.name = text dirSiz n := by
  induction l generalizing b with
  | nil => cases h
  | cons e l ih =>
    unfold lookup at h
    split_ifs at h with he
    · cases h
      exact ⟨le_rfl,e,by rw [Nat.sub_self]; rfl,rfl,he.1,(namecmp_eq_zero.mp he.2).symm⟩
    · obtain ⟨hb,x,hx,hr⟩ := ih h
      refine ⟨by omega,x,?_,hr⟩
      rw [show k-b = (k-(b+1))+1 by omega,getElem?_cons_succ]
      exact hx

lemma lookup_named (h : lookup n l 0 = some (i,k)) : Named l n i := by
  obtain ⟨-,e,he,hr⟩ := lookup_some h
  exact ⟨_,e,he,hr⟩

lemma lookup_none {b : ℕ} (h : lookup n l b = none) : ¬Named l n i := by
  rintro ⟨k,x,hx,rfl,h0,hn⟩
  induction l generalizing b k with
  | nil => cases k <;> cases hx
  | cons e l ih =>
    unfold lookup at h
    split_ifs at h with he
    cases k with
    | zero =>
      cases hx
      exact he ⟨h0,namecmp_eq_zero.mpr hn.symm⟩
    | succ k => exact ih h k hx

/-- `lookup` reads the map. -/
lemma lookup_iff (h : Distinct l) : (lookup n l 0).map Prod.fst = some i ↔ Named l n i := by
  constructor
  · intro hl
    obtain ⟨⟨j,k⟩,hx,rfl⟩ := Option.map_eq_some_iff.mp hl
    exact lookup_named hx
  · intro hi
    cases hl : lookup n l 0 with
    | none => exact (lookup_none hl hi).elim
    | some x => exact congrArg some (h.named_unique (lookup_named hl) hi)

lemma getElem?_putSlot (hk : k ≤ l.length) : (putSlot l k e)[j]? = if j = k then some e else l[j]? := by
  unfold putSlot
  split_ifs with hlt hj hj
  · rw [hj,getElem?_set_self hlt]
  · rw [getElem?_set_ne (Ne.symm hj)]
  · rw [hj,show k = l.length by omega,getElem?_concat_length]
  · rcases Nat.lt_or_ge j l.length with h | h
    · rw [getElem?_append_left h]
    · rw [getElem?_eq_none h,getElem?_eq_none (by rw [length_append,length_singleton]; omega)]

lemma mem_putSlot (h : x ∈ putSlot l k e) : x = e ∨ x ∈ l := by
  unfold putSlot at h
  split_ifs at h
  · exact (mem_or_eq_of_mem_set h).symm
  · rw [mem_append,mem_singleton] at h
    exact h.symm

lemma emptySlot_le (l : List Dirent) : emptySlot l ≤ l.length := by
  induction l with
  | nil => exact le_rfl
  | cons e l ih =>
    rw [emptySlot,length_cons]
    split_ifs <;> omega

lemma emptySlot_free (h : l[emptySlot l]? = some x) : x.inum = 0 := by
  induction l with
  | nil => cases h
  | cons e l ih =>
    rw [emptySlot] at h
    split_ifs at h with he
    · cases h
      exact he
    · exact ih h

lemma lookup_slot_lt (h : lookup n l 0 = some (i,k)) : k < l.length := by
  obtain ⟨-,e,he,-⟩ := lookup_some h
  exact (List.getElem?_eq_some_iff.mp he).1

lemma distinct_putSlot (h : Distinct l) (hk : k ≤ l.length) (he : e.inum ≠ 0 → ∀ i, ¬Named l e.name i) :
    Distinct (putSlot l k e) := by
  intro a b x y hx hy hx0 hy0 hxy
  rw [getElem?_putSlot hk] at hx hy
  split_ifs at hx hy with ha hb hb
  · rw [ha,hb]
  · cases hx
    exact (he hx0 _ ⟨b,y,hy,rfl,hy0,hxy.symm⟩).elim
  · cases hy
    exact (he hy0 _ ⟨a,x,hx,rfl,hx0,hxy⟩).elim
  · exact h a b x y hx hy hx0 hy0 hxy

lemma named_link {m : List UInt8} (hi : i ≠ 0) : Named (putSlot l (emptySlot l) ⟨i,strncpy dirSiz n⟩) m j ↔
    (text dirSiz n = text dirSiz m ∧ j = i) ∨ Named l m j := by
  have hk := emptySlot_le l
  constructor
  · rintro ⟨k,x,hx,hxj,h0,hm⟩
    rw [getElem?_putSlot hk] at hx
    split_ifs at hx with hkk
    · cases hx
      exact .inl ⟨by rw [← hm,text_strncpy],hxj.symm⟩
    · exact .inr ⟨k,x,hx,hxj,h0,hm⟩
  · rintro (⟨hm,rfl⟩ | ⟨k,x,hx,hxj,h0,hm⟩)
    · refine ⟨emptySlot l,_,by rw [getElem?_putSlot hk,if_pos rfl],rfl,hi,?_⟩
      rw [text_strncpy,hm]
    · refine ⟨k,x,?_,hxj,h0,hm⟩
      rw [getElem?_putSlot hk,if_neg]
      · exact hx
      · rintro rfl
        rw [emptySlot_free hx] at hxj
        exact h0 hxj.symm

lemma named_unlink {m b : List UInt8} (h : Distinct l) (hl : lookup n l 0 = some (i,k)) :
    Named (putSlot l k ⟨0,b⟩) m j ↔ text dirSiz n ≠ text dirSiz m ∧ Named l m j := by
  obtain ⟨-,e,he,hei,hi0,hen⟩ := lookup_some hl
  rw [Nat.sub_zero] at he
  have hk := (lookup_slot_lt hl).le
  constructor
  · rintro ⟨a,x,hx,hxj,h0,hm⟩
    rw [getElem?_putSlot hk] at hx
    split_ifs at hx with ha
    · cases hx
      exact (h0 hxj.symm).elim
    · refine ⟨fun hnm => ha ?_,a,x,hx,hxj,h0,hm⟩
      exact h a k x e hx he (hxj ▸ h0) (hei ▸ hi0) (by rw [hm,hen,hnm])
  · rintro ⟨hnm,a,x,hx,hxj,h0,hm⟩
    refine ⟨a,x,?_,hxj,h0,hm⟩
    rw [getElem?_putSlot hk,if_neg]
    · exact hx
    · rintro rfl
      rw [he] at hx
      cases hx
      exact hnm (hen.symm.trans hm)

end Xv6Threads.Fs
