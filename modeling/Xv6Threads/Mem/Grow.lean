import Xv6Threads.Mem.Owned

/-! What `mappages`, `deallocuvm` and `allocuvm` do to a directory, to the list of free pages and to the contents of
pages, for every pattern of failures of `kalloc`. -/
namespace Xv6Threads.Mem
open Function Nat
open Vm (pgSize kernBase word pgRoundUp pgRoundDown pdx ptx pgAddr Panic phystop npages lt_npages npages_le npages_mono
  next_page pgRoundUp_page round_page round_last round_count page_rounds cut_succ cut_skip)

/-- `kalloc` fails only when there is no page. -/
def Memory.Willing (m : Memory) : Prop := ∀ n, m.deny n = false

/-- From `m` to `m'` pages have only been taken. -/
abbrev Took (m m' : Memory) : Prop := Changed (fun _ => False) m m'

lemma kalloc_cases (m : Memory) :
    (∃ m', kalloc m = (none,m') ∧ m'.free = m.free ∧ Took m m' ∧ (m.Willing → m.free = [])) ∨
    ∃ f fs m', kalloc m = (some f,m') ∧ m.free = f :: fs ∧ m'.free = fs ∧ Took m m' := by
  obtain ⟨free,deny,page⟩ := m
  have hlater : ∀ {fs : List ℕ}, (∀ f ∈ fs, f ∈ free) → Took ⟨free,deny,page⟩ ⟨fs,fun n => deny (n+1),page⟩ :=
    fun h => ⟨fun _ _ => rfl,fun f hf => .inl (h f hf),fun h n => h (n+1)⟩
  cases free with
  | nil => exact .inl ⟨_,rfl,rfl,hlater fun _ => id,fun _ => rfl⟩
  | cons f fs =>
    by_cases hd : deny 0 = true
    · refine .inl ⟨⟨f :: fs,fun n => deny (n+1),page⟩,if_pos hd,rfl,hlater fun _ => id,fun h => ?_⟩
      cases hd.symm.trans (h 0)
    · exact .inr ⟨f,fs,⟨fs,fun n => deny (n+1),page⟩,if_neg hd,rfl,rfl,hlater fun g => List.mem_cons_of_mem f⟩

section
variable {page hand : Option ℕ} {D : Dir} {m : Memory} {all : ℕ → Prop} {v : ℕ}

lemma walk_true (K : Kept page D hand m all) (v : ℕ) :
    (∃ m', walkpgdir D (4096*v) true m = (none,m') ∧ Kept page D hand m' all ∧ Took m m' ∧ (m.Willing → m.free = [])) ∨
    ∃ t E m', walkpgdir D (4096*v) true m = (some (t,E),m') ∧ E (di v) = some t ∧ (∀ w, ent E w = ent D w) ∧
      (∀ i, i ≠ di v → E i = D i) ∧ Kept page E hand m' all ∧ Took m m' := by
  unfold walkpgdir
  rw [pd_page]
  cases hd : D (di v) with
  | some t => exact .inr ⟨t,D,m,rfl,hd,fun _ => rfl,fun _ _ => rfl,K,.refl m⟩
  | none =>
    rcases kalloc_cases m with ⟨m',hk,hf,hT,hs⟩ | ⟨f,fs,m',hk,hm,hf,hT⟩
    · exact .inl ⟨m',by simp [hk],K.congr hf fun _ => rfl,hT,hs⟩
    · exact .inr ⟨⟨f,fun _ => none⟩,update D (di v) (some ⟨f,fun _ => none⟩),m',by simp [hk],
        update_self ..,ent_newTab hd f,fun i hi => update_of_ne hi ..,K.table hm hf hd,hT⟩

lemma mapBody_spec (K : Kept page D hand m all) (hv : v < 2^20) (hn : ent D v = none) (fl : Flags) (last pa : ℕ) :
    (∃ m', mapBody fl last (D,4096*v,pa,m) = .ok (.inr (false,D,m')) ∧ Kept page D hand m' all ∧ Took m m' ∧
      (m.Willing → m.free = [])) ∨
    ∃ t E m', E (di v) = some t ∧ (∀ w, ent E w = ent D w) ∧ (∀ i, i ≠ di v → E i = D i) ∧ Kept page E hand m' all ∧
      Took m m' ∧ mapBody fl last (D,4096*v,pa,m) =
        if 4096*v = last then .ok (.inr (true,setPte E (4096*v) t (some ⟨pa,fl⟩),m'))
        else .ok (.inl (setPte E (4096*v) t (some ⟨pa,fl⟩),(4096*v+pgSize)%word,(pa+pgSize)%word,m')) := by
  rcases walk_true K v with ⟨m',hw,hK,hT,hs⟩ | ⟨t,E,m',hw,ht,hE,hi,hK,hT⟩
  · exact .inl ⟨m',by simp only [mapBody,hw],hK,hT,hs⟩
  · have hnone : t.pte (pt (4096*v)) = none := by rw [pt_page,← ent_of_tab hv ht,hE,hn]
    exact .inr ⟨t,E,m',ht,hE,hi,hK,hT,by simp only [mapBody,hw,hnone]⟩

lemma mappages_page {f : ℕ} (K : Kept page D (some f) m all) (hv : v < 2^19) (hn : ent D v = none) (fl : Flags) :
    (∃ m', mappages D (4096*v) pgSize f fl m = .ok (false,D,m') ∧ Kept page D (some f) m' all ∧ Took m m' ∧
      (m.Willing → m.free = [])) ∨
    ∃ E m', mappages D (4096*v) pgSize f fl m = .ok (true,E,m') ∧ Kept page E none m' all ∧ Took m m' ∧
      (∀ w, ent E w = if w = v then some ⟨f,fl⟩ else ent D w) ∧ ∀ i, i ≠ di v → E i = D i := by
  have hlast : pgRoundDown ((4096*v+pgSize-1)%word) = 4096*v := round_last (k := 0) (by omega)
  unfold mappages
  simp only [round_page,hlast]
  rcases mapBody_spec K (show v < 2^20 by omega) hn fl (4096*v) f with
    ⟨m',hb,hK,hT,hs⟩ | ⟨t,E,m',ht,hE,hi,hK,hT,hb⟩
  · exact .inl ⟨m',rounds_return hb _,hK,hT,hs⟩
  · rw [if_pos rfl] at hb
    refine .inr ⟨_,m',rounds_return hb _,hK.map hv ht (by rw [hE,hn]) fl,hT,fun w => ?_,fun i hne => ?_⟩
    · rw [ent_setPte (by omega) ht,hE]
    · rw [setPte_other hne,hi i hne]

/-- `E` is `D` with the `u` pages from `v` on mapped to `pa` on. -/
def Ranged (D E : Dir) (v u pa : ℕ) (fl : Flags) : Prop :=
  ∀ w, ent E w = if v ≤ w ∧ w < v+u then some ⟨(pa+4096*(w-v))%word,fl⟩ else ent D w

lemma Ranged.succ {E F : Dir} {u pa : ℕ} {fl : Flags} (h : Ranged D E v u pa fl)
    (hF : ∀ w, ent F w = if w = v+u then some ⟨(pa+4096*u)%word,fl⟩ else ent E w) : Ranged D F v (u+1) pa fl := by
  intro w
  rw [hF,h]
  by_cases hw : w = v+u
  · rw [if_pos hw,if_pos (by omega),show w-v = u by omega]
  · rw [if_neg hw]
    exact if_congr (by omega) rfl rfl

lemma mappages_range {k pa : ℕ} (K : Kept page D hand m all) (hv : v+k < 2^20) (hk : 2^19 ≤ v)
    (hn : ∀ i ≤ k, ent D (v+i) = none) (hpa : pa < word) (fl : Flags) :
    ∃ b E m', mappages D (4096*v) (4096*(k+1)) pa fl m = .ok (b,E,m') ∧ Kept page E hand m' all ∧ Took m m' ∧
      (∀ w, w < 2^19 → ent E w = ent D w) ∧
      (b = true → Ranged D E v (k+1) pa fl ∧ ∀ i, (∀ w, v ≤ w → w ≤ v+k → i ≠ di w) → E i = D i) ∧
      (b = false → m.Willing → ∀ n, (∀ w, n ≤ w → w < 2^19 → ent D w = none) → Scarce all n) := by
  -- Before the round at page `v+u` the pages before it are mapped.
  obtain ⟨⟨b,E,m'⟩,hr,hQ⟩ := rounds_spec (f := mapBody fl (4096*(v+k))) (g := fun s => (true,s.1,s.2.2.2))
    (I := fun s => ∃ u ≤ k, s.2.1 = 4096*(v+u) ∧ s.2.2.1 = (pa+4096*u)%word ∧ Kept page s.1 hand s.2.2.2 all ∧
      Took m s.2.2.2 ∧ Ranged D s.1 v u pa fl ∧ ∀ i, (∀ w, v ≤ w → w ≤ v+k → i ≠ di w) → s.1 i = D i)
    (Q := fun r => Kept page r.2.1 hand r.2.2 all ∧ Took m r.2.2 ∧ (∀ w, w < 2^19 → ent r.2.1 w = ent D w) ∧
      (r.1 = true → Ranged D r.2.1 v (k+1) pa fl ∧ ∀ i, (∀ w, v ≤ w → w ≤ v+k → i ≠ di w) → r.2.1 i = D i) ∧
      (r.1 = false → m.Willing → ∀ n, (∀ w, n ≤ w → w < 2^19 → ent D w = none) → Scarce all n))
    (fun s => v+k-s.2.1/4096) (by
      rintro ⟨E,a,pa',m1⟩ ⟨u,hu,rfl,rfl,hK,hT,hR,hi⟩
      have hlow : ∀ w, w < 2^19 → ent E w = ent D w := fun w hw => by rw [hR,if_neg (by omega)]
      have hnone : ent E (v+u) = none := by
        rw [hR,if_neg (by omega)]
        exact hn u hu
      rcases mapBody_spec hK (show v+u < 2^20 by omega) hnone fl (4096*(v+k)) ((pa+4096*u)%word) with
        ⟨m2,hb,hK2,hT2,hs⟩ | ⟨t,F,m2,ht,hF,hi2,hK2,hT2,hb⟩
      · refine .inr ⟨_,hb,hK2,hT.trans hT2,hlow,nofun,fun _ hw n hnn => ?_⟩
        refine hK.scarce (hs (hT.deny hw)) fun w h1 h2 => ?_
        rw [hlow w h2]
        exact hnn w h1 h2
      · have hR' := hR.succ (F := setPte F (4096*(v+u)) t (some ⟨(pa+4096*u)%word,fl⟩)) (fun w => by
          rw [ent_setPte (by omega) ht,hF])
        have hK' := hK2.kernel (show v+u < 2^20 by omega) (by omega) ht (some ⟨(pa+4096*u)%word,fl⟩)
        have hi' : ∀ i, (∀ w, v ≤ w → w ≤ v+k → i ≠ di w) →
            setPte F (4096*(v+u)) t (some ⟨(pa+4096*u)%word,fl⟩) i = D i := fun i h => by
          have hne := h (v+u) (by omega) (by omega)
          rw [setPte_other hne,hi2 i hne,hi i h]
        by_cases hend : u = k
        · rw [if_pos (by omega)] at hb
          subst hend
          exact .inr ⟨_,hb,hK',hT.trans hT2,fun w hw => by rw [hR',if_neg (by omega)],fun _ => ⟨hR',hi'⟩,nofun⟩
        · rw [if_neg (by omega),next_page (by omega)] at hb
          refine .inl ⟨_,hb,⟨u+1,by omega,rfl,?_,hK',hT.trans hT2,hR',hi'⟩,by simp only; omega⟩
          unfold pgSize word
          simp only
          omega)
    (s := (D,4096*v,pa,m)) (k := k+1)
    ⟨0,by omega,rfl,by rw [mul_zero,add_zero,mod_eq_of_lt hpa],K,.refl m,
      fun w => by rw [if_neg (by omega)],fun _ _ => rfl⟩ (by simp only; omega)
  refine ⟨b,E,m',?_,hQ⟩
  unfold mappages
  simp only [round_page,round_last hv,round_count hv]
  exact hr

end

/-- `E` is `D` without the pages from `a` to `b`. -/
def Shrunk (D E : Dir) (a b : ℕ) : Prop := ∀ w, ent E w = if a ≤ w ∧ w < b then none else ent D w

section
variable {page hand : Option ℕ} {D E : Dir} {m m' : Memory} {all S : ℕ → Prop} {oldsz newsz a v : ℕ}

lemma Shrunk.succ {F : Dir} (h : Shrunk D E a v) (hav : a ≤ v)
    (hF : ∀ w, ent F w = if w = v then none else ent E w) : Shrunk D F a (v+1) := cut_succ h hav hF

lemma Shrunk.skip {u : ℕ} (h : Shrunk D E a v) (hvu : v ≤ u) (hn : ∀ w, v ≤ w → w < u → ent E w = none) :
    Shrunk D E a u := cut_skip h hvu hn

/-- `deallocuvm` has come from page `a` to page `v`. -/
structure Freed (page hand : Option ℕ) (all S : ℕ → Prop) (D : Dir) (m : Memory) (E : Dir) (m' : Memory) (a v : ℕ) :
    Prop where
  kept : Kept page E hand m' all
  shrunk : Shrunk D E a v
  changed : Changed S m m'
  tabs : ∀ i, 512 ≤ i.val → E i = D i
  pages : ∀ i, (E i).map Tab.page = (D i).map Tab.page

/-- A round of `deallocuvm` skips pages that are absent, or frees one. -/
lemma deallocBody_cases (hs : oldsz ≤ kernBase) (hlt : 4096*v < oldsz) (E : Dir) :
    (∃ u, v < u ∧ u ≤ 2^19 ∧ (∀ w, v ≤ w → w < u → ent E w = none) ∧
      ∀ m, deallocBody oldsz (E,4096*v,m) = .ok (.inl (E,4096*u,m))) ∨
    ∃ t e, E (di v) = some t ∧ ent E v = some e ∧ ∀ m, deallocBody oldsz (E,4096*v,m) =
      (kfree e.addr m).map fun m' => .inl (setPte E (4096*v) t none,4096*(v+1),m') := by
  unfold kernBase at hs
  unfold deallocBody
  simp only [if_pos hlt,walk_false]
  cases ht : E (di v) with
  | none =>
    have hnext : (pgAddr (pdx (4096*v)+1)+word-pgSize+pgSize)%word = 4096*(1024*(v/1024+1)) := by
      unfold pgAddr word pgSize pdx
      omega
    refine .inl ⟨1024*(v/1024+1),by omega,by omega,fun w hvw hwu => ent_of_none ?_,fun m => by simp only [Option.map_none,hnext]⟩
    rw [show di w = di v by unfold di; ext; simp only; omega,ht]
  | some t =>
    have hent := ent_of_tab (show v < 2^20 by omega) ht
    simp only [Option.map_some,pt_page,next_page (show v+1 < 2^20 by omega)]
    cases he : t.pte (ti v) with
    | none =>
      refine .inl ⟨v+1,by omega,by omega,fun w hvw hwu => ?_,fun m => rfl⟩
      rw [show w = v by omega,hent,he]
    | some e =>
      refine .inr ⟨t,e,rfl,hent.trans he,fun m => ?_⟩
      simp only
      split_ifs with h0
      · -- `kfree` would panic as well
        rw [h0]
        rfl
      · rfl

lemma deallocBody_spec (hs : oldsz ≤ kernBase) (hlt : 4096*v < oldsz) (hav : a ≤ v)
    (hF : Freed page hand all S D m E m' a v) (hS : ∀ e, ent E v = some e → S e.addr) :
    ∃ F u m2, deallocBody oldsz (E,4096*v,m') = .ok (.inl (F,4096*u,m2)) ∧ v < u ∧
      Freed page hand all S D m F m2 a (min u (npages oldsz)) := by
  have hv : v < 2^19 := by
    unfold kernBase at hs
    omega
  have hvn := lt_npages.mpr hlt
  rcases deallocBody_cases hs hlt E with ⟨u,hvu,-,hn,hb⟩ | ⟨t,e,ht,he,hb⟩
  · exact ⟨E,u,m',hb m',hvu,hF.kept,hF.shrunk.skip (by omega) fun w h1 h2 => hn w h1 (by omega),hF.changed,hF.tabs,hF.pages⟩
  · rw [hb,kfree_valid (hF.kept.valid_user hv he)]
    refine ⟨_,v+1,_,rfl,by omega,hF.kept.unmap hv ht he,?_,hF.changed.trans (.give (hS e he)),fun i hi => ?_,
      fun i => (setPte_page ht none i).trans (hF.pages i)⟩
    · rw [min_eq_left (by omega)]
      exact hF.shrunk.succ hav (ent_setPte (by omega) ht none)
    · rw [setPte_other,hF.tabs i hi]
      intro h
      have := congrArg Fin.val h
      unfold di at this
      simp only at this
      omega

/-- `deallocuvm` gives back exactly the pages from the new size to the old one. -/
lemma deallocuvm_spec (K : Kept page D hand m all) (hs : oldsz ≤ kernBase) (newsz : ℕ)
    (hS : ∀ w e, npages newsz ≤ w → w < npages oldsz → ent D w = some e → S e.addr) :
    ∃ E m', deallocuvm D oldsz newsz m = .ok (min oldsz newsz,E,m') ∧
      Freed page hand all S D m E m' (npages newsz) (npages oldsz) := by
  unfold deallocuvm
  by_cases hle : oldsz ≤ newsz
  · refine ⟨D,m,by rw [if_pos hle,min_eq_left hle],K,fun w => ?_,.refl m,fun _ _ => rfl,fun _ => rfl⟩
    rw [if_neg]
    have := npages_mono hle
    omega
  · rw [if_neg hle,pgRoundUp_page (by omega),min_eq_right (by omega)]
    obtain ⟨E,m',hr,hE⟩ := page_rounds (f := deallocBody oldsz) (g := fun s => (s.1,s.2.2)) (h := m)
      (I := fun E m' => Freed page hand all S D m E m' (npages newsz)) (fun _ _ _ h => if_neg h)
      (fun E u m1 hnu hlt hE => deallocBody_spec hs hlt hnu hE fun e he => by
        rw [hE.shrunk,if_neg (by omega)] at he
        exact hS u e hnu (lt_npages.mpr hlt) he)
      ⟨K,fun w => by rw [if_neg (by omega)],.refl m,fun _ _ => rfl,fun _ => rfl⟩
    exact ⟨E,m',by simp only [hr,Except.map],hE⟩

end

/-- `E` and `m'` are `D` and `m` with new user pages from `a` to `b`, all zero. -/
structure Grown (page : Option ℕ) (all : ℕ → Prop) (D : Dir) (m : Memory) (E : Dir) (m' : Memory) (a b : ℕ) : Prop where
  kept : Kept page E none m' all
  new : ∀ w, a ≤ w → w < b → ∃ f ∈ m.free, ent E w = some ⟨f,.user⟩ ∧ m'.page f = fun _ => 0
  old : ∀ w, ¬(a ≤ w ∧ w < b) → ent E w = ent D w
  tabs : ∀ i, 512 ≤ i.val → E i = D i
  changed : Changed (· ∈ m.free) m m'

/-- `E` and `m'` are `D` and `m` but for page tables. -/
structure Undone (page : Option ℕ) (all : ℕ → Prop) (D : Dir) (m : Memory) (E : Dir) (m' : Memory) : Prop where
  kept : Kept page E none m' all
  same : ∀ w, ent E w = ent D w
  changed : Changed (· ∈ m.free) m m'
  tabs : ∀ i, 512 ≤ i.val → E i = D i

section
variable {page : Option ℕ} {D E : Dir} {m m1 : Memory} {all : ℕ → Prop} {oldsz newsz a v : ℕ}

lemma Grown.self (K : Kept page D none m all) {b : ℕ} (h : b ≤ a) : Grown page all D m D m a b :=
  ⟨K,fun w h1 h2 => by omega,fun _ _ => rfl,fun _ _ => rfl,.refl m⟩

lemma di_user (hv : v < 2^19) : (di v).val < 512 := by
  unfold di
  simp only
  omega

lemma allocFail_spec (hs : newsz < kernBase) (hv : v ≤ npages newsz)
    (hn : ∀ w, npages oldsz ≤ w → w < npages newsz → ent D w = none)
    (hG : Grown page all D m E m1 (npages oldsz) v) {mem : Option ℕ} {m2 : Memory} (K : Kept page E mem m2 all)
    (hC : Changed (· ∈ m.free) m m2) (hmem : ∀ f, mem = some f → f ∈ m.free) :
    ∃ F m', allocFail E oldsz newsz mem m2 = .ok (0,F,m') ∧ Undone page all D m F m' := by
  obtain ⟨F,m3,hF,hfreed⟩ := deallocuvm_spec (S := (· ∈ m.free)) K (le_of_lt hs) oldsz (fun w e hw hwn he => by
    by_cases hc : npages oldsz ≤ w ∧ w < v
    · obtain ⟨f,hf,hfe,-⟩ := hG.new w hc.1 hc.2
      rw [he] at hfe
      cases hfe
      exact hf
    · rw [hG.old w hc,hn w hw hwn] at he
      cases he)
  have hsame : ∀ w, ent F w = ent D w := fun w => by
    rw [hfreed.shrunk]
    by_cases hc : npages oldsz ≤ w ∧ w < npages newsz
    · rw [if_pos hc,hn w hc.1 hc.2]
    · rw [if_neg hc]
      exact hG.old w (by omega)
  have htabs : ∀ i, 512 ≤ i.val → F i = D i := fun i hi => (hfreed.tabs i hi).trans (hG.tabs i hi)
  have hC' := hC.trans hfreed.changed
  cases mem with
  | none => exact ⟨F,m3,by simp only [allocFail,hF]; rfl,hfreed.kept,hsame,hC',htabs⟩
  | some f =>
    have hval := hfreed.kept.valid_own (p := .hand) rfl
    refine ⟨F,m3.give f,?_,hfreed.kept.drop,hsame,hC'.trans (.give (hmem f rfl)),htabs⟩
    simp only [allocFail,hF]
    change ((kfree f m3).bind fun m => .ok (0,F,m)) = _
    rw [kfree_valid hval]
    rfl

lemma allocBody_page {f : ℕ} {m2 : Memory} (hlt : a < newsz) (hal : kalloc m1 = (some f,m2)) :
    allocBody oldsz newsz (E,a,m1) = allocNext oldsz newsz a f (mappages E a pgSize f .user (m2.put f fun _ => 0)) := by
  unfold allocBody
  simp only [if_pos hlt]
  rw [hal]

lemma allocBody_spec (hs : newsz < kernBase) (hlt : 4096*v < newsz) (hav : npages oldsz ≤ v)
    (hn : ∀ w, npages oldsz ≤ w → w < 2^19 → ent D w = none) (hG : Grown page all D m E m1 (npages oldsz) v) :
    (∃ F m2, allocBody oldsz newsz (E,4096*v,m1) = .ok (.inl (F,4096*(v+1),m2)) ∧
      Grown page all D m F m2 (npages oldsz) (v+1)) ∨
    ∃ F m2, allocBody oldsz newsz (E,4096*v,m1) = .ok (.inr (0,F,m2)) ∧ Undone page all D m F m2 ∧
      (m.Willing → Scarce all (npages newsz)) := by
  have hvn := lt_npages.mpr hlt
  have hle := npages_le (le_of_lt hs)
  have hn' : ∀ w, npages oldsz ≤ w → w < npages newsz → ent D w = none := fun w h1 h2 => hn w h1 (by omega)
  have habove : ∀ w, npages newsz ≤ w → w < 2^19 → ent E w = none := fun w h1 h2 => by
    rw [hG.old w (by omega)]
    exact hn w (by omega) h2
  rcases kalloc_cases m1 with ⟨m2,hal,hf,hT,hbad⟩ | ⟨f,fs,m2,hal,hm1,hf,hT⟩
  · obtain ⟨F,m3,hF,hU⟩ := allocFail_spec hs (le_of_lt hvn) hn' hG (hG.kept.congr hf fun _ => rfl)
      (hG.changed.trans hT.widen) nofun
    exact .inr ⟨F,m3,by simp only [allocBody,if_pos hlt,hal,hF,Except.map],hU,
      fun hw => hG.kept.scarce (hbad (hG.changed.deny hw)) habove⟩
  · have hfm : f ∈ m.free := by
      have : f ∈ m1.free := by
        rw [hm1]
        exact List.mem_cons_self
      exact (hG.changed.free f this).elim id id
    have hnone : ent E v = none := by
      rw [hG.old v (by omega)]
      exact hn' v hav hvn
    have hK := (hG.kept.grab hm1 hf).put f fun _ => 0
    have hC := (hG.changed.trans hT.widen).trans (.put hfm fun _ => 0)
    rcases mappages_page hK (show v < 2^19 by omega) hnone .user with
      ⟨m3,hmap,hK3,hT3,hbad⟩ | ⟨F,m3,hmap,hK3,hT3,hent,htab⟩
    · obtain ⟨F,m4,hF,hU⟩ := allocFail_spec hs (le_of_lt hvn) hn' hG hK3
        (hC.trans hT3.widen) (by rintro g hg; cases hg; exact hfm)
      exact .inr ⟨F,m4,by rw [allocBody_page hlt hal,hmap,allocNext,hF]; rfl,hU,fun hw => hK.scarce (hbad (hC.deny hw)) habove⟩
    · refine .inl ⟨F,m3,by rw [allocBody_page hlt hal,hmap,allocNext,next_page (by omega)],hK3,fun w h1 h2 => ?_,
        fun w hw => ?_,fun i hi => ?_,hC.trans hT3.widen⟩
      · rw [hT3.taken.1,hent]
        by_cases hw : w = v
        · exact ⟨f,hfm,if_pos hw,update_self ..⟩
        · obtain ⟨g,hg,hge,hz⟩ := hG.new w h1 (by omega)
          refine ⟨g,hg,by rw [if_neg hw,hge],?_⟩
          -- The page taken now was free, so it is none of those mapped before.
          have hne : g ≠ f := hG.kept.user_ne_head hm1 (show w < 2^19 by omega) hge
          change update m2.page f _ g = _
          rw [update_of_ne hne,hT.taken.1,hz]
      · rw [hent,if_neg (by omega)]
        exact hG.old w (by omega)
      · rw [htab i (fun h => by have := di_user (show v < 2^19 by omega); rw [h] at hi; omega)]
        exact hG.tabs i hi

/-- `allocuvm` adds all pages from the old size to the new one, or none. -/
lemma allocuvm_spec (K : Kept page D none m all) (newsz : ℕ)
    (hn : ∀ w, npages oldsz ≤ w → w < 2^19 → ent D w = none) : ∃ r E m', allocuvm D oldsz newsz m = .ok (r,E,m') ∧
      ((r = 0 ∧ Undone page all D m E m' ∧ (newsz < kernBase → m.Willing → Scarce all (npages newsz))) ∨
      (newsz < kernBase ∧ r = max oldsz newsz ∧ Grown page all D m E m' (npages oldsz) (npages newsz))) := by
  unfold allocuvm
  by_cases hs : kernBase ≤ newsz
  · rw [if_pos hs]
    exact ⟨0,D,m,rfl,.inl ⟨rfl,⟨K,fun _ => rfl,.refl m,fun _ _ => rfl⟩,fun h => by omega⟩⟩
  · rw [if_neg hs]
    by_cases hlt : newsz < oldsz
    · rw [if_pos hlt]
      exact ⟨oldsz,D,m,rfl,.inr ⟨by omega,by omega,.self K (npages_mono (by omega))⟩⟩
    · rw [if_neg hlt,pgRoundUp_page (by omega)]
      obtain ⟨⟨r,E,m'⟩,hr,hE⟩ := rounds_spec (f := allocBody oldsz newsz) (g := fun s => (newsz,s.1,s.2.2))
        (I := fun s => ∃ u, s.2.1 = 4096*u ∧ npages oldsz ≤ u ∧ u ≤ npages newsz ∧
          Grown page all D m s.1 s.2.2 (npages oldsz) u)
        (Q := fun r => (r.1 = 0 ∧ Undone page all D m r.2.1 r.2.2 ∧
            (newsz < kernBase → m.Willing → Scarce all (npages newsz))) ∨
          (r.1 = newsz ∧ Grown page all D m r.2.1 r.2.2 (npages oldsz) (npages newsz)))
        (fun s => npages newsz-s.2.1/4096) (by
          rintro ⟨E,a,m1⟩ ⟨u,rfl,hou,hun,hG⟩
          by_cases hlt : 4096*u < newsz
          · have hu := lt_npages.mpr hlt
            rcases allocBody_spec (by omega) hlt hou hn hG with ⟨F,m2,hF,hG'⟩ | ⟨F,m2,hF,hU,hbad⟩
            · exact .inl ⟨_,hF,⟨u+1,rfl,by omega,hu,hG'⟩,by simp only; omega⟩
            · exact .inr ⟨_,hF,.inl ⟨rfl,hU,fun _ => hbad⟩⟩
          · have hu := mt lt_npages.mp hlt
            rw [show u = npages newsz by omega] at hG
            exact .inr ⟨(newsz,E,m1),if_neg hlt,.inr ⟨rfl,hG⟩⟩)
        (s := (D,4096*npages oldsz,m)) (k := newsz/pgSize+2)
        ⟨npages oldsz,rfl,le_rfl,npages_mono (by omega),.self K le_rfl⟩ (by
          unfold pgSize npages
          omega)
      refine ⟨r,E,m',hr,hE.imp_right (fun hr => ⟨by omega,?_,hr.2⟩)⟩
      have := hr.1
      simp only at this
      omega

end

end Xv6Threads.Mem
