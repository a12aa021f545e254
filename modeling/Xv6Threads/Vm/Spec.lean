import Xv6Threads.Vm.PageTable

/-! What the functions on page tables do to the entries of a directory, by page number: none of
them panics where its caller keeps to the pages that are there, for every pattern of failures of
the allocator. -/
namespace Xv6Threads.Vm
open Function Nat

/-- The entry for page `v`. -/
def ent (D : Dir) (v : ℕ) : Option Pte := (D (v/1024)).bind (fun t => t.pte (v%1024))

/-- The number of pages of a process of size `sz`. -/
def npages (sz : ℕ) : ℕ := (sz+4095)/4096

section
variable {v sz : ℕ}

lemma pdx_page (hv : v < 2^20) : pdx (4096*v) = v/1024 := by
  unfold pdx
  omega

lemma ptx_page : ptx (4096*v) = v%1024 := by
  unfold ptx
  omega

lemma next_page (hv : v+1 < 2^20) : (4096*v+pgSize)%word = 4096*(v+1) := by
  unfold pgSize word
  omega

lemma pgRoundUp_page (hs : sz ≤ kernBase) : pgRoundUp sz = 4096*npages sz := by
  unfold kernBase at hs
  unfold pgRoundUp npages pgSize word
  omega

lemma lt_npages {w : ℕ} : w < npages sz ↔ 4096*w < sz := by
  unfold npages
  omega

lemma npages_le (hs : sz ≤ kernBase) : npages sz ≤ 2^19 := by
  unfold kernBase at hs
  unfold npages
  omega

lemma npages_mono {a b : ℕ} (h : a ≤ b) : npages a ≤ npages b := by
  unfold npages
  omega

lemma round_page : pgRoundDown (4096*v) = 4096*v := by
  unfold pgRoundDown pgSize
  omega

lemma round_last {k : ℕ} (hv : v+k < 2^20) : pgRoundDown ((4096*v+4096*(k+1)-1)%word) = 4096*(v+k) := by
  unfold pgRoundDown pgSize word
  omega

lemma round_count {k : ℕ} (hv : v+k < 2^20) : (4096*(v+k)+word-4096*v)%word/pgSize+1 = k+1 := by
  unfold pgSize word
  omega

/-- The loop of `deallocuvm` over the pages from `a` on. -/
lemma page_rounds {δ η : Type} {f : δ × ℕ × η → Except Panic (δ × ℕ × η ⊕ δ × η)} {g : δ × ℕ × η → δ × η}
    {I : δ → η → ℕ → Prop} {a : ℕ} {D : δ} {h : η} (hend : ∀ E b h, ¬b < sz → f (E,b,h) = .ok (.inr (E,h)))
    (hstep : ∀ E u h, a ≤ u → 4096*u < sz → I E h u →
      ∃ F u' h', f (E,4096*u,h) = .ok (.inl (F,4096*u',h')) ∧ u < u' ∧ I F h' (min u' (npages sz)))
    (h0 : I D h (min a (npages sz))) :
    ∃ E h', rounds f g (sz/pgSize+2) (D,4096*a,h) = .ok (E,h') ∧ I E h' (npages sz) := by
  obtain ⟨⟨E,h'⟩,hr,hE⟩ := rounds_spec (f := f) (g := g)
    (I := fun s => ∃ u, s.2.1 = 4096*u ∧ a ≤ u ∧ I s.1 s.2.2 (min u (npages sz)))
    (Q := fun r => I r.1 r.2 (npages sz)) (fun s => npages sz-s.2.1/4096) (by
      rintro ⟨E,b,h⟩ ⟨u,rfl,hau,hE⟩
      by_cases hlt : 4096*u < sz
      · have hu := lt_npages.mpr hlt
        rw [min_eq_left (by omega)] at hE
        obtain ⟨F,u',h',hF,huu,hI⟩ := hstep E u h hau hlt hE
        exact .inl ⟨_,hF,⟨u',rfl,by omega,hI⟩,by simp only; omega⟩
      · have hu := mt lt_npages.mp hlt
        rw [min_eq_right (by omega)] at hE
        exact .inr ⟨(E,h),hend _ _ _ hlt,hE⟩)
    (s := (D,4096*a,h)) (k := sz/pgSize+2) ⟨a,rfl,le_rfl,h0⟩ (by
      unfold pgSize npages
      omega)
  exact ⟨E,h',hr,hE⟩

end

section
variable {α : Type} {f g : ℕ → Option α} {a v : ℕ} (hg : ∀ w, g w = if a ≤ w ∧ w < v then none else f w)
include hg

lemma cut_succ {h : ℕ → Option α} (hav : a ≤ v) (hh : ∀ w, h w = if w = v then none else g w) (w : ℕ) :
    h w = if a ≤ w ∧ w < v+1 then none else f w := by
  rw [hh,hg]
  by_cases hw : w = v
  · rw [if_pos hw,if_pos (by omega)]
  · rw [if_neg hw]
    exact if_congr (by omega) rfl rfl

lemma cut_skip {u : ℕ} (hvu : v ≤ u) (hn : ∀ w, v ≤ w → w < u → g w = none) (w : ℕ) :
    g w = if a ≤ w ∧ w < u then none else f w := by
  by_cases hw : v ≤ w ∧ w < u
  · rw [hn w hw.1 hw.2]
    split_ifs with hc
    · rfl
    · rw [← hn w hw.1 hw.2,hg,if_neg (by omega)]
  · rw [hg]
    exact if_congr (by omega) rfl rfl

end

section
variable {D : Dir} {v : ℕ} {t : Tab}

lemma ent_setPte (hv : v < 2^20) (ht : D (v/1024) = some t) (e : Option Pte) (w : ℕ) :
    ent (setPte D (4096*v) t e) w = if w = v then e else ent D w := by
  unfold setPte ent
  rw [pdx_page hv,ptx_page]
  by_cases hd : w/1024 = v/1024
  · rw [hd,update_self,ht]
    change update t.pte (v%1024) e (w%1024) = if w = v then e else t.pte (w%1024)
    by_cases hm : w%1024 = v%1024
    · rw [hm,update_self,if_pos (by omega)]
    · rw [update_of_ne hm,if_neg (by rintro rfl; exact hm rfl)]
  · rw [update_of_ne hd,if_neg (by rintro rfl; exact hd rfl)]

lemma ent_of_tab (ht : D (v/1024) = some t) : ent D v = t.pte (v%1024) := by
  rw [ent,ht]
  rfl

lemma walk_false (hv : v < 2^20) (h : Heap) : (walkpgdir D (4096*v) false h).1 = (D (v/1024)).map (fun t => (t,D)) := by
  unfold walkpgdir
  rw [pdx_page hv]
  cases D (v/1024) <;> rfl

/-- `kalloc` does not fail any more. -/
def Heap.Good (h : Heap) : Prop := ∀ n, h.supply n ≠ 0

/-- What `kalloc` is going to return in `h'` is what it was going to return in `h` later. -/
def Heap.Later (h h' : Heap) : Prop := ∃ j, ∀ n, h'.supply n = h.supply (n+j)

lemma Heap.Later.refl (h : Heap) : h.Later h := ⟨0,fun _ => rfl⟩

lemma Heap.Later.trans {h1 h2 h3 : Heap} (h : h1.Later h2) (h' : h2.Later h3) : h1.Later h3 := by
  obtain ⟨j,hj⟩ := h
  obtain ⟨k,hk⟩ := h'
  exact ⟨k+j,fun n => by rw [hk,hj,add_assoc]⟩

lemma Heap.Later.good {h h' : Heap} (hl : h.Later h') (hg : h.Good) : h'.Good := by
  obtain ⟨j,hj⟩ := hl
  intro n
  rw [hj]
  exact hg _

lemma kalloc_cases (h : Heap) : (∃ h', kalloc h = (0,h') ∧ ¬h.Good) ∨
    ∃ p h', kalloc h = (p+1,h') ∧ h.Later h' ∧ h.supply 0 = p+1 := by
  cases hp : h.supply 0 with
  | zero => exact .inl ⟨_,by rw [kalloc,hp],fun hg => hg 0 hp⟩
  | succ p => exact .inr ⟨p,_,by rw [kalloc,hp],⟨1,fun _ => rfl⟩,rfl⟩

lemma walk_true (hv : v < 2^20) (h : Heap) : (∃ h', walkpgdir D (4096*v) true h = (none,h') ∧ ¬h.Good) ∨
    ∃ t E h', walkpgdir D (4096*v) true h = (some (t,E),h') ∧ E (v/1024) = some t ∧ (∀ w, ent E w = ent D w) ∧
      (∀ i, i ≠ v/1024 → E i = D i) ∧ h.Later h' := by
  unfold walkpgdir
  rw [pdx_page hv]
  cases hd : D (v/1024) with
  | some t => exact .inr ⟨t,D,h,rfl,hd,fun _ => rfl,fun _ _ => rfl,.refl h⟩
  | none =>
    rcases kalloc_cases h with ⟨h',hk,hg⟩ | ⟨p,h',hk,hg,-⟩
    · exact .inl ⟨h',by simp [hk],hg⟩
    · refine .inr ⟨⟨p+1,fun _ => none⟩,update D (v/1024) (some ⟨p+1,fun _ => none⟩),h',by simp [hk],
        update_self ..,fun w => ?_,fun i hi => update_of_ne hi ..,hg⟩
      unfold ent
      by_cases hw : w/1024 = v/1024
      · rw [hw,update_self,hd]; rfl
      · rw [update_of_ne hw]

end

section
variable {D : Dir} {v : ℕ}

lemma mapBody_spec (hv : v < 2^20) (hn : ent D v = none) (perm : Perm) (last pa : ℕ) (h : Heap) :
    (∃ h', mapBody perm last (D,4096*v,pa,h) = .ok (.inr (false,D,h')) ∧ ¬h.Good) ∨
    ∃ E h', (∀ w, ent E w = if w = v then some ⟨pa,perm⟩ else ent D w) ∧ (∀ i, i ≠ v/1024 → E i = D i) ∧ h.Later h' ∧
      mapBody perm last (D,4096*v,pa,h) = if 4096*v = last then .ok (.inr (true,E,h'))
        else .ok (.inl (E,(4096*v+pgSize)%word,(pa+pgSize)%word,h')) := by
  rcases walk_true (D := D) hv h with ⟨h',hw,hg⟩ | ⟨t,E,h',hw,ht,hE,hi,hg⟩
  · exact .inl ⟨h',by simp only [mapBody,hw],hg⟩
  · have hnone : t.pte (ptx (4096*v)) = none := by rw [ptx_page,← ent_of_tab ht,hE,hn]
    refine .inr ⟨setPte E (4096*v) t (some ⟨pa,perm⟩),h',fun w => ?_,fun i hne => ?_,hg,
      by simp only [mapBody,hw,hnone]⟩
    · rw [ent_setPte hv ht,hE]
    · rw [setPte,pdx_page hv,update_of_ne hne,hi i hne]

lemma mappages_page (hv : v < 2^20) (hn : ent D v = none) (pa : ℕ) (perm : Perm) (h : Heap) :
    ∃ b E h', mappages D (4096*v) pgSize pa perm h = .ok (b,E,h') ∧ (h.Good → b = true) ∧
      (b = true → h.Later h' ∧ ∀ i, i ≠ v/1024 → E i = D i) ∧
      ∀ w, ent E w = if b ∧ w = v then some ⟨pa,perm⟩ else ent D w := by
  have hlast : pgRoundDown ((4096*v+pgSize-1)%word) = 4096*v := round_last (k := 0) hv
  have hbody := mapBody_spec hv hn perm (4096*v) pa h
  obtain ⟨⟨b,E,h'⟩,hr,hb,hl,hE⟩ := rounds_spec (f := mapBody perm (4096*v)) (g := fun s => (true,s.1,s.2.2.2))
    (I := fun s => s = (D,4096*v,pa,h))
    (Q := fun r => (h.Good → r.1 = true) ∧ (r.1 = true → h.Later r.2.2 ∧ ∀ i, i ≠ v/1024 → r.2.1 i = D i) ∧
      ∀ w, ent r.2.1 w = if r.1 ∧ w = v then some ⟨pa,perm⟩ else ent D w)
    (fun _ => 0) (by
      rintro _ rfl
      rcases hbody with ⟨h',hb,hg⟩ | ⟨E,h',hE,hi,hl,hb⟩
      · exact .inr ⟨_,hb,fun h => (hg h).elim,nofun,fun w => by simp⟩
      · rw [if_pos rfl] at hb
        exact .inr ⟨_,hb,fun _ => rfl,fun _ => ⟨hl,hi⟩,fun w => by simpa using hE w⟩)
    rfl (succ_pos ((4096*v+word-4096*v)%word/pgSize))
  refine ⟨b,E,h',?_,hb,hl,hE⟩
  unfold mappages
  simp only [round_page,hlast]
  exact hr

lemma mappages_range {k : ℕ} (hv : v+k < 2^20) (hn : ∀ i ≤ k, ent D (v+i) = none) (pa : ℕ) (perm : Perm)
    (h : Heap) : ∃ b E h', mappages D (4096*v) (4096*(k+1)) pa perm h = .ok (b,E,h') ∧ (h.Good → b = true) ∧
      (b = true → h.Later h' ∧ ∀ w, v ≤ w → w ≤ v+k → ∃ p, ent E w = some ⟨p,perm⟩) ∧
      (∀ i, i < v/1024 ∨ (v+k)/1024 < i → E i = D i) ∧ ∀ w, w < v ∨ v+k < w → ent E w = ent D w := by
  -- Before the round at page `u` the entries from `u` on are as they were.
  obtain ⟨⟨b,E,h'⟩,hr,hb,hl,hi,hE⟩ := rounds_spec (f := mapBody perm (4096*(v+k)))
    (g := fun s => (true,s.1,s.2.2.2))
    (I := fun s => ∃ u ≤ k, s.2.1 = 4096*(v+u) ∧ h.Later s.2.2.2 ∧
      (∀ w, v ≤ w → w < v+u → ∃ p, ent s.1 w = some ⟨p,perm⟩) ∧
      (∀ i, i < v/1024 ∨ (v+k)/1024 < i → s.1 i = D i) ∧ ∀ w, w < v ∨ v+u ≤ w → ent s.1 w = ent D w)
    (Q := fun r => (h.Good → r.1 = true) ∧
      (r.1 = true → h.Later r.2.2 ∧ ∀ w, v ≤ w → w ≤ v+k → ∃ p, ent r.2.1 w = some ⟨p,perm⟩) ∧
      (∀ i, i < v/1024 ∨ (v+k)/1024 < i → r.2.1 i = D i) ∧ ∀ w, w < v ∨ v+k < w → ent r.2.1 w = ent D w)
    (fun s => v+k-s.2.1/4096) (by
      rintro ⟨E,a,pa,h'⟩ ⟨u,hu,rfl,hl,hm,hi,hE⟩
      rcases mapBody_spec (D := E) (v := v+u) (by omega) (by rw [hE _ (by omega)]; exact hn u hu) perm
        (4096*(v+k)) pa h' with ⟨h2,hb,hg2⟩ | ⟨F,h2,hF,hi2,hl2,hb⟩
      · exact .inr ⟨_,hb,fun h => (hg2 (hl.good h)).elim,nofun,hi,fun w hw => hE w (by omega)⟩
      · have hF' : ∀ w, w < v ∨ v+u < w → ent F w = ent D w := fun w hw => by
          rw [hF,if_neg (by omega),hE w (by omega)]
        have hi' : ∀ i, i < v/1024 ∨ (v+k)/1024 < i → F i = D i := fun i h => (hi2 i (by omega)).trans (hi i h)
        have hm' : ∀ w, v ≤ w → w ≤ v+u → ∃ p, ent F w = some ⟨p,perm⟩ := by
          intro w h1 h2
          rw [hF]
          split_ifs with hc
          · exact ⟨pa,rfl⟩
          · exact hm w h1 (by omega)
        by_cases hlast : u = k
        · rw [if_pos (by omega)] at hb
          exact .inr ⟨_,hb,fun h => rfl,fun _ => ⟨hl.trans hl2,fun w h1 h2 => hm' w h1 (by omega)⟩,hi',
            fun w hw => hF' w (by omega)⟩
        · rw [if_neg (by omega),next_page (by omega)] at hb
          exact .inl ⟨_,hb,⟨u+1,by omega,rfl,hl.trans hl2,fun w h1 h2 => hm' w h1 (by omega),hi',
            fun w hw => hF' w (by omega)⟩,by simp only; omega⟩)
    (s := (D,4096*v,pa,h)) (k := k+1) ⟨0,by omega,rfl,.refl h,fun w h1 h2 => by omega,fun _ _ => rfl,fun _ _ => rfl⟩
    (by simp only; omega)
  refine ⟨b,E,h',?_,hb,hl,hi,hE⟩
  unfold mappages
  simp only [round_page,round_last hv,round_count hv]
  exact hr

end

/-- `E` is `D` without the pages from `a` to `b`. -/
def Shrunk (D E : Dir) (a b : ℕ) : Prop := ∀ w, ent E w = if a ≤ w ∧ w < b then none else ent D w

section
variable {oldsz : ℕ} {D E : Dir} {a v : ℕ}

lemma Shrunk.succ {F : Dir} (h : Shrunk D E a v) (hav : a ≤ v)
    (hF : ∀ w, ent F w = if w = v then none else ent E w) : Shrunk D F a (v+1) := cut_succ h hav hF

lemma Shrunk.skip {u : ℕ} (h : Shrunk D E a v) (hvu : v ≤ u) (hn : ∀ w, v ≤ w → w < u → ent E w = none) :
    Shrunk D E a u := cut_skip h hvu hn

lemma deallocBody_spec (hs : oldsz ≤ kernBase) (hlt : 4096*v < oldsz) (hav : a ≤ v) (h : Heap)
    (hE : Shrunk D E a v) (hz : ∀ e, ent E v = some e → e.addr ≠ 0) :
    ∃ F u h', deallocBody oldsz (E,4096*v,h) = .ok (.inl (F,4096*u,h')) ∧ v < u ∧
      Shrunk D F a (min u (npages oldsz)) := by
  unfold kernBase at hs
  have hv : v < 2^19 := by omega
  have hvn := lt_npages.mpr hlt
  unfold deallocBody
  simp only [if_pos hlt,walk_false (D := E) (show v < 2^20 by omega)]
  cases ht : E (v/1024) with
  | none =>
    have hnext : (pgAddr (pdx (4096*v)+1)+word-pgSize+pgSize)%word = 4096*(1024*(v/1024+1)) := by
      rw [pdx_page (by omega)]
      unfold pgAddr word pgSize
      omega
    refine ⟨E,1024*(v/1024+1),h,by simp only [Option.map_none,hnext],by omega, hE.skip (by omega) (fun w hvw hwu => ?_)⟩
    rw [ent,show w/1024 = v/1024 by omega,ht]
    rfl
  | some t =>
    have hent := ent_of_tab ht
    simp only [Option.map_some,ptx_page,next_page (show v+1 < 2^20 by omega)]
    cases he : t.pte (v%1024) with
    | none =>
      refine ⟨E,v+1,h,rfl,by omega,hE.skip (by omega) (fun w hvw hwu => ?_)⟩
      rw [show w = v by omega,hent,he]
    | some e =>
      simp only [if_neg (hz e (by rw [hent,he]))]
      refine ⟨_,v+1,_,rfl,by omega,?_⟩
      rw [min_eq_left (by omega)]
      exact hE.succ hav (ent_setPte (by omega) ht none)

/-- `deallocuvm` clears exactly the entries from the new size to the old one. -/
lemma deallocuvm_spec (hs : oldsz ≤ kernBase) (newsz : ℕ) (h : Heap)
    (hz : ∀ w e, npages newsz ≤ w → w < npages oldsz → ent D w = some e → e.addr ≠ 0) :
    ∃ E h', deallocuvm D oldsz newsz h = .ok (min oldsz newsz,E,h') ∧ Shrunk D E (npages newsz) (npages oldsz) := by
  unfold deallocuvm
  by_cases hle : oldsz ≤ newsz
  · refine ⟨D,h,by rw [if_pos hle,min_eq_left hle],fun w => ?_⟩
    rw [if_neg]
    have := npages_mono hle
    omega
  · rw [if_neg hle,pgRoundUp_page (by omega),min_eq_right (by omega)]
    obtain ⟨E,h',hr,hE⟩ := page_rounds (f := deallocBody oldsz) (g := fun s => (s.1,s.2.2)) (h := h)
      (I := fun E _ => Shrunk D E (npages newsz)) (fun _ _ _ h => if_neg h)
      (fun E u h hnu hlt hE => deallocBody_spec hs hlt hnu h hE fun e he => by
        rw [hE,if_neg (by omega)] at he
        exact hz u e hnu (lt_npages.mpr hlt) he)
      (fun w => by rw [if_neg (by omega)])
    exact ⟨E,h',by simp only [hr],hE⟩

end

/-- `E` is `D` with new user pages from `a` to `b`. -/
def Grown (D E : Dir) (a b : ℕ) : Prop :=
  ∀ w, if a ≤ w ∧ w < b then ∃ p, p ≠ 0 ∧ ent E w = some ⟨p,⟨true,true⟩⟩ else ent E w = ent D w

section
variable {oldsz newsz : ℕ} {D E : Dir} {a v : ℕ}

lemma Grown.self (D : Dir) {b : ℕ} (h : b ≤ a) : Grown D D a b := by
  intro w
  rw [if_neg (by omega)]

lemma Grown.inside {w : ℕ} (h : Grown D E a v) (hw : a ≤ w ∧ w < v) : ∃ p, p ≠ 0 ∧ ent E w = some ⟨p,⟨true,true⟩⟩ := by
  have := h w
  rwa [if_pos hw] at this

lemma Grown.outside {w : ℕ} (h : Grown D E a v) (hw : ¬(a ≤ w ∧ w < v)) : ent E w = ent D w := by
  have := h w
  rwa [if_neg hw] at this

lemma Grown.congr {F : Dir} (h : Grown D E a v) (hF : ∀ w, ent F w = ent E w) : Grown D F a v := by
  intro w
  rw [hF]
  exact h w

lemma Grown.succ {F : Dir} {p : ℕ} (h : Grown D E a v) (hav : a ≤ v) (hp : p ≠ 0)
    (hF : ∀ w, ent F w = if w = v then some ⟨p,⟨true,true⟩⟩ else ent E w) : Grown D F a (v+1) := by
  intro w
  rw [hF]
  by_cases hw : w = v
  · rw [if_pos (by omega),if_pos hw]
    exact ⟨p,hp,rfl⟩
  · rw [if_neg hw]
    by_cases hc : a ≤ w ∧ w < v
    · rw [if_pos (by omega)]
      exact h.inside hc
    · rw [if_neg (by omega)]
      exact h.outside hc

/-- The user pages from `a` to `b` are from the allocator, and the kernel's tables are as they were. -/
structure Taken (h : Heap) (D : Dir) (h' : Heap) (E : Dir) (a b : ℕ) : Prop where
  later : h.Later h'
  pages : ∀ w, a ≤ w → w < b → ∃ k, ent E w = some ⟨h.supply k,⟨true,true⟩⟩
  tabs : ∀ i, 512 ≤ i → E i = D i

lemma Taken.self (h : Heap) (D : Dir) {b : ℕ} (hb : b ≤ a) : Taken h D h D a b :=
  ⟨.refl h,fun w h1 h2 => by omega,fun _ _ => rfl⟩

lemma Taken.succ {F : Dir} {h h1 h2 : Heap} (hT : Taken h D h1 E a v) (hl : h1.Later h2) (hv : v < 2^19)
    (hF : ∀ w, ent F w = if w = v then some ⟨h1.supply 0,⟨true,true⟩⟩ else ent E w)
    (hi : ∀ i, i ≠ v/1024 → F i = E i) : Taken h D h2 F a (v+1) := by
  refine ⟨hT.later.trans hl,fun w h1 h2 => ?_,fun i h => (hi i (by omega)).trans (hT.tabs i h)⟩
  rw [hF]
  split_ifs with hw
  · obtain ⟨j,hj⟩ := hT.later
    exact ⟨0+j,by rw [hj]⟩
  · exact hT.pages w h1 (by omega)

lemma allocFail_spec (hs : newsz < kernBase) (hv : v ≤ npages newsz)
    (hn : ∀ w, npages oldsz ≤ w → w < npages newsz → ent D w = none) (hE : Grown D E (npages oldsz) v)
    (mem : Option ℕ) (h : Heap) : ∃ F h', allocFail E oldsz newsz mem h = .ok (0,F,h') ∧ ∀ w, ent F w = ent D w := by
  obtain ⟨F,h',hF,hent⟩ := deallocuvm_spec (D := E) (le_of_lt hs) oldsz h
    (fun w e hw hwn he => by
      by_cases hc : npages oldsz ≤ w ∧ w < v
      · obtain ⟨p,hp,hpe⟩ := hE.inside hc
        rw [he] at hpe
        cases hpe
        exact hp
      · rw [hE.outside hc,hn w hw hwn] at he
        cases he)
  refine ⟨F,mem.elim h' (fun p => kfree p h'),by simp only [allocFail,hF],fun w => ?_⟩
  rw [hent]
  by_cases hc : npages oldsz ≤ w ∧ w < npages newsz
  · rw [if_pos hc,hn w hc.1 hc.2]
  · rw [if_neg hc]
    exact hE.outside (by omega)

lemma allocBody_spec {h0 h : Heap} (hs : newsz < kernBase) (hlt : 4096*v < newsz) (hav : npages oldsz ≤ v)
    (hn : ∀ w, npages oldsz ≤ w → w < npages newsz → ent D w = none) (hE : Grown D E (npages oldsz) v)
    (hT : Taken h0 D h E (npages oldsz) v) :
    (∃ F h', allocBody oldsz newsz (E,4096*v,h) = .ok (.inl (F,4096*(v+1),h')) ∧ Grown D F (npages oldsz) (v+1) ∧
      Taken h0 D h' F (npages oldsz) (v+1)) ∨
    ∃ F h', allocBody oldsz newsz (E,4096*v,h) = .ok (.inr (0,F,h')) ∧ (∀ w, ent F w = ent D w) ∧ ¬h0.Good := by
  have hvn := lt_npages.mpr hlt
  have hle := npages_le (le_of_lt hs)
  unfold allocBody
  simp only [if_pos hlt]
  rcases kalloc_cases h with ⟨h1,hal,hbad⟩ | ⟨p,h1,hal,hl,hp⟩
  · obtain ⟨F,h',hF,hent⟩ := allocFail_spec hs (le_of_lt hvn) hn hE none h1
    exact .inr ⟨F,h',by simp only [hal,hF,Except.map],hent,fun hg => hbad (hT.later.good hg)⟩
  · have hnone : ent E v = none := by
      rw [hE.outside (by omega)]
      exact hn v hav hvn
    obtain ⟨b,F,h2,hF,hgood,htab,hent⟩ := mappages_page (show v < 2^20 by omega) hnone (p+1) ⟨true,true⟩ h1
    simp only [hal,hF]
    cases b with
    | false =>
      have hsame := hE.congr (F := F) (fun w => by simpa using hent w)
      obtain ⟨G,h',hG,hent'⟩ := allocFail_spec hs (le_of_lt hvn) hn hsame (some (p+1)) h2
      exact .inr ⟨G,h',by simp only [hG,Except.map],hent',fun hg => by cases hgood (hl.good (hT.later.good hg))⟩
    | true =>
      obtain ⟨hl2,hi⟩ := htab rfl
      have hent' : ∀ w, ent F w = if w = v then some ⟨p+1,⟨true,true⟩⟩ else ent E w := fun w => by simpa using hent w
      refine .inl ⟨F,h2,by rw [next_page (by omega)],hE.succ hav (succ_ne_zero p) hent',
        hT.succ (hl.trans hl2) (by omega) (fun w => ?_) hi⟩
      rw [hp]
      exact hent' w

/-- `allocuvm` adds all pages from the old size to the new one, or none. -/
lemma allocuvm_spec (newsz : ℕ) (hn : ∀ w, npages oldsz ≤ w → w < npages newsz → ent D w = none) (h : Heap) :
    ∃ r E h', allocuvm D oldsz newsz h = .ok (r,E,h') ∧
      ((r = 0 ∧ (∀ w, ent E w = ent D w) ∧ (newsz < kernBase → ¬h.Good)) ∨
      (newsz < kernBase ∧ r = max oldsz newsz ∧ Grown D E (npages oldsz) (npages newsz) ∧
        Taken h D h' E (npages oldsz) (npages newsz))) := by
  unfold allocuvm
  by_cases hs : kernBase ≤ newsz
  · rw [if_pos hs]
    exact ⟨0,D,h,rfl,.inl ⟨rfl,fun _ => rfl,fun h => by omega⟩⟩
  · rw [if_neg hs]
    by_cases hlt : newsz < oldsz
    · rw [if_pos hlt]
      have hle : npages newsz ≤ npages oldsz := npages_mono (by omega)
      exact ⟨oldsz,D,h,rfl,.inr ⟨by omega,by omega,.self D hle,.self h D hle⟩⟩
    · rw [if_neg hlt,pgRoundUp_page (by omega)]
      obtain ⟨⟨r,E,h'⟩,hr,hE⟩ := rounds_spec (f := allocBody oldsz newsz) (g := fun s => (newsz,s.1,s.2.2))
        (I := fun s => ∃ u, s.2.1 = 4096*u ∧ npages oldsz ≤ u ∧ u ≤ npages newsz ∧ Grown D s.1 (npages oldsz) u ∧
          Taken h D s.2.2 s.1 (npages oldsz) u)
        (Q := fun r => (r.1 = 0 ∧ (∀ w, ent r.2.1 w = ent D w) ∧ (newsz < kernBase → ¬h.Good)) ∨
          (r.1 = newsz ∧ Grown D r.2.1 (npages oldsz) (npages newsz) ∧
            Taken h D r.2.2 r.2.1 (npages oldsz) (npages newsz))) (fun s => npages newsz-s.2.1/4096) (by
          rintro ⟨E,a,h'⟩ ⟨u,rfl,hou,hun,hE,hT⟩
          by_cases hlt : 4096*u < newsz
          · have hu := lt_npages.mpr hlt
            rcases allocBody_spec (by omega) hlt hou hn hE hT with ⟨F,h',hF,hg,hT'⟩ | ⟨F,h',hF,hent,hbad⟩
            · exact .inl ⟨_,hF,⟨u+1,rfl,by omega,hu,hg,hT'⟩,by simp only; omega⟩
            · exact .inr ⟨_,hF,.inl ⟨rfl,hent,fun _ => hbad⟩⟩
          · have hu := mt lt_npages.mp hlt
            rw [show u = npages newsz by omega] at hE hT
            exact .inr ⟨(newsz,E,h'),if_neg hlt,.inr ⟨rfl,hE,hT⟩⟩)
        (s := (D,4096*npages oldsz,h)) (k := newsz/pgSize+2)
        ⟨npages oldsz,rfl,le_rfl,npages_mono (by omega),.self D le_rfl,.self h D le_rfl⟩ (by
          unfold pgSize npages
          omega)
      refine ⟨r,E,h',hr,hE.imp_right (fun hr => ⟨by omega,?_,hr.2⟩)⟩
      have := hr.1
      simp only at this
      omega

end

end Xv6Threads.Vm
