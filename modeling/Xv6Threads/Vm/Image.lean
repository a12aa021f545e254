import Xv6Threads.Vm.Spec

/-! The address space of a process: the user pages are exactly those below its size. `setupkvm`,
`copyuvm` and `exec` build such spaces, and `allocuvm` and `deallocuvm` keep them. -/
namespace Xv6Threads.Vm
open List Option Nat

/-- The user pages of `D` are those below `n`. -/
structure Fills (D : Dir) (n : ℕ) : Prop where
  below : ∀ {w}, w < n → ∃ e, ent D w = some e ∧ e.addr ≠ 0
  above : ∀ {w}, n ≤ w → w < 2^19 → ent D w = none

section
variable {D E : Dir} {n sz newsz : ℕ}

lemma Fills.congr (hD : Fills D n) (h : ∀ w, ent E w = ent D w) : Fills E n :=
  ⟨fun hw => by rw [h]; exact hD.below hw,fun h1 h2 => by rw [h]; exact hD.above h1 h2⟩

lemma Fills.addr (hD : Fills D n) {w : ℕ} {e : Pte} (hw : w < 2^19) (he : ent D w = some e) : e.addr ≠ 0 := by
  by_cases hn : w < n
  · obtain ⟨e',he',hne⟩ := hD.below hn
    rw [he] at he'
    cases he'
    exact hne
  · rw [hD.above (by omega) hw] at he
    cases he

lemma Fills.isSome_iff (hD : Fills D n) {w : ℕ} (hw : w < 2^19) : (ent D w).isSome = true ↔ w < n := by
  constructor
  · intro h
    by_contra hn
    rw [hD.above (by omega) hw] at h
    cases h
  · intro h
    obtain ⟨e,he,-⟩ := hD.below h
    rw [he]
    rfl

/-- `allocuvm` of a process that has its pages. -/
lemma allocuvm_fills (hs : sz < kernBase) (hD : Fills D (npages sz)) (newsz : ℕ) (h : Heap) :
    ∃ r E h', allocuvm D sz newsz h = .ok (r,E,h') ∧ ((r = 0 ∧ Fills E (npages sz)) ∨
      (r = max sz newsz ∧ r < kernBase ∧ Fills E (npages r))) := by
  by_cases hlt : newsz < kernBase
  · have hle := npages_le (le_of_lt hlt)
    obtain ⟨r,E,h',hr,hE⟩ := allocuvm_spec newsz (fun w h1 h2 => hD.above h1 (by omega)) h
    refine ⟨r,E,h',hr,hE.imp (fun ⟨h1,h2,_⟩ => ⟨h1,hD.congr h2⟩) (fun ⟨h1,h2,h3,_⟩ => ⟨h2,by omega,?_⟩)⟩
    have hmax : npages r = max (npages sz) (npages newsz) := by
      unfold npages
      omega
    rw [hmax]
    refine ⟨fun {w} hw => ?_,fun {w} hw hw' => ?_⟩
    · by_cases hc : npages sz ≤ w ∧ w < npages newsz
      · obtain ⟨p,hp,he⟩ := h3.inside hc
        exact ⟨_,he,hp⟩
      · rw [h3.outside hc]
        exact hD.below (by omega)
    · rw [h3.outside (by omega)]
      exact hD.above (by omega) hw'
  · exact ⟨0,D,h,by rw [allocuvm,if_pos (by omega)],.inl ⟨rfl,hD⟩⟩

/-- `deallocuvm` of a process that has its pages. -/
lemma deallocuvm_fills (hs : sz ≤ kernBase) (hD : Fills D (npages sz)) (newsz : ℕ) (h : Heap) :
    ∃ E h', deallocuvm D sz newsz h = .ok (min sz newsz,E,h') ∧ Fills E (npages (min sz newsz)) := by
  have hle := npages_le hs
  obtain ⟨E,h',hr,hE⟩ := deallocuvm_spec hs newsz h (fun w e _ h2 he => hD.addr (by omega) he)
  have hmin : npages (min sz newsz) = min (npages sz) (npages newsz) := by
    unfold npages
    omega
  refine ⟨E,h',hr,?_⟩
  rw [hmin]
  refine ⟨fun {w} hw => ?_,fun {w} hw hw' => ?_⟩
  · rw [hE,if_neg (by omega)]
    exact hD.below (by omega)
  · rw [hE]
    split_ifs with hc
    · rfl
    · exact hD.above (by omega) hw'

lemma freevm_ok {page : ℕ} (hp : page ≠ 0) (hD : ∀ w e, w < 2^19 → ent D w = some e → e.addr ≠ 0) (h : Heap) :
    ∃ h', freevm page D h = .ok h' := by
  obtain ⟨E,h',hE,-⟩ := deallocuvm_spec (D := D) (le_refl kernBase) 0 h
    (fun w e _ hw he => hD w e hw he)
  unfold freevm
  simp only [if_neg hp,hE]
  exact ⟨_,rfl⟩

lemma bad_ok {page : ℕ} (hp : page ≠ 0) (hD : Fills D n) (h : Heap) : ∃ h', bad page D h = .ok (none,h') := by
  obtain ⟨h',hf⟩ := freevm_ok hp (fun _ _ => hD.addr) h
  exact ⟨h',by simp only [bad,hf]⟩

lemma clearpteu_fills {v : ℕ} (hD : Fills D n) (hv : v < n) (hn : n ≤ 2^20) (h : Heap) :
    ∃ E, clearpteu D (4096*v) h = .ok E ∧ Fills E n := by
  obtain ⟨e,he,hne⟩ := hD.below hv
  cases ht : D (v/1024) with
  | none =>
    rw [ent,ht] at he
    cases he
  | some t =>
    have hpte := ent_of_tab ht
    rw [he] at hpte
    refine ⟨setPte D (4096*v) t (some {e with perm := {e.perm with u := false}}),?_,?_⟩
    · simp only [clearpteu,walk_false (D := D) (show v < 2^20 by omega),ht,map_some,ptx_page,← hpte]
    · have hset := ent_setPte (by omega) ht (some {e with perm := {e.perm with u := false}})
      refine ⟨fun {w} hw => ?_,fun {w} hw hw' => ?_⟩
      · rw [hset]
        split_ifs with hc
        · exact ⟨_,rfl,hne⟩
        · exact hD.below hw
      · rw [hset,if_neg (by omega)]
        exact hD.above hw hw'

end

section
variable {page : ℕ}

/-- The mappings of `ks` are whole pages from page `v` on, in order. -/
def Ordered : List Kmap → ℕ → Prop
  | [],_ => True
  | k :: ks,v => ∃ u n, k.virt = 4096*u ∧ k.size = 4096*(n+1) ∧ v ≤ u ∧ u+n < 2^20 ∧
      Ordered ks (u+n+1)

lemma kmap_ordered : Ordered kmap (2^19) :=
  ⟨0x80000,0xff,rfl,rfl,by decide,by decide,0x80100,9,rfl,rfl,by decide,by decide,
    0x8010a,0xdef5,rfl,rfl,by decide,by decide,0xfe000,0x1fff,rfl,rfl,by decide,by decide,trivial⟩

/-- `D` has the pages of the mappings in `done`, without `PTE_U`, and no tables but theirs. -/
structure Kernel (done : List Kmap) (D : Dir) : Prop where
  pages : ∀ k ∈ done, ∀ w, k.virt ≤ 4096*w → 4096*w < k.virt+k.size → ∃ p, ent D w = some ⟨p,k.perm⟩
  tabs : ∀ i, D i ≠ none → ∃ k ∈ done, k.virt/2^22 ≤ i ∧ i ≤ (k.virt+k.size-1)/2^22

lemma Kernel.user {D : Dir} {done : List Kmap} (h : Kernel done D) (hk : ∀ k ∈ done, kernBase ≤ k.virt) {i : ℕ}
    (hi : i < 512) : D i = none := by
  by_contra hne
  obtain ⟨k,hd,hle,-⟩ := h.tabs i hne
  have := hk k hd
  unfold kernBase at this
  omega

lemma kernBase_le : ∀ k ∈ kmap, kernBase ≤ k.virt := by decide

lemma kmapBody_spec {k : Kmap} {done ks : List Kmap} {v : ℕ} (hp : page ≠ 0) (hks : Ordered (k :: ks) v)
    (hv : 2^19 ≤ v) (hdone : ∀ k ∈ done, kernBase ≤ k.virt ∧ k.virt+k.size ≤ 4096*v) {D : Dir} (hD : Kernel done D)
    (hn : ∀ w, v ≤ w → ent D w = none) (h : Heap) :
    (∃ h', kmapBody page (k :: ks,D,h) = .ok (.inr (none,h')) ∧ ¬h.Good) ∨
    ∃ u E h', kmapBody page (k :: ks,D,h) = .ok (.inl (ks,E,h')) ∧ h.Later h' ∧ Ordered ks u ∧ v ≤ u ∧
      (kernBase ≤ k.virt ∧ k.virt+k.size ≤ 4096*u) ∧ Kernel (k :: done) E ∧ ∀ w, u ≤ w → ent E w = none := by
  obtain ⟨u,n,hvirt,hsize,hvu,hun,hks⟩ := hks
  obtain ⟨b,E,h',hE,hgood,hb,hi,hent⟩ := mappages_range hun (fun i _ => hn (u+i) (by omega)) k.physStart k.perm h
  have hbody : kmapBody page (k :: ks,D,h) = kmapNext page ks (.ok (b,E,h')) := by
    rw [← hE,← hvirt,← hsize]
    rfl
  rw [hbody]
  cases b with
  | false =>
    have hu : ∀ i, i < 512 → E i = none := fun i hi' =>
      (hi i (by omega)).trans (hD.user (fun k hk => (hdone k hk).1) hi')
    obtain ⟨h2,hf⟩ := freevm_ok (D := E) hp (fun w e hw he => by
      rw [ent,hu _ (by omega)] at he
      cases he) h'
    exact .inl ⟨h2,by rw [kmapNext,hf]; rfl,fun hg => by cases hgood hg⟩
  | true =>
    obtain ⟨hl,hpages⟩ := hb rfl
    refine .inr ⟨u+n+1,E,h',rfl,hl,hks,by omega,⟨?_,by omega⟩,⟨fun c hc w h1 h2 => ?_,fun i hne => ?_⟩,fun w hw => ?_⟩
    · unfold kernBase
      omega
    · rcases mem_cons.mp hc with rfl | hc
      · exact hpages w (by omega) (by omega)
      · have := (hdone c hc).2
        rw [hent w (by omega)]
        exact hD.pages c hc w h1 h2
    · by_cases hout : i < u/1024 ∨ (u+n)/1024 < i
      · rw [hi i hout] at hne
        obtain ⟨c,hc,hle⟩ := hD.tabs i hne
        exact ⟨c,mem_cons_of_mem _ hc,hle⟩
      · exact ⟨k,mem_cons_self ..,by omega,by omega⟩
    · rw [hent w (by omega)]
      exact hn w (by omega)

/-- `setupkvm` fails or makes a directory of the kernel's pages. -/
lemma setupkvm_kernel (h : Heap) : ∃ r h', setupkvm h = .ok (r,h') ∧ (h.Good → r.isSome = true) ∧
    ∀ x ∈ r, x.1 ≠ 0 ∧ h.Later h' ∧ Kernel kmap.reverse x.2 := by
  unfold setupkvm
  rcases kalloc_cases h with ⟨h',hk,hg⟩ | ⟨p,h',hk,hl,-⟩
  · exact ⟨none,h',by simp only [hk],fun h => (hg h).elim,nofun⟩
  · have hp := succ_ne_zero p
    obtain ⟨⟨r,h2⟩,hr,hg2,hx⟩ := rounds_spec (f := kmapBody (p+1)) (g := fun s => (some (p+1,s.2.1),s.2.2))
      (I := fun s => ∃ v done, done.reverse++s.1 = kmap ∧ Ordered s.1 v ∧ 2^19 ≤ v ∧ h.Later s.2.2 ∧
        (∀ k ∈ done, kernBase ≤ k.virt ∧ k.virt+k.size ≤ 4096*v) ∧ Kernel done s.2.1 ∧ ∀ w, v ≤ w → ent s.2.1 w = none)
      (Q := fun r => (h.Good → r.1.isSome = true) ∧ ∀ x ∈ r.1, x.1 ≠ 0 ∧ h.Later r.2 ∧ Kernel kmap.reverse x.2)
      (fun s => s.1.length) (by
        rintro ⟨ks,D,h'⟩ ⟨v,done,hd,hks,hv,hl,hdone,hD,hn⟩
        cases ks with
        | nil =>
          refine .inr ⟨_,rfl,fun _ => rfl,fun x hx => ?_⟩
          cases hx
          rw [← hd,append_nil,reverse_reverse]
          exact ⟨hp,hl,hD⟩
        | cons k ks =>
          rcases kmapBody_spec hp hks hv hdone hD hn h' with ⟨h2,hb,hg2⟩ | ⟨u,E,h2,hb,hl2,hks',hvu,hk,hE,hn'⟩
          · exact .inr ⟨_,hb,fun h => (hg2 (hl.good h)).elim,nofun⟩
          · refine .inl ⟨_,hb,⟨u,k :: done,?_,hks',by omega,hl.trans hl2,fun c hc => ?_,hE,hn'⟩,lt_succ_self _⟩
            · rw [reverse_cons,append_assoc]
              exact hd
            · rcases mem_cons.mp hc with rfl | hc
              · exact hk
              · have := hdone c hc
                exact ⟨this.1,by omega⟩)
      (s := (kmap,fun _ => none,h')) (k := kmap.length+1)
      ⟨2^19,[],rfl,kmap_ordered,le_rfl,hl,nofun,⟨nofun,fun i h => (h rfl).elim⟩,fun _ _ => rfl⟩
      (lt_succ_self _)
    refine ⟨r,h2,?_,hg2,hx⟩
    simp only [hk,if_neg (show ¬devSpace < phystop+kernBase by decide)]
    exact hr

/-- `setupkvm` fails or makes a directory without user pages. -/
lemma setupkvm_spec (h : Heap) : ∃ r h', setupkvm h = .ok (r,h') ∧ (h.Good → r.isSome = true ∧ h'.Good) ∧
    ∀ x ∈ r, x.1 ≠ 0 ∧ ∀ i, i < 512 → x.2 i = none := by
  obtain ⟨r,h',hr,hg,hx⟩ := setupkvm_kernel h
  refine ⟨r,h',hr,fun h => ⟨hg h,?_⟩,fun x hxr => ?_⟩
  · obtain ⟨x,hxr⟩ := isSome_iff_exists.mp (hg h)
    exact (hx x hxr).2.1.good h
  · obtain ⟨hp,-,hK⟩ := hx x hxr
    exact ⟨hp,fun i hi => hK.user (fun k hk => kernBase_le k (mem_reverse.mp hk)) hi⟩

lemma fills_zero {D : Dir} (hD : ∀ i, i < 512 → D i = none) : Fills D 0 := by
  refine ⟨nofun,fun {w} _ hw => ?_⟩
  rw [ent,hD _ (by omega)]
  rfl

end

section
variable {D E : Dir} {sz page v : ℕ}

/-- `E` has the first `v` pages of `D` with their permissions, and no other user pages. -/
structure Copied (D E : Dir) (v : ℕ) : Prop where
  below : ∀ {w}, w < v → ∃ e p, ent D w = some e ∧ ent E w = some ⟨p,e.perm⟩ ∧ p ≠ 0
  above : ∀ {w}, v ≤ w → w < 2^19 → ent E w = none

lemma Copied.fills (h : Copied D E v) : Fills E v := ⟨fun hw => by
    obtain ⟨e,p,-,he,hp⟩ := h.below hw
    exact ⟨_,he,hp⟩,h.above⟩

lemma Copied.succ {F : Dir} {e : Pte} {p : ℕ} (h : Copied D E v) (he : ent D v = some e) (hp : p ≠ 0)
    (hF : ∀ w, ent F w = if w = v then some ⟨p,e.perm⟩ else ent E w) : Copied D F (v+1) := by
  refine ⟨fun {w} hw => ?_,fun {w} hw hw' => ?_⟩
  · rw [hF]
    by_cases hc : w = v
    · rw [if_pos hc,hc]
      exact ⟨e,p,he,rfl,hp⟩
    · rw [if_neg hc]
      exact h.below (by omega)
  · rw [hF,if_neg (by omega)]
    exact h.above (by omega) hw'

variable (hs : sz ≤ kernBase) (hD : Fills D (npages sz))
include hs hD

lemma copyBody_spec (hp : page ≠ 0) (hlt : 4096*v < sz)
    (hE : Copied D E v) (h : Heap) :
    (∃ F h', copyBody D sz page (E,4096*v,h) = .ok (.inl (F,4096*(v+1),h')) ∧ Copied D F (v+1)) ∨
    ∃ h', copyBody D sz page (E,4096*v,h) = .ok (.inr (none,h')) := by
  have hvn := lt_npages.mpr hlt
  have hle := npages_le hs
  obtain ⟨e,he,-⟩ := hD.below hvn
  cases ht : D (v/1024) with
  | none =>
    rw [ent,ht] at he
    cases he
  | some t =>
    have hpte := ent_of_tab ht
    rw [he] at hpte
    unfold copyBody
    simp only [if_pos hlt,walk_false (D := D) (show v < 2^20 by omega),ht,map_some,ptx_page,← hpte]
    rcases kalloc_cases h with ⟨h1,hal,-⟩ | ⟨p,h1,hal,-,-⟩
    · obtain ⟨h',hb⟩ := bad_ok hp hE.fills h1
      exact .inr ⟨h',by simp only [hal,hb,Except.map]⟩
    · obtain ⟨b,F,h2,hF,-,-,hent⟩ := mappages_page (show v < 2^20 by omega) (hE.above (le_refl v) (by omega))
        (p+1) e.perm h1
      simp only [hal,hF]
      cases b with
      | false =>
        obtain ⟨h',hb⟩ := bad_ok (D := F) hp (hE.fills.congr (fun w => by simpa using hent w)) (kfree (p+1) h2)
        exact .inr ⟨h',by simp only [hb,Except.map]⟩
      | true =>
        refine .inl ⟨F,h2,by rw [next_page (by omega)],hE.succ he (succ_ne_zero p) (fun w => ?_)⟩
        simpa using hent w

/-- `copyuvm` of a process that has its pages fails or makes a directory with the same pages. -/
lemma copyuvm_spec (h : Heap) : ∃ r h', copyuvm D sz h = .ok (r,h') ∧ ∀ x ∈ r, x.1 ≠ 0 ∧ Copied D x.2 (npages sz) := by
  obtain ⟨r,h1,hr,-,hx⟩ := setupkvm_spec h
  unfold copyuvm
  rw [hr]
  cases r with
  | none => exact ⟨none,h1,rfl,nofun⟩
  | some x =>
    obtain ⟨hp,hu⟩ := hx x rfl
    obtain ⟨⟨r,h'⟩,hr,hQ⟩ := rounds_spec (f := copyBody D sz x.1) (g := fun s => (some (x.1,s.1),s.2.2))
      (I := fun s => ∃ u ≤ npages sz, s.2.1 = 4096*u ∧ Copied D s.1 u)
      (Q := fun r => ∀ x ∈ r.1, x.1 ≠ 0 ∧ Copied D x.2 (npages sz)) (fun s => npages sz-s.2.1/4096) (by
        rintro ⟨E,a,h⟩ ⟨u,hun,rfl,hE⟩
        by_cases hlt : 4096*u < sz
        · have hu := lt_npages.mpr hlt
          rcases copyBody_spec hs hD hp hlt hE h with ⟨F,h',hF,hC⟩ | ⟨h',hF⟩
          · exact .inl ⟨_,hF,⟨u+1,hu,rfl,hC⟩,by simp only; omega⟩
          · exact .inr ⟨_,hF,nofun⟩
        · have hu := mt lt_npages.mp hlt
          rw [show u = npages sz by omega] at hE
          refine .inr ⟨(some (x.1,E),h),if_neg hlt,fun y hy => ?_⟩
          cases hy
          exact ⟨hp,hE⟩)
      (s := (x.2,4096*0,h1)) (k := sz/pgSize+2)
      ⟨0,zero_le _,rfl,⟨nofun,(fills_zero hu).above⟩⟩ (by
        unfold pgSize npages
        omega)
    exact ⟨r,h',hr,hQ⟩

end

end Xv6Threads.Vm
